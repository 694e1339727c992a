import DartKernel.Proofs.Numerals

namespace DartKernel

structure Spelling where
  uint : Nat → List UInt8 → Prop
  flag : (UInt8 → Bool) → Bool → UInt8 → Prop
  lt_limit {n : Nat} {bytes : List UInt8} : uint n bytes → n < Uint.limit

namespace Spelling

def any : Spelling where
  uint := Uint.Spells
  flag means value b := means b = value
  lt_limit h := h.lt_limit

/-- Integers in their shortest tier, and truth values as zero and one. -/
def plain : Spelling where
  uint n bytes := n < Uint.limit ∧ bytes = Uint.encode n
  flag means value b := means b = value ∧ (b = 0 ∨ b = 1)
  lt_limit h := h.1

/-- What can be spelled fits in a word. -/
theorem exists_toNat_eq (spelling : Spelling) {n : Nat} {bytes : List UInt8}
    (h : spelling.uint n bytes) : ∃ k : UInt32, k.toNat = n := by
  have hlt : n < UInt32.size := by
    have := spelling.lt_limit h
    simp only [Uint.limit, Uint.Tier.limit, UInt32.size] at *
    omega
  exact ⟨n.toUInt32, UInt32.toNat_ofNat_of_lt' hlt⟩

end Spelling

def Reading.many (p : Reading α) : Reading (List α)
  | s, [], r => r = s
  | s, x :: xs, r => ∃ m, p s x m ∧ Reading.many p m xs r

variable {σ : Type} {Tree : σ → Type} {α β : Type}

/-- What answers a request. -/
def Query.Reads (spelling : Spelling) (trees : (sort : σ) → Reading (Tree sort)) :
    (query : Query σ) → Reading (query.Answer Tree)
  | .byte => fun s b r => s = b :: r
  | .peek => fun s b r => r = s ∧ s.head? = some b
  | .uint => fun s n r => ∃ bytes, spelling.uint n.toNat bytes ∧ s = bytes ++ r
  | .flag means => fun s value r => ∃ b, spelling.flag means value b ∧ s = b :: r
  | .bytes count => fun s bytes r => bytes.length = count ∧ s = bytes ++ r
  | .tree sort => trees sort

namespace Decoder

def Reads (spelling : Spelling) (trees : (sort : σ) → Reading (Tree sort)) :
    Decoder Tree α → Reading α
  | done a => fun s b r => b = a ∧ r = s
  | fail _ => fun _ _ _ => False
  | ask query next => fun s b r =>
    ∃ x m, query.Reads spelling trees s x m ∧ (next x).Reads spelling trees m b r

theorem answer_reads {subtree : (sort : σ) → Scan (Tree sort)}
    {trees : (sort : σ) → Reading (Tree sort)} (h : ∀ sort, (subtree sort).Reads (trees sort))
    (query : Query σ) : (answer subtree query).Reads (query.Reads .any trees) := by
  cases query with
  | byte => exact Scan.byte_reads
  | peek => exact Scan.peek_reads
  | uint => exact Scan.uint_reads
  | flag means =>
    apply (Scan.map_reads means Scan.byte_reads).congr
    intro s value r
    constructor
    · intro h
      rcases h with ⟨b, hs, hv⟩
      exact ⟨b, hv.symm, hs⟩
    · intro h
      rcases h with ⟨b, hv, hs⟩
      exact ⟨b, hs, hv.symm⟩
  | bytes count => exact Scan.bytes_reads count
  | tree sort => exact h sort

theorem runWith_reads {subtree : (sort : σ) → Scan (Tree sort)}
    {trees : (sort : σ) → Reading (Tree sort)} (h : ∀ sort, (subtree sort).Reads (trees sort))
    (decoder : Decoder Tree α) :
    (runWith subtree decoder).Reads (decoder.Reads .any trees) := by
  induction decoder with
  | done a => exact Scan.pure_reads a
  | fail fault => exact Scan.throw_reads fault
  | ask query next ih => exact Scan.bind_reads (answer_reads h query) ih

/-- What is read of a tree that nests at most `depth` deep. -/
def TreeReads (spelling : Spelling) (grammar : Grammar Tree) : Nat → (sort : σ) →
    Reading (Tree sort)
  | 0, _ => fun _ _ _ => False
  | depth + 1, sort => fun s t r => ∃ tag m, s = tag :: m ∧
    (grammar sort tag).Reads spelling (TreeReads spelling grammar depth) m t r

theorem subtree_reads (grammar : Grammar Tree) (depth : Nat) (sort : σ) :
    (subtree grammar depth sort).Reads (TreeReads .any grammar depth sort) := by
  induction depth generalizing sort with
  | zero => exact ⟨nofun, False.elim⟩
  | succ depth ih =>
    apply (Scan.bind_reads Scan.byte_reads fun tag => runWith_reads ih _).congr
    intro s t r
    rfl

/-- Running a decoder reads what it reads, nesting no deeper than there are bytes. -/
theorem run_ok {grammar : Grammar Tree} {decoder : Decoder Tree α} {w w' : Window} {a : α}
    (h : run grammar decoder w = .ok a w') : ∃ n ≤ w.remaining, w' = w.advance n ∧
      decoder.Reads .any (TreeReads .any grammar w.remaining) w.rest a (w.rest.drop n) :=
  (runWith_reads (subtree_reads grammar _) decoder).sound h

theorem run_complete {grammar : Grammar Tree} {decoder : Decoder Tree α} {w : Window} {a : α}
    {rest : List UInt8}
    (h : decoder.Reads .any (TreeReads .any grammar w.remaining) w.rest a rest) :
    ∃ n ≤ w.remaining, rest = w.rest.drop n ∧ run grammar decoder w = .ok a (w.advance n) :=
  (runWith_reads (subtree_reads grammar _) decoder).complete h

variable {spelling : Spelling} {trees : (sort : σ) → Reading (Tree sort)} {s r : List UInt8}

@[simp] theorem reads_pure (a b : α) :
    (pure a : Decoder Tree α).Reads spelling trees s b r ↔ b = a ∧ r = s := Iff.rfl

@[simp] theorem reads_fail (fault : Fault) (a : α) :
    ¬ (fail fault : Decoder Tree α).Reads spelling trees s a r := id

theorem reads_bind (x : Decoder Tree α) (f : α → Decoder Tree β) (b : β) :
    (x >>= f).Reads spelling trees s b r ↔
      ∃ a m, x.Reads spelling trees s a m ∧ (f a).Reads spelling trees m b r := by
  change (x.bind f).Reads spelling trees s b r ↔ _
  induction x generalizing s with
  | done a => simp [Decoder.bind, Reads]
  | fail fault => simp [Decoder.bind, Reads]
  | ask query next ih =>
    simp only [Decoder.bind, Reads, ih]
    constructor
    · intro h
      rcases h with ⟨x, m, hx, a, m', ha, hb⟩
      exact ⟨a, m', ⟨x, m, hx, ha⟩, hb⟩
    · intro h
      obtain ⟨a, m', ⟨x, m, hx, ha⟩, hb⟩ := h
      exact ⟨x, m, hx, a, m', ha, hb⟩

theorem reads_map (f : α → β) (x : Decoder Tree α) (b : β) :
    (f <$> x).Reads spelling trees s b r ↔ ∃ a, x.Reads spelling trees s a r ∧ b = f a := by
  change (x >>= fun a => pure (f a)).Reads spelling trees s b r ↔ _
  simp [reads_bind]

theorem reads_seq (f : Decoder Tree (α → β)) (x : Decoder Tree α) (b : β) :
    (f <*> x).Reads spelling trees s b r ↔ ∃ g m a,
      f.Reads spelling trees s g m ∧ x.Reads spelling trees m a r ∧ b = g a := by
  change (f >>= fun g => g <$> x).Reads spelling trees s b r ↔ _
  simp [reads_bind, reads_map]

/-- Going on where a condition does not hold. -/
theorem reads_if_fail {c : Prop} [Decidable c] (fault : Fault) (x : Decoder Tree α) (a : α) :
    (if c then fail fault else x).Reads spelling trees s a r ↔
      ¬ c ∧ x.Reads spelling trees s a r := by
  by_cases hc : c <;> simp [hc]

/-- Going on after the one answer that is expected. -/
theorem reads_expected [DecidableEq α] (x : Decoder Tree α) (expected : α) (fault : α → Fault)
    (f : α → Decoder Tree β) (b : β) :
    (x >>= fun a => if a ≠ expected then fail (fault a) else f a).Reads spelling trees s b r ↔
      ∃ m, x.Reads spelling trees s expected m ∧ (f expected).Reads spelling trees m b r := by
  simp only [reads_bind, reads_if_fail, not_not]
  constructor
  · intro h
    rcases h with ⟨a, m, ha, he, hb⟩
    subst he
    exact ⟨m, ha, hb⟩
  · intro h
    rcases h with ⟨m, ha, hb⟩
    exact ⟨expected, m, ha, rfl, hb⟩

@[simp] theorem reads_byte (b : UInt8) :
    (byte : Decoder Tree UInt8).Reads spelling trees s b r ↔ s = b :: r := by
  simp [byte, Reads, Query.Reads]

end Decoder
end DartKernel
