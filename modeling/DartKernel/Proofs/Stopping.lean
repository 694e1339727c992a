import DartKernel.Proofs.Nesting

namespace DartKernel

/-- The fault says that there are too few bytes from the cursor on. -/
def Window.Lacks (w : Window) (fault : Fault) : Prop :=
  ∃ wanted, w.remaining < wanted ∧ fault = w.outOfBounds w.position wanted

namespace Scan

/-- The scan fails only for want of bytes, and stops where they are missing. -/
def Starves (scan : Scan α) : Prop := ∀ w fault w', scan w = .error fault w' →
  ∃ n ≤ w.remaining, w' = w.advance n ∧ w'.Lacks fault

theorem pure_starves (a : α) : (pure a : Scan α).Starves := nofun

theorem byte_starves : byte.Starves := by
  intro w fault w' h
  cases hrest : w.rest with
  | nil =>
    have hremaining := Window.remaining_eq_zero hrest
    rw [byte_eq_error hremaining] at h
    cases h
    exact ⟨0, Nat.zero_le _, w.advance_zero.symm, 1, by omega, rfl⟩
  | cons b rest =>
    rw [byte_eq_ok hrest] at h
    cases h

theorem peek_starves : peek.Starves := by
  intro w fault w' h
  cases hrest : w.rest with
  | nil =>
    have hremaining := Window.remaining_eq_zero hrest
    rw [peek_eq_error hremaining] at h
    cases h
    exact ⟨0, Nat.zero_le _, w.advance_zero.symm, 1, by omega, rfl⟩
  | cons b rest =>
    rw [peek_eq_ok hrest] at h
    cases h

theorem bytes_starves (count : Nat) : (bytes count).Starves := by
  intro w fault w' h
  rw [bytes_eq] at h
  by_cases hle : count ≤ w.remaining
  · rw [if_pos hle] at h
    cases h
  · rw [if_neg hle] at h
    cases h
    exact ⟨0, Nat.zero_le _, w.advance_zero.symm, count, by omega, rfl⟩

theorem byte_bind_starves {f : UInt8 → Scan α} (hf : ∀ b, (f b).Starves) :
    (byte >>= f).Starves := by
  intro w fault w' h
  rw [bind_eq] at h
  cases hb : byte w with
  | error found m =>
    rw [hb] at h
    cases h
    exact byte_starves _ _ _ hb
  | ok b m =>
    rw [hb] at h
    have hpos := remaining_pos_of_byte hb
    obtain ⟨rfl, -⟩ := byte_ok hb
    obtain ⟨n, hn, rfl, hlacks⟩ := hf b _ _ _ h
    rw [Window.remaining_advance] at hn
    exact ⟨1 + n, by omega, w.advance_advance 1 n, hlacks⟩

theorem ite_starves {c : Prop} [Decidable c] {x y : Scan α} (hx : x.Starves) (hy : y.Starves) :
    (if c then x else y).Starves := iteInduction (motive := Starves) (fun _ => hx) fun _ => hy

/-- An integer that is cut short stops behind the bytes of it that are there. -/
theorem uint_starves : uint.Starves := by
  apply byte_bind_starves
  intro first
  apply ite_starves (pure_starves _)
  apply ite_starves (byte_bind_starves fun _ => pure_starves _)
  exact byte_bind_starves fun _ => byte_bind_starves fun _ => byte_bind_starves
    fun _ => pure_starves _

end Scan

inductive Fault.OverTag (tag : UInt8) : Fault → Prop
  | unknown {family : NodeFamily} : family ≠ .member → OverTag tag (.unknownTag family tag)
  | mismatch (expected : UInt8) : OverTag tag (.tagMismatch tag expected)
  | option : OverTag tag (.optionTag tag)

inductive Fault.OverUnread (tag : UInt8) : Fault → Prop
  | unknown : OverUnread tag (.unknownTag .member tag)
  | payload : OverUnread tag (.constantPayload tag)

def Fault.IsFormat (fault : Fault) : Prop := ∃ cause, fault = .format cause

section Justified

variable {σ : Type} {Tree : σ → Type} {α β : Type} {size : Nat}

def Query.Justifies (size : Nat) : (query : Query σ) → query.Answer Tree → Fault → Prop
  | .byte, tag, fault => fault.OverTag tag ∨ fault.IsFormat
  | .peek, tag, fault => fault.OverUnread tag ∨ fault.IsFormat
  | .uint, index, fault =>
    (size < index.toNat ∧ fault = .invalidReference .string index size) ∨ fault.IsFormat
  | .flag _, _, fault | .bytes _, _, fault | .tree _, _, fault => fault.IsFormat

theorem Query.justifies_format {query : Query σ} {x : query.Answer Tree} {fault : Fault}
    (h : fault.IsFormat) : query.Justifies size x fault := by
  cases query with
  | byte => exact Or.inr h
  | peek => exact Or.inr h
  | uint => exact Or.inr h
  | _ => exact h

namespace Decoder

/-- Each fault of the decoder is justified by the answer that was given last, or is one that may
come before any. -/
def Justified (size : Nat) (before : Fault → Prop) : Decoder Tree α → Prop
  | done _ => True
  | fail fault => before fault
  | ask query next => ∀ x, (next x).Justified size (query.Justifies size x)

/-- A decoder that blames no answer but the ones it asked for. -/
class Truthful (size : Nat) (decoder : Decoder Tree α) : Prop where
  justified : decoder.Justified size Fault.IsFormat

theorem Justified.mono {p q : Fault → Prop} {decoder : Decoder Tree α}
    (h : decoder.Justified size p) (hpq : ∀ fault, p fault → q fault) :
    decoder.Justified size q := by
  cases decoder with
  | done a => trivial
  | fail fault => exact hpq fault h
  | ask query next => exact h

/-- Whatever comes after a decoder may complain of what it asks for itself. -/
theorem Justified.bind {p : Fault → Prop} {decoder : Decoder Tree α} {f : α → Decoder Tree β}
    (h : decoder.Justified size p) (hp : ∀ fault, fault.IsFormat → p fault)
    (hf : ∀ a, (f a).Truthful size) : (decoder >>= f).Justified size p := by
  change (decoder.bind f).Justified size p
  induction decoder generalizing p with
  | done a => exact (hf a).justified.mono hp
  | fail fault => exact h
  | ask query next ih => exact fun x => ih x (h x) fun _ => Query.justifies_format

variable {decoder : Decoder Tree α}

instance {a : α} : Truthful size (pure a : Decoder Tree α) := ⟨trivial⟩

instance {cause : Malformation} : Truthful size (fail (.format cause) : Decoder Tree α) :=
  ⟨cause, rfl⟩

instance {query : Query σ} : Truthful size (ask query done : Decoder Tree (query.Answer Tree)) :=
  ⟨fun _ => trivial⟩

instance : Truthful size (byte : Decoder Tree UInt8) := ⟨fun _ => trivial⟩

instance : Truthful size (uint : Decoder Tree UInt32) := ⟨fun _ => trivial⟩

instance : Truthful size (boolean : Decoder Tree Bool) := ⟨fun _ => trivial⟩

instance : Truthful size (lowBit : Decoder Tree Bool) := ⟨fun _ => trivial⟩

instance {count : Nat} : Truthful size (bytes count : Decoder Tree (List UInt8)) :=
  ⟨fun _ => trivial⟩

instance {sort : σ} : Truthful size (tree sort : Decoder Tree (Tree sort)) := ⟨fun _ => trivial⟩

instance {f : α → Decoder Tree β} [decoder.Truthful size] [hf : ∀ a, (f a).Truthful size] :
    (decoder >>= f).Truthful size :=
  ⟨Truthful.justified.bind (fun _ => id) hf⟩

instance {f : α → β} [decoder.Truthful size] : (f <$> decoder).Truthful size :=
  inferInstanceAs (Truthful size (decoder >>= fun a => pure (f a)))

instance {f : Decoder Tree (α → β)} [f.Truthful size] [decoder.Truthful size] :
    (f <*> decoder).Truthful size :=
  inferInstanceAs (Truthful size (f >>= fun g => g <$> decoder))

instance {c : Prop} [Decidable c] {x y : Decoder Tree α} [hx : x.Truthful size]
    [hy : y.Truthful size] : (if c then x else y).Truthful size :=
  iteInduction (motive := Truthful size) (fun _ => hx) fun _ => hy

instance [decoder.Truthful size] {count : Nat} : (many decoder count).Truthful size := by
  have honto (read : List α) : (manyOnto decoder count read).Truthful size := by
    induction count generalizing read with
    | zero => exact inferInstanceAs (Truthful size (pure read.reverse))
    | succ count ih =>
      exact inferInstanceAs
        (Truthful size (decoder >>= fun a => manyOnto decoder count (a :: read)))
  exact honto []

instance [decoder.Truthful size] : (list decoder).Truthful size := by
  unfold list
  infer_instance

instance [hd : decoder.Truthful size] : (option decoder).Truthful size where
  justified := by
    intro tag
    change Justified size _ (if tag = 0 then pure none
      else if tag = 1 then some <$> decoder else fail (.optionTag tag))
    by_cases h0 : tag = 0
    · rw [if_pos h0]
      trivial
    rw [if_neg h0]
    by_cases h1 : tag = 1
    · rw [if_pos h1]
      have hsome : Truthful size (some <$> decoder) := inferInstance
      exact hsome.justified.mono fun _ => Query.justifies_format
    · rw [if_neg h1]
      exact Or.inl .option

instance {expected : UInt8} : (checkTag expected : Decoder Tree Unit).Truthful size where
  justified := by
    intro actual
    change Justified size _ (if actual ≠ expected then fail (.tagMismatch actual expected)
      else pure ())
    by_cases h : actual ≠ expected
    · rw [if_pos h]
      exact Or.inl (.mismatch expected)
    · rw [if_neg h]
      trivial

end Decoder
end Justified

namespace Decoder

variable {σ : Type} {Tree : σ → Type} {α : Type} {g : Grammar Tree} {size : Nat}
  {w w' : Window} {fault : Fault}

/-- How a run from a window comes to fail: bytes are missing where it stops, or the fault is over
the answer to its last request, behind which it stops. -/
inductive Accounts (g : Grammar Tree) (size : Nat) (w : Window) (fault : Fault) (w' : Window) : Prop
  | missing {n : Nat} : n ≤ w.remaining → w' = w.advance n → w'.Lacks fault →
      Accounts g size w fault w'
  | answer {n : Nat} {query : Query σ} {x : query.Answer Tree} : n ≤ w.remaining →
      reply g query (w.advance n) = .ok x w' → query.Justifies size x fault →
      Accounts g size w fault w'

theorem Accounts.of_advance {k : Nat} (hk : k ≤ w.remaining)
    (h : Accounts g size (w.advance k) fault w') : Accounts g size w fault w' := by
  cases h with
  | missing hn hw' hlacks =>
    rw [Window.remaining_advance] at hn
    exact .missing (by omega) (hw'.trans (w.advance_advance ..)) hlacks
  | answer hn hreply hjustifies =>
    rw [Window.remaining_advance] at hn
    rw [Window.advance_advance] at hreply
    exact .answer (by omega) hreply hjustifies

theorem Accounts.of_starves {scan : Scan β} (h : scan.Starves) (hw : scan w = .error fault w') :
    Accounts g size w fault w' := by
  obtain ⟨n, hn, hw', hlacks⟩ := h _ _ _ hw
  exact .missing hn hw' hlacks

theorem Accounts.moves (h : Accounts g size w fault w') : ∃ n ≤ w.remaining, w' = w.advance n := by
  cases h with
  | missing hn hw' => exact ⟨_, hn, hw'⟩
  | answer hn hreply =>
    obtain ⟨k, hk, rfl⟩ := reply_ok hreply
    rw [Window.remaining_advance] at hk
    exact ⟨_, by omega, w.advance_advance ..⟩

/-- A request that fails accounts for its fault, if trees do. -/
theorem reply_accounts {query : Query σ}
    (htree : ∀ sort fault w', run g (tree sort) w = .error fault w' → Accounts g size w fault w')
    (h : reply g query w = .error fault w') : Accounts g size w fault w' := by
  cases query with
  | byte => exact .of_starves Scan.byte_starves h
  | peek => exact .of_starves Scan.peek_starves h
  | uint => exact .of_starves Scan.uint_starves h
  | flag means => exact .of_starves (Scan.byte_bind_starves fun _ => Scan.pure_starves _) h
  | bytes count => exact .of_starves (Scan.bytes_starves count) h
  | tree sort => exact htree sort _ _ h

/-- A run that fails accounts for its fault, if the trees do that it may ask for. -/
theorem run_accounts_of_trees {limit : Nat}
    (htree : ∀ sort w fault w', w.remaining ≤ limit → run g (tree sort) w = .error fault w' →
      Accounts g size w fault w')
    {decoder : Decoder Tree α} {before : Fault → Prop} (hd : decoder.Justified size before)
    (hlimit : w.remaining ≤ limit) (h : run g decoder w = .error fault w') :
    (before fault ∧ w' = w) ∨ Accounts g size w fault w' := by
  induction decoder generalizing before w with
  | done a => cases h
  | fail found =>
    cases h
    exact Or.inl ⟨hd, rfl⟩
  | ask query next ih =>
    rw [run_ask, Scan.bind_eq] at h
    cases hx : reply g query w with
    | error found m =>
      rw [hx] at h
      cases h
      exact Or.inr (reply_accounts (fun sort fault w' => htree sort w fault w' hlimit) hx)
    | ok x m =>
      rw [hx] at h
      obtain ⟨k, hk, rfl⟩ := reply_ok hx
      have hremaining : (w.advance k).remaining ≤ limit := by
        rw [Window.remaining_advance]
        omega
      rcases ih x (hd x) hremaining h with ⟨hjustifies, rfl⟩ | haccounts
      · have hreply : reply g query (w.advance 0) = .ok x (w.advance k) := by
          rw [Window.advance_zero, hx]
        exact Or.inr (.answer (Nat.zero_le _) hreply hjustifies)
      · exact Or.inr (haccounts.of_advance hk)

/-- A tree that is not read accounts for its fault. The induction is on the bytes at hand: below its
tag byte a tree has fewer of them. -/
theorem tree_accounts (hg : ∀ sort tag, (g sort tag).Justified size fun fault =>
      fault.OverTag tag ∨ fault.IsFormat) {limit : Nat} (sort : σ) (hlimit : w.remaining ≤ limit)
    (h : run g (tree sort) w = .error fault w') : Accounts g size w fault w' := by
  induction limit generalizing sort w fault w' with
  | zero =>
    rw [run_tree, Scan.bind_eq, Scan.byte_eq_error (Nat.le_zero.mp hlimit)] at h
    cases h
    exact .of_starves Scan.byte_starves (Scan.byte_eq_error (Nat.le_zero.mp hlimit))
  | succ limit ih =>
    rw [run_tree, Scan.bind_eq] at h
    cases htag : Scan.byte w with
    | error found m =>
      rw [htag] at h
      cases h
      exact .of_starves Scan.byte_starves htag
    | ok tag m =>
      rw [htag] at h
      have hpos := Scan.remaining_pos_of_byte htag
      obtain ⟨rfl, -⟩ := Scan.byte_ok htag
      have hremaining : (w.advance 1).remaining ≤ limit := by
        rw [Window.remaining_advance]
        omega
      rcases run_accounts_of_trees (fun sort w fault w' hl h => ih sort hl h) (hg sort tag)
        hremaining h with ⟨hjustifies, rfl⟩ | haccounts
      · have hreply : reply g .byte (w.advance 0) = .ok tag (w.advance 1) := by
          rw [Window.advance_zero]
          exact htag
        exact .answer (Nat.zero_le _) hreply hjustifies
      · exact haccounts.of_advance (by omega)

/-- A run that fails complains of what it met where it stopped, or breaks a rule of the format
before it met anything. -/
theorem run_accounts (hg : ∀ sort tag, (g sort tag).Justified size fun fault =>
      fault.OverTag tag ∨ fault.IsFormat) {decoder : Decoder Tree α} [hd : decoder.Truthful size]
    (h : run g decoder w = .error fault w') :
    (fault.IsFormat ∧ w' = w) ∨ Accounts g size w fault w' :=
  run_accounts_of_trees (fun sort _ _ _ hlimit => tree_accounts hg sort hlimit) hd.justified
    (Nat.le_refl _) h

end Decoder
end DartKernel
