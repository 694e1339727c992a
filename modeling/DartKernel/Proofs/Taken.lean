import DartKernel.Proofs.Reading

namespace DartKernel

inductive Taken where
  | uint (bytes : List UInt8)
  | flag (bytes : List UInt8)
  deriving DecidableEq, Repr

/-- An integer in its shortest tier, or a truth value that is zero or one. -/
def Taken.IsPlain : Taken → Prop
  | .uint bytes => ∃ n, n < Uint.limit ∧ bytes = Uint.encode n
  | .flag bytes => bytes = [0] ∨ bytes = [1]

/-- Bytes spell one number only. -/
theorem Uint.Spells.unique {a b : Nat} {bytes : List UInt8} (ha : Spells a bytes)
    (hb : Spells b bytes) : a = b := by
  cases bytes with
  | nil => exact absurd rfl ha.ne_nil
  | cons first tail =>
    have h := (spells_cons_iff.mp ha).2.symm.trans (spells_cons_iff.mp hb).2
    exact Nat.add_right_cancel h

variable {σ : Type} {Tree : σ → Type} {α : Type}

/-- What a request takes that moves the cursor from one window to the other. `trees` is what the
trees take. -/
def Query.taken (trees : (sort : σ) → Window → List Taken) (w w' : Window) : Query σ → List Taken
  | .uint => [.uint (w.rest.take (w'.position - w.position))]
  | .flag _ => [.flag (w.rest.take (w'.position - w.position))]
  | .tree sort => trees sort w
  | .byte | .peek | .bytes _ => []

namespace Decoder

def takenWith (subtree : (sort : σ) → Scan (Tree sort)) (trees : (sort : σ) → Window → List Taken) :
    Decoder Tree α → Window → List Taken
  | done _, _ | fail _, _ => []
  | ask query next, w =>
    match answer subtree query w with
    | .ok x w' => query.taken trees w w' ++ takenWith subtree trees (next x) w'
    | .error _ _ => []

def takenInTree (grammar : Grammar Tree) : Nat → (sort : σ) → Window → List Taken
  | 0, _, _ => []
  | depth + 1, sort, w =>
    match Scan.byte w with
    | .ok tag w' =>
      takenWith (subtree grammar depth) (takenInTree grammar depth) (grammar sort tag) w'
    | .error _ _ => []

def taken (grammar : Grammar Tree) (decoder : Decoder Tree α) (w : Window) : List Taken :=
  takenWith (subtree grammar w.remaining) (takenInTree grammar w.remaining) decoder w

/-- Bytes that a scan moved past are the front of what was left. -/
theorem take_advance {w : Window} {n : Nat} {bytes : List UInt8} (hn : n ≤ w.remaining)
    (hrest : w.rest = bytes ++ w.rest.drop n) :
    w.rest.take ((w.advance n).position - w.position) = bytes := by
  have hc := w.cursor
  have hl := w.length_rest
  have hpos : (w.advance n).position - w.position = n := by
    simp only [Window.advance, Window.remaining] at *
    omega
  have hbytes := congrArg List.length hrest
  rw [List.length_append, List.length_drop] at hbytes
  rw [hpos, hrest]
  exact List.take_left' (by omega)

/-- Trees from which only plain integers and truth values are taken are read plainly. -/
def ReadPlainly (subtree : (sort : σ) → Scan (Tree sort))
    (trees : (sort : σ) → Window → List Taken) (readings : (sort : σ) → Reading (Tree sort)) :
    Prop :=
  ∀ sort w t w', subtree sort w = .ok t w' → (∀ x ∈ trees sort w, x.IsPlain) →
    readings sort w.rest t w'.rest

theorem answer_plain {subtree : (sort : σ) → Scan (Tree sort)}
    {trees : (sort : σ) → Window → List Taken} {readings : (sort : σ) → Reading (Tree sort)}
    (hsub : ReadPlainly subtree trees readings)
    (query : Query σ) {w w' : Window} {x : query.Answer Tree}
    (h : answer subtree query w = .ok x w')
    (hplain : ∀ x ∈ query.taken trees w w', x.IsPlain) :
    query.Reads .plain readings w.rest x w'.rest := by
  cases query with
  | byte =>
    obtain ⟨n, -, rfl, hr⟩ := Scan.byte_reads.sound h
    rw [Window.rest_advance]
    exact hr
  | peek =>
    obtain ⟨n, -, rfl, hr⟩ := Scan.peek_reads.sound h
    rw [Window.rest_advance]
    exact hr
  | uint =>
    obtain ⟨n, hn, rfl, bytes, hspells, hr⟩ := Scan.uint_reads.sound h
    obtain ⟨k, hk, hbytes⟩ : Taken.IsPlain (.uint _) := hplain _ (List.mem_singleton_self _)
    rw [take_advance hn hr] at hbytes
    subst hbytes
    rw [Window.rest_advance]
    have hx := hspells.unique (Uint.spells_encode hk)
    exact ⟨_, ⟨hspells.lt_limit, by rw [hx]⟩, hr⟩
  | flag means =>
    obtain ⟨n, hn, rfl, b, hr, hx⟩ := (Scan.map_reads means Scan.byte_reads).sound h
    have hb : Taken.IsPlain (.flag _) := hplain _ (List.mem_singleton_self _)
    have ht : w.rest.take ((w.advance n).position - w.position) = [b] := take_advance hn hr
    rw [Taken.IsPlain, ht, List.singleton_inj, List.singleton_inj] at hb
    rw [Window.rest_advance]
    exact ⟨b, ⟨hx.symm, hb⟩, hr⟩
  | bytes count =>
    obtain ⟨n, -, rfl, hr⟩ := (Scan.bytes_reads count).sound h
    rw [Window.rest_advance]
    exact hr
  | tree sort => exact hsub sort w x w' h hplain

theorem runWith_plain {subtree : (sort : σ) → Scan (Tree sort)}
    {trees : (sort : σ) → Window → List Taken} {readings : (sort : σ) → Reading (Tree sort)}
    (hsub : ReadPlainly subtree trees readings)
    (decoder : Decoder Tree α) {w w' : Window} {a : α} (h : runWith subtree decoder w = .ok a w')
    (hplain : ∀ x ∈ takenWith subtree trees decoder w, x.IsPlain) :
    decoder.Reads .plain readings w.rest a w'.rest := by
  induction decoder generalizing w with
  | done b =>
    cases h
    exact ⟨rfl, rfl⟩
  | fail fault => cases h
  | ask query next ih =>
    obtain ⟨x, m, hx, hnext⟩ := Scan.bind_ok h
    rw [takenWith, hx] at hplain
    have hquery : ∀ y ∈ query.taken trees w m, y.IsPlain :=
      fun y hy => hplain y (List.mem_append_left _ hy)
    have hrest : ∀ y ∈ takenWith subtree trees (next x) m, y.IsPlain :=
      fun y hy => hplain y (List.mem_append_right _ hy)
    exact ⟨x, m.rest, answer_plain hsub query hx hquery, ih x hnext hrest⟩

theorem subtree_plain (grammar : Grammar Tree) (depth : Nat) :
    ReadPlainly (subtree grammar depth) (takenInTree grammar depth)
      (TreeReads .plain grammar depth) := by
  induction depth with
  | zero =>
    intro sort w t w' h
    cases h
  | succ depth ih =>
    intro sort w t w' h hplain
    obtain ⟨tag, m, htag, h⟩ := Scan.bind_ok h
    rw [takenInTree, htag] at hplain
    obtain ⟨n, -, rfl, hr⟩ := Scan.byte_reads.sound htag
    rw [← Window.rest_advance] at hr
    exact ⟨tag, _, hr, runWith_plain ih _ h hplain⟩

/-- A run that takes only plain integers and truth values reads plainly. -/
theorem run_plain {grammar : Grammar Tree} {decoder : Decoder Tree α} {w w' : Window} {a : α}
    (h : run grammar decoder w = .ok a w')
    (hplain : ∀ x ∈ taken grammar decoder w, x.IsPlain) :
    decoder.Reads .plain (TreeReads .plain grammar w.remaining) w.rest a w'.rest :=
  runWith_plain (subtree_plain grammar _) decoder h hplain

end Decoder
end DartKernel
