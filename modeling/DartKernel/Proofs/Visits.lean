import DartKernel.Proofs.Nesting

namespace DartKernel

/-- The cursor of one window is moved on to that of the other. -/
def Window.MovesTo (w w' : Window) : Prop := ∃ n ≤ w.remaining, w' = w.advance n

namespace Window.MovesTo

variable {u v w : Window}

theorem refl (w : Window) : w.MovesTo w := ⟨0, Nat.zero_le _, w.advance_zero.symm⟩

theorem trans (h : u.MovesTo v) (h' : v.MovesTo w) : u.MovesTo w := by
  obtain ⟨n, hn, rfl⟩ := h
  obtain ⟨k, hk, rfl⟩ := h'
  rw [Window.remaining_advance] at hk
  exact ⟨n + k, by omega, u.advance_advance n k⟩

theorem bytes_eq (h : u.MovesTo v) : v.bytes = u.bytes := by
  obtain ⟨n, -, rfl⟩ := h
  rfl

theorem position_le (h : u.MovesTo v) : u.position ≤ v.position := by
  obtain ⟨n, hn, rfl⟩ := h
  rw [Window.position_advance_of_le hn]
  exact Nat.le_add_right ..

theorem remaining_le (h : u.MovesTo v) : v.remaining ≤ u.remaining := by
  obtain ⟨n, hn, rfl⟩ := h
  rw [Window.remaining_advance]
  exact Nat.sub_le ..

end Window.MovesTo

namespace Decoder

variable {σ : Type} {Tree : σ → Type} {α : Type} {g : Grammar Tree}

theorem movesTo_of_reply {query : Query σ} {x : query.Answer Tree} {w w' : Window}
    (h : reply g query w = .ok x w') : w.MovesTo w' := reply_ok h

theorem movesTo_of_byte {tag : UInt8} {w w' : Window} (h : Scan.byte w = .ok tag w') :
    w.MovesTo w' :=
  ⟨1, Scan.remaining_pos_of_byte h, (Scan.byte_ok h).1⟩

theorem movesTo_of_run {decoder : Decoder Tree α} {w w' : Window} {a : α}
    (h : run g decoder w = .ok a w') : w.MovesTo w' := by
  obtain ⟨n, hn, hw', -⟩ := run_ok h
  exact ⟨n, hn, hw'⟩

/-- A run of the decoder from a window comes to read a tree: one that it asks for, or one that is
read in the course of such a tree or behind what was asked for first. -/
inductive Visits (g : Grammar Tree) :
    {α : Type} → Decoder Tree α → Window → (sort : σ) → Window → Prop
  | here {α : Type} {sort : σ} {next : Tree sort → Decoder Tree α} {w : Window} :
      Visits g (ask (.tree sort) next) w sort w
  | inside {α : Type} {sort sort' : σ} {next : Tree sort → Decoder Tree α} {tag : UInt8}
      {w m v : Window} : Scan.byte w = .ok tag m → Visits g (g sort tag) m sort' v →
      Visits g (ask (.tree sort) next) w sort' v
  | later {α : Type} {query : Query σ} {next : query.Answer Tree → Decoder Tree α}
      {x : query.Answer Tree} {sort : σ} {w m v : Window} : reply g query w = .ok x m →
      Visits g (next x) m sort v → Visits g (ask query next) w sort v

variable {decoder : Decoder Tree α} {sort sort' : σ} {w w' v u : Window} {a : α}

/-- What is read in the course of a tree is read in the course of a run that reads the tree. -/
theorem Visits.trans (h : Visits g decoder w sort v) (h' : Visits g (tree sort) v sort' u) :
    Visits g decoder w sort' u := by
  induction h with
  | here =>
    cases h' with
    | here => exact .here
    | inside hbyte h => exact .inside hbyte h
    | later _ h => cases h
  | inside hbyte _ ih => exact .inside hbyte (ih h')
  | later hreply _ ih => exact .later hreply (ih h')

/-- Where a run succeeds, all the trees have been read that it came by, inside of what it read. -/
theorem Visits.answered (h : Visits g decoder w sort v) (hrun : run g decoder w = .ok a w') :
    ∃ t v', run g (tree sort) v = .ok t v' ∧ w.MovesTo v ∧ v'.MovesTo w' := by
  induction h generalizing w' with
  | here =>
    rw [run_ask] at hrun
    obtain ⟨t, m, ht, hnext⟩ := Scan.bind_ok hrun
    exact ⟨t, m, ht, .refl _, movesTo_of_run hnext⟩
  | @inside _ sort _ _ tag w m _ hbyte _ ih =>
    rw [run_ask] at hrun
    obtain ⟨t, m', ht, hnext⟩ := Scan.bind_ok hrun
    have hfields : run g (g sort tag) m = .ok t m' := by
      change run g (tree sort) w = _ at ht
      rw [run_tree, Scan.bind_eq, hbyte] at ht
      exact ht
    have hmoves : w.MovesTo m := movesTo_of_byte hbyte
    obtain ⟨s, v', hs, hv, hv'⟩ := ih hfields
    exact ⟨s, v', hs, hmoves.trans hv, hv'.trans (movesTo_of_run hnext)⟩
  | later hreply _ ih =>
    rw [run_ask, Scan.bind_eq, hreply] at hrun
    obtain ⟨s, v', hs, hv, hv'⟩ := ih hrun
    exact ⟨s, v', hs, (movesTo_of_reply hreply).trans hv, hv'⟩

/-- A tree takes a byte at least. -/
theorem position_lt_of_tree {t : Tree sort} (h : run g (tree sort) w = .ok t w') :
    w.position < w'.position := by
  rw [run_tree] at h
  obtain ⟨tag, m, htag, hfields⟩ := Scan.bind_ok h
  have hpos := Scan.remaining_pos_of_byte htag
  obtain ⟨rfl, -⟩ := Scan.byte_ok htag
  have hle := (movesTo_of_run hfields).position_le
  rw [Window.position_advance_of_le hpos] at hle
  exact hle

def Meets (g : Grammar Tree) (decoder : Decoder Tree α) (w : Window) (sort : σ) (t : Tree sort) :
    Prop :=
  ∃ v v', Visits g decoder w sort v ∧ run g (tree sort) v = .ok t v'

/-- What a run answers is what its decoder reads of trees with any property that all the trees have
which the run has met. -/
theorem reads_of_run {S : (sort : σ) → Tree sort → Prop}
    (hmet : ∀ sort t, Meets g decoder w sort t → S sort t) (h : run g decoder w = .ok a w') :
    decoder.Reads .any (fun sort _ t _ => S sort t) w.rest a w'.rest := by
  induction decoder generalizing w with
  | done b =>
    cases h
    exact ⟨rfl, rfl⟩
  | fail fault => cases h
  | ask query next ih =>
    rw [run_ask] at h
    obtain ⟨x, m, hreply, hnext⟩ := Scan.bind_ok h
    refine ⟨x, m.rest, ?_, ih x ?_ hnext⟩
    · obtain ⟨n, -, hm, hx⟩ := reply_reads hreply
      rw [← Window.rest_advance, ← hm] at hx
      cases query with
      | tree sort => exact hmet sort x ⟨w, m, .here, hreply⟩
      | _ => exact hx
    · rintro sort t ⟨v, v', hv, ht⟩
      exact hmet sort t ⟨v, v', .later hreply hv, ht⟩

end Decoder
end DartKernel
