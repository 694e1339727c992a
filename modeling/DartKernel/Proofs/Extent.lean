import DartKernel.Proofs.Carving

namespace DartKernel

namespace Window

/-- The part of `w` between two offsets of the file, with nothing of it read yet. -/
structure Between (v w : Window) (start stop : Nat) : Prop where
  data : v.data = w.data
  base : v.base = start
  ends : v.base + v.length = stop
  position : v.position = 0
  lower : w.base ≤ start
  upper : stop ≤ w.base + w.length

variable {v w u : Window} {start stop : Nat}

theorem Between.length (h : v.Between w start stop) : start + v.length = stop := by
  rw [← h.base]
  exact h.ends

/-- A part of a part is a part of the whole. -/
theorem Between.trans {start' stop' : Nat} (h : v.Between w start stop)
    (hw : w.Between u start' stop') : v.Between u start stop := by
  have hbase := hw.base
  have hends := hw.ends
  have hlower := h.lower
  have hupper := h.upper
  refine ⟨h.data.trans hw.data, h.base, h.ends, h.position, ?_, ?_⟩
  · exact (hbase ▸ hw.lower).trans hlower
  · exact hupper.trans (hends ▸ hw.upper)

/-- Equal bounds and cursors in one buffer are equal windows. -/
theorem eq_of_bounds (hdata : v.data = u.data) (hbase : v.base = u.base)
    (hlength : v.length = u.length) (hposition : v.position = u.position) : v = u := by
  cases v
  cases u
  cases hdata
  cases hbase
  cases hlength
  cases hposition
  rfl

theorem slice_eq_ok_iff {offset length : Nat} : w.slice offset length = .ok v ↔
    v.Between w (w.base + offset) (w.base + offset + length) := by
  unfold Window.slice
  constructor
  · intro h
    by_cases hle : offset + length ≤ w.length
    · rw [dif_pos hle] at h
      cases h
      exact ⟨rfl, rfl, rfl, rfl, Nat.le_add_right .., by omega⟩
    · rw [dif_neg hle] at h
      cases h
  · intro h
    have hupper := h.upper
    have hlength := h.length
    have hle : offset + length ≤ w.length := by omega
    rw [dif_pos hle]
    exact congrArg Except.ok (eq_of_bounds h.data.symm h.base.symm (by
      change length = v.length
      omega) h.position.symm)

theorem sliceFrom_eq_ok_iff {offset : Nat} : w.sliceFrom offset = .ok v ↔
    v.Between w (w.base + offset) (w.base + w.length) := by
  unfold Window.sliceFrom
  constructor
  · intro h
    by_cases hle : offset ≤ w.length
    · rw [if_pos hle, slice_eq_ok_iff] at h
      rwa [show w.base + offset + (w.length - offset) = w.base + w.length by omega] at h
    · rw [if_neg hle] at h
      cases h
  · intro h
    have hlength := h.length
    have hle : offset ≤ w.length := by omega
    rw [if_pos hle, slice_eq_ok_iff,
      show w.base + offset + (w.length - offset) = w.base + w.length by omega]
    exact h

theorem sliceAbsolute_eq_ok_iff {start stop : UInt32} : w.sliceAbsolute start stop = .ok v ↔
    v.Between w start.toNat stop.toNat := by
  have hlt : stop < start ↔ stop.toNat < start.toNat := UInt32.lt_iff_toNat_lt
  rw [Window.sliceAbsolute, guard_eq_ok_iff, guard_eq_ok_iff, slice_eq_ok_iff, hlt]
  constructor
  · rintro ⟨hbase, hstop, h⟩
    have hstart : w.base + (start.toNat - w.base) = start.toNat := by omega
    rwa [hstart, show start.toNat + (stop.toNat - start.toNat) = stop.toNat by omega] at h
  · intro h
    have hlower := h.lower
    have hlength := h.length
    have hstart : w.base + (start.toNat - w.base) = start.toNat := by omega
    rw [hstart, show start.toNat + (stop.toNat - start.toNat) = stop.toNat by omega]
    exact ⟨by omega, by omega, h⟩

/-- There is a part of a window between any two offsets that lie in it in order. -/
theorem exists_between (hlower : w.base ≤ start) (hle : start ≤ stop)
    (hupper : stop ≤ w.base + w.length) : ∃ v : Window, v.Between w start stop := by
  have hinside := w.inside
  have hends : start + (stop - start) = stop := Nat.add_sub_cancel' hle
  exact ⟨⟨w.data, start, stop - start, 0, by omega, Nat.zero_le _⟩, rfl, rfl, hends, rfl, hlower,
    hupper⟩

theorem relative_eq_ok_iff {absolute : UInt32} {position : Nat} :
    w.relative absolute = .ok position ↔ w.base ≤ absolute.toNat ∧
      absolute.toNat ≤ w.base + w.length ∧ position = absolute.toNat - w.base := by
  unfold Window.relative
  by_cases h : w.base ≤ absolute.toNat ∧ absolute.toNat ≤ w.base + w.length
  · rw [if_pos h, Except.ok.injEq]
    constructor
    · rintro rfl
      exact ⟨h.1, h.2, rfl⟩
    · rintro ⟨-, -, rfl⟩
      rfl
  · rw [if_neg h]
    constructor
    · intro hfault
      cases hfault
    · rintro ⟨hlower, hupper, -⟩
      exact absurd ⟨hlower, hupper⟩ h

/-- What is left of a window is the front of what is left of one that starts at the same place of
the buffer and ends no earlier. -/
theorem rest_prefix (hdata : v.data = u.data) (hstart : v.base + v.position = u.base + u.position)
    (hstop : v.base + v.length ≤ u.base + u.length) : v.rest <+: u.rest := by
  have hc := v.cursor
  have hle : v.remaining ≤ u.remaining := by
    simp only [remaining]
    omega
  have htake : v.rest = u.rest.take v.remaining := by
    rw [← u.extract_rest v.remaining hle, ← hdata, ← hstart, v.extract_rest v.remaining le_rfl,
      ← v.length_rest, List.take_length]
  rw [htake]
  exact List.take_prefix ..

end Window
end DartKernel
