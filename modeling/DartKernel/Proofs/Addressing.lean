import DartKernel.Proofs.TrailingTables
import DartKernel.Proofs.WindowRuns
import DartKernel.Window.Machine

namespace DartKernel

namespace Machine

variable {a b limit : UInt64}

theorem toNat_toUInt64 {n : Nat} (h : n < UInt64.size) : n.toUInt64.toNat = n :=
  UInt64.toNat_ofNat_of_lt' h

theorem toNat_add (h : a.toNat + b.toNat < UInt64.size) : (a + b).toNat = a.toNat + b.toNat := by
  rw [UInt64.toNat_add, Nat.mod_eq_of_lt h]

/-- A sum of words that is a word is the word for the sum of the numbers. -/
theorem add_eq_toUInt64 (h : a.toNat + b.toNat < UInt64.size) :
    a + b = (a.toNat + b.toNat).toUInt64 := by
  rw [← UInt64.toNat_inj, toNat_toUInt64 h, toNat_add h]

theorem toNat_mul (h : a.toNat * b.toNat < UInt64.size) : (a * b).toNat = a.toNat * b.toNat := by
  rw [UInt64.toNat_mul, Nat.mod_eq_of_lt h]

theorem toNat_sub (h : b.toNat ≤ a.toNat) : (a - b).toNat = a.toNat - b.toNat :=
  UInt64.toNat_sub_of_le _ _ (UInt64.le_iff_toNat_le.mpr h)

/-- A checked sum below a limit: what is no word is above every limit. -/
theorem filter_sum? (a b limit : UInt64) : (sum? a b).filter (· ≤ limit) =
    if a.toNat + b.toNat ≤ limit.toNat then some (a + b) else none := by
  have hlimit := limit.toNat_lt
  unfold sum?
  by_cases hword : a.toNat + b.toNat < UInt64.size
  · rw [if_pos hword, Option.filter_some]
    simp only [UInt64.le_iff_toNat_le, toNat_add hword, decide_eq_true_eq]
  · have hover : ¬ a.toNat + b.toNat ≤ limit.toNat := by
      simp only [UInt64.size] at hword
      omega
    rw [if_neg hword, if_neg hover, Option.filter_none]

theorem difference?_eq (a b : UInt64) : difference? a b =
    if b.toNat ≤ a.toNat then some (a - b) else none := by
  simp only [difference?, UInt64.le_iff_toNat_le]

theorem unchecked_sum? (h : a.toNat + b.toNat < UInt64.size) :
    unchecked (sum? a b) = .ok (a + b) := by
  rw [sum?, if_pos h, unchecked]

theorem unchecked_difference? (h : b.toNat ≤ a.toNat) :
    unchecked (difference? a b) = .ok (a - b) := by
  rw [difference?_eq, if_pos h, unchecked]

theorem checked_difference? (fault : Fault) (a b : UInt64) :
    checked fault (difference? a b) =
      if b.toNat ≤ a.toNat then .ok (a - b) else .error (.refused fault) := by
  rw [difference?_eq]
  by_cases hle : b.toNat ≤ a.toNat
  · rw [if_pos hle, if_pos hle, checked]
  · rw [if_neg hle, if_neg hle, checked]

theorem unchecked_product? (h : a.toNat * b.toNat < UInt64.size) :
    unchecked (product? a b) = .ok (a * b) := by
  rw [product?, if_pos h, unchecked]

/-- A difference that stops at zero is that of the numbers. -/
theorem toNat_difference?_getD (a b : UInt64) :
    ((difference? a b).getD 0).toNat = a.toNat - b.toNat := by
  rw [difference?_eq]
  by_cases hle : b.toNat ≤ a.toNat
  · rw [if_pos hle, Option.getD_some, toNat_sub hle]
  · rw [if_neg hle, Option.getD_none]
    exact (Nat.sub_eq_zero_of_le (Nat.le_of_not_le hle)).symm

end Machine

namespace Window
open Machine

variable {w : Window}

theorem base_toMachine (hsize : w.data.size < UInt64.size) : w.toMachine.base.toNat = w.base :=
  toNat_toUInt64 (by have := w.inside; omega)

theorem length_toMachine (hsize : w.data.size < UInt64.size) :
    w.toMachine.length.toNat = w.length :=
  toNat_toUInt64 (by have := w.inside; omega)

theorem position_toMachine (hsize : w.data.size < UInt64.size) :
    w.toMachine.position.toNat = w.position :=
  toNat_toUInt64 (by have := w.inside; have := w.cursor; omega)

theorem outOfBounds_toMachine (hsize : w.data.size < UInt64.size) (position wanted : UInt64) :
    w.toMachine.outOfBounds position wanted =
      .refused (w.outOfBounds position.toNat wanted.toNat) := by
  rw [MachineWindow.outOfBounds, length_toMachine hsize, base_toMachine hsize]
  rfl

theorem slice_toMachine (hsize : w.data.size < UInt64.size) (offset length : UInt64) :
    w.toMachine.slice offset length =
      answer Window.toMachine (w.slice offset.toNat length.toNat) := by
  have hinside := w.inside
  have hbase := base_toMachine hsize
  unfold MachineWindow.slice Window.slice
  rw [filter_sum?, length_toMachine hsize]
  by_cases hfits : offset.toNat + length.toNat ≤ w.length
  · have hword : w.toMachine.base.toNat + offset.toNat < UInt64.size := by omega
    rw [if_pos hfits, dif_pos hfits, unchecked_sum? hword, add_eq_toUInt64 hword, hbase]
    simp [answer, Window.toMachine, bind, Except.bind, pure, Except.pure]
  · rw [if_neg hfits, dif_neg hfits, outOfBounds_toMachine hsize]
    rfl

theorem sliceFrom_toMachine (hsize : w.data.size < UInt64.size) (offset : UInt64) :
    w.toMachine.sliceFrom offset = answer Window.toMachine (w.sliceFrom offset.toNat) := by
  have hlength := length_toMachine hsize
  have hlt : w.toMachine.length < offset ↔ w.length < offset.toNat := by
    rw [UInt64.lt_iff_toNat_lt, hlength]
  unfold MachineWindow.sliceFrom Window.sliceFrom
  by_cases hfits : offset.toNat ≤ w.length
  · have hle : offset.toNat ≤ w.toMachine.length.toNat := hlength ▸ hfits
    rw [if_neg (hlt.not.mpr (Nat.not_lt.mpr hfits)), if_pos hfits, unchecked_difference? hle,
      ← hlength, ← toNat_sub hle, ← slice_toMachine hsize]
    rfl
  · rw [if_pos (hlt.mpr (Nat.lt_of_not_le hfits)), if_neg hfits, outOfBounds_toMachine hsize]
    rfl

theorem sliceAbsolute_toMachine (hsize : w.data.size < UInt64.size) (start stop : UInt32) :
    w.toMachine.sliceAbsolute start stop =
      answer Window.toMachine (w.sliceAbsolute start stop) := by
  have hbase := base_toMachine hsize
  have hstart : start.toUInt64.toNat = start.toNat := UInt32.toNat_toUInt64 ..
  have hstop : stop.toUInt64.toNat = stop.toNat := UInt32.toNat_toUInt64 ..
  have hlt : stop.toUInt64 < start.toUInt64 ↔ stop < start := by
    rw [UInt64.lt_iff_toNat_lt, UInt32.lt_iff_toNat_lt, hstart, hstop]
  unfold MachineWindow.sliceAbsolute Window.sliceAbsolute
  rw [difference?_eq start.toUInt64]
  by_cases hlower : w.base ≤ start.toNat
  · have hle : w.toMachine.base.toNat ≤ start.toUInt64.toNat := by rwa [hbase, hstart]
    rw [if_pos hle, if_neg (Nat.not_lt.mpr hlower)]
    dsimp only
    by_cases hreversed : stop < start
    · rw [if_pos (hlt.mpr hreversed), if_pos hreversed]
      rfl
    · have hle' : start.toUInt64.toNat ≤ stop.toUInt64.toNat :=
        UInt64.le_iff_toNat_le.mp (UInt64.not_lt.mp (hlt.not.mpr hreversed))
      rw [if_neg (hlt.not.mpr hreversed), if_neg hreversed, unchecked_difference? hle', ← hstart,
        ← hstop, ← hbase, ← toNat_sub hle, ← toNat_sub hle', ← slice_toMachine hsize]
      rfl
  · have hle : ¬ w.toMachine.base.toNat ≤ start.toUInt64.toNat := by rwa [hbase, hstart]
    rw [if_neg hle, if_pos (Nat.lt_of_not_le hlower)]
    dsimp only
    rw [outOfBounds_toMachine hsize, toNat_difference?_getD, hstart, hstop]
    rfl

theorem relative_toMachine (hsize : w.data.size < UInt64.size) (absolute : UInt32) :
    w.toMachine.relative absolute = answer Nat.toUInt64 (w.relative absolute) := by
  have hbase := base_toMachine hsize
  have habsolute : absolute.toUInt64.toNat = absolute.toNat := UInt32.toNat_toUInt64 ..
  unfold MachineWindow.relative Window.relative
  rw [difference?_eq]
  by_cases hlower : w.base ≤ absolute.toNat
  · have hle : w.toMachine.base.toNat ≤ absolute.toUInt64.toNat := by rwa [hbase, habsolute]
    have hposition : (absolute.toUInt64 - w.toMachine.base).toNat = absolute.toNat - w.base := by
      rw [toNat_sub hle, hbase, habsolute]
    have hupper : absolute.toUInt64 - w.toMachine.base ≤ w.toMachine.length ↔
        absolute.toNat ≤ w.base + w.length := by
      rw [UInt64.le_iff_toNat_le, hposition, length_toMachine hsize]
      omega
    rw [if_pos hle]
    simp only [Option.filter_some, decide_eq_true_eq]
    by_cases hfits : absolute.toNat ≤ w.base + w.length
    · rw [if_pos (hupper.mpr hfits), if_pos ⟨hlower, hfits⟩, ← hposition]
      simp [answer]
    · rw [if_neg (hupper.not.mpr hfits), if_neg (hfits ·.2)]
      dsimp only
      rw [outOfBounds_toMachine hsize, habsolute]
      rfl
  · have hle : ¬ w.toMachine.base.toNat ≤ absolute.toUInt64.toNat := by rwa [hbase, habsolute]
    rw [if_neg hle, if_neg (hlower ·.1), Option.filter_none]
    dsimp only
    rw [outOfBounds_toMachine hsize, habsolute]
    rfl

end Window

namespace Window

variable {w v u : Window}

theorem exists_slice_iff {offset length : Nat} :
    (∃ v, w.slice offset length = .ok v) ↔ offset + length ≤ w.length := by
  simp only [slice_eq_ok_iff]
  constructor
  · rintro ⟨v, hv⟩
    have hupper := hv.upper
    omega
  · intro hfits
    exact exists_between (by omega) (by omega) (by omega)

theorem exists_sliceFrom_iff {offset : Nat} :
    (∃ v, w.sliceFrom offset = .ok v) ↔ offset ≤ w.length := by
  simp only [sliceFrom_eq_ok_iff]
  constructor
  · rintro ⟨v, hv⟩
    have hlength := hv.length
    omega
  · intro hfits
    exact exists_between (by omega) (by omega) (by omega)

theorem exists_sliceAbsolute_iff {start stop : UInt32} :
    (∃ v, w.sliceAbsolute start stop = .ok v) ↔
      w.base ≤ start.toNat ∧ start.toNat ≤ stop.toNat ∧ stop.toNat ≤ w.base + w.length := by
  simp only [sliceAbsolute_eq_ok_iff]
  constructor
  · rintro ⟨v, hv⟩
    have hlength := hv.length
    exact ⟨hv.lower, by omega, hv.upper⟩
  · rintro ⟨hlower, hle, hupper⟩
    exact exists_between hlower hle hupper

/-- Offsets of the file find the same bytes in a part of it as in the whole. -/
theorem sliceAbsolute_whole {start stop : UInt32} (h : w.sliceAbsolute start stop = .ok v) :
    (ofBytes w.data).sliceAbsolute start stop = .ok v := by
  have hv := sliceAbsolute_eq_ok_iff.mp h
  have hupper := hv.upper
  have hinside := w.inside
  refine sliceAbsolute_eq_ok_iff.mpr ⟨hv.data, hv.base, hv.ends, hv.position, Nat.zero_le _, ?_⟩
  change stop.toNat ≤ 0 + w.data.size
  omega

/-- A part of a part is cut out in one go at the sum of the offsets. -/
theorem slice_slice {offset length offset' length' : Nat} (h : w.slice offset length = .ok v)
    (h' : v.slice offset' length' = .ok u) : w.slice (offset + offset') length' = .ok u := by
  have hv := slice_eq_ok_iff.mp h
  have hu := slice_eq_ok_iff.mp h'
  rw [hv.base] at hu
  rw [slice_eq_ok_iff, ← Nat.add_assoc]
  exact hu.trans hv

end Window

namespace MachineScan
open Machine

variable {w : Window} {count : UInt64}

theorem bind_eq (x : MachineScan α) (f : α → MachineScan β) (w : MachineWindow) :
    (x >>= f) w = match x w with
      | .ok a w' => f a w'
      | .error mishap w' => .error mishap w' := by
  change EStateM.bind x f w = _
  unfold EStateM.bind
  cases x w <;> rfl

theorem ensure_toMachine (hsize : w.data.size < UInt64.size) : ensure count w.toMachine =
    if w.position + count.toNat ≤ w.length then .ok () w.toMachine
    else .error (.refused (w.outOfBounds w.position count.toNat)) w.toMachine := by
  unfold ensure
  rw [filter_sum?, Window.position_toMachine hsize, Window.length_toMachine hsize]
  by_cases hfits : w.position + count.toNat ≤ w.length
  · rw [if_pos hfits, if_pos hfits]
  · rw [if_neg hfits, if_neg hfits]
    dsimp only
    rw [Window.outOfBounds_toMachine hsize, Window.position_toMachine hsize]

theorem get_bind (f : MachineWindow → MachineScan α) (w : MachineWindow) :
    ((get : MachineScan MachineWindow) >>= f) w = f w w := rfl

theorem set_bind (s : MachineWindow) (f : PUnit → MachineScan α) (w : MachineWindow) :
    ((set s : MachineScan PUnit) >>= f) w = f () s := rfl

/-- A sum that is a word needs no check. -/
theorem sum_bind {a b : UInt64} (h : a.toNat + b.toNat < UInt64.size) (f : UInt64 → MachineScan α) :
    (ofExcept (unchecked (sum? a b)) >>= f) = f (a + b) := by
  rw [unchecked_sum? h]
  rfl

theorem skip_toMachine (hsize : w.data.size < UInt64.size) :
    skip count w.toMachine = result (Scan.skip count.toNat w) := by
  have hinside := w.inside
  have hposition := Window.position_toMachine hsize
  rw [skip, bind_eq, ensure_toMachine hsize]
  unfold Scan.skip
  by_cases hfits : w.position + count.toNat ≤ w.length
  · have hword : w.toMachine.position.toNat + count.toNat < UInt64.size := by omega
    rw [if_pos hfits, dif_pos hfits]
    dsimp only
    rw [get_bind, sum_bind hword, add_eq_toUInt64 hword, hposition]
    rfl
  · rw [if_neg hfits, dif_neg hfits]
    rfl

theorem bytes_toMachine (hsize : w.data.size < UInt64.size) :
    bytes count w.toMachine = result (Scan.bytes count.toNat w) := by
  have hinside := w.inside
  have hcursor := w.cursor
  have hbase := Window.base_toMachine hsize
  have hposition := Window.position_toMachine hsize
  have hremaining : count.toNat ≤ w.remaining ↔ w.position + count.toNat ≤ w.length := by
    simp only [Window.remaining]
    omega
  rw [bytes, bind_eq, ensure_toMachine hsize, Scan.bytes_eq]
  -- All three sums stop at the end of the buffer at the latest.
  by_cases hfits : w.position + count.toNat ≤ w.length
  · have hfirst : w.toMachine.base.toNat + w.toMachine.position.toNat < UInt64.size := by omega
    have hnext : w.toMachine.position.toNat + count.toNat < UInt64.size := by omega
    have hstart : (w.toMachine.base + w.toMachine.position).toNat = w.base + w.position := by
      rw [toNat_add hfirst, hbase, hposition]
    have hlast : (w.toMachine.base + w.toMachine.position).toNat + count.toNat < UInt64.size := by
      omega
    have hstop : (w.toMachine.base + w.toMachine.position + count).toNat =
        w.base + w.position + count.toNat := by
      rw [toNat_add hlast, hstart]
    have hcontent : (w.toMachine.data.extract (w.base + w.position)
        (w.base + w.position + count.toNat)).data.toList = w.rest.take count.toNat :=
      w.extract_rest count.toNat (hremaining.mpr hfits)
    rw [if_pos hfits, if_pos (hremaining.mpr hfits)]
    dsimp only
    rw [get_bind, sum_bind hfirst, sum_bind hnext, set_bind, sum_bind hlast, hstart, hstop,
      hcontent, add_eq_toUInt64 hnext, hposition]
    change EStateM.Result.ok _ _ = EStateM.Result.ok _ (w.advance count.toNat).toMachine
    simp [Window.toMachine, Window.advance, Nat.min_eq_left hfits]
  · rw [if_neg hfits, if_neg (hremaining.not.mpr hfits)]
    rfl

theorem word_toMachine (hsize : w.data.size < UInt64.size) :
    word w.toMachine = result (Scan.word w) := by
  have hbytes : bytes 4 w.toMachine = result (Scan.bytes 4 w) := bytes_toMachine hsize
  rw [word, bind_eq, hbytes, Scan.word, Scan.bind_eq]
  cases Scan.bytes 4 w <;> rfl

end MachineScan

theorem Window.goto_position (w : Window) : w.goto w.position = w := by
  rw [← Nat.add_zero w.position, ← advance_eq_goto, advance_zero]

namespace Scan

variable {w : Window} {position count : Nat}

theorem many_word_goto (h : position + 4 * count ≤ w.length) : many word count (w.goto position) =
    .ok (w.wordsFrom position count) (w.goto (position + 4 * count)) := by
  induction count generalizing position with
  | zero => rfl
  | succ count ih =>
    rw [many_succ, bind_eq, word_goto (by omega)]
    change (many word count >>= _) (w.goto (position + 4)) = _
    rw [bind_eq, ih (by omega), Window.wordsFrom_succ,
      show position + 4 + 4 * count = position + 4 * (count + 1) by omega]
    rfl

theorem skip_eq_ok_iff {w' : Window} : skip count w = .ok () w' ↔
    w.position + count ≤ w.length ∧ w' = w.goto (w.position + count) := by
  unfold skip
  by_cases hfits : w.position + count ≤ w.length
  · have hgoto : w.goto (w.position + count) =
        { w with position := w.position + count, cursor := hfits } :=
      Window.eq_of_bounds rfl rfl rfl (Nat.min_eq_left hfits)
    rw [dif_pos hfits, hgoto]
    simp [hfits, eq_comm]
  · rw [dif_neg hfits]
    simp [hfits]

theorem bytes_eq_ok_iff {w' : Window} {content : List UInt8} :
    bytes count w = .ok content w' ↔ w.position + count ≤ w.length ∧
      content = w.rest.take count ∧ w' = w.goto (w.position + count) := by
  have hcursor := w.cursor
  have hremaining : count ≤ w.remaining ↔ w.position + count ≤ w.length := by
    simp only [Window.remaining]
    omega
  rw [bytes_eq_ok, hremaining, Window.advance_eq_goto]

/-- Words that are all there, or none of them. -/
theorem words_eq : words count w =
    if w.position + 4 * count ≤ w.length then
      .ok (w.wordsFrom w.position count) (w.goto (w.position + 4 * count))
    else .error (w.outOfBounds w.position (min (4 * count) requestLimit)) w := by
  by_cases hfits : w.position + 4 * count ≤ w.length
  · have hwords := words_goto hfits
    rw [w.goto_position] at hwords
    rw [if_pos hfits, hwords]
  · rw [if_neg hfits, words, if_neg hfits]

/-- Words that are all there are read in one go as they are one by one. -/
theorem words_eq_many {w : Window} {count : Nat} (h : w.position + 4 * count ≤ w.length) :
    words count w = many word count w := by
  have hmany := many_word_goto h
  rw [w.goto_position] at hmany
  rw [words_eq, if_pos h, hmany]

end Scan

namespace MachineScan
open Machine

variable {w : Window}

theorem manyWords_toMachine (hsize : w.data.size < UInt64.size) {position count : Nat}
    (h : position + 4 * count ≤ w.length) : manyWords count (w.goto position).toMachine =
      .ok (w.wordsFrom position count) (w.goto (position + 4 * count)).toMachine := by
  induction count generalizing position with
  | zero => rfl
  | succ count ih =>
    have hword : word (w.goto position).toMachine = result (Scan.word (w.goto position)) :=
      word_toMachine hsize
    rw [manyWords, bind_eq, hword, Scan.word_goto (by omega)]
    change (manyWords count >>= _) (w.goto (position + 4)).toMachine = _
    rw [bind_eq, ih (by omega), Window.wordsFrom_succ,
      show position + 4 + 4 * count = position + 4 * (count + 1) by omega]
    rfl

/-- More bytes than words can count are more than any window has, so they are refused as such. -/
theorem words_toMachine (hsize : w.data.size < UInt64.size) (count : UInt64) :
    words count w.toMachine = result (Scan.words count.toNat w) := by
  have hinside := w.inside
  have htop : top.toNat = Scan.requestLimit := rfl
  have hfour : (4 : UInt64).toNat = 4 := rfl
  rw [words, get_bind, product?, hfour, Scan.words_eq]
  by_cases hword : count.toNat * 4 < UInt64.size
  · have hneeded : (count * 4).toNat = 4 * count.toNat := by
      rw [toNat_mul hword, hfour, Nat.mul_comm]
    have hlimit : min (4 * count.toNat) Scan.requestLimit = 4 * count.toNat :=
      Nat.min_eq_left (by rw [Scan.requestLimit]; omega)
    rw [if_pos hword, hlimit]
    dsimp only
    rw [bind_eq, ensure_toMachine hsize, hneeded]
    by_cases hfits : w.position + 4 * count.toNat ≤ w.length
    · have hmany := manyWords_toMachine hsize hfits
      rw [w.goto_position] at hmany
      rw [if_pos hfits, if_pos hfits]
      exact hmany
    · rw [if_neg hfits, if_neg hfits]
      rfl
  -- A window has fewer bytes than there are words, so a product that is none is out of bounds.
  · have hfits : ¬ w.position + 4 * count.toNat ≤ w.length := by omega
    have hlimit : min (4 * count.toNat) Scan.requestLimit = Scan.requestLimit :=
      Nat.min_eq_right (by rw [Scan.requestLimit]; omega)
    rw [if_neg hword, if_neg hfits, hlimit]
    change EStateM.Result.error (w.toMachine.outOfBounds w.toMachine.position top) w.toMachine = _
    rw [Window.outOfBounds_toMachine hsize, Window.position_toMachine hsize, htop]
    rfl

end MachineScan

namespace Window

/-- The operations succeed exactly when the numbers lie in the window. A part of a part is a part of
the whole, and what the offsets of the file cut out of a part of it, they cut out of the file. -/
structure FitsExactly (w : Window) : Prop where
  slice (offset length : Nat) : (∃ v, w.slice offset length = .ok v) ↔ offset + length ≤ w.length
  sliceFrom (offset : Nat) : (∃ v, w.sliceFrom offset = .ok v) ↔ offset ≤ w.length
  sliceAbsolute (start stop : UInt32) : (∃ v, w.sliceAbsolute start stop = .ok v) ↔
    w.base ≤ start.toNat ∧ start.toNat ≤ stop.toNat ∧ stop.toNat ≤ w.base + w.length
  relative (absolute : UInt32) (position : Nat) : w.relative absolute = .ok position ↔
    w.base ≤ absolute.toNat ∧ absolute.toNat ≤ w.base + w.length ∧
      position = absolute.toNat - w.base
  skip (count : Nat) (w' : Window) : Scan.skip count w = .ok () w' ↔
    w.position + count ≤ w.length ∧ w' = w.goto (w.position + count)
  bytes (count : Nat) (content : List UInt8) (w' : Window) :
    Scan.bytes count w = .ok content w' ↔ w.position + count ≤ w.length ∧
      content = w.rest.take count ∧ w' = w.goto (w.position + count)
  words (count : Nat) :
    (∃ ws w', Scan.words count w = .ok ws w') ↔ w.position + 4 * count ≤ w.length
  wordByWord (count : Nat) : w.position + 4 * count ≤ w.length →
    Scan.words count w = Scan.many Scan.word count w
  nested (offset length offset' length' : Nat) (v u : Window) : w.slice offset length = .ok v →
    v.slice offset' length' = .ok u → w.slice (offset + offset') length' = .ok u
  whole (start stop : UInt32) (v : Window) : w.sliceAbsolute start stop = .ok v →
    v.base = start.toNat ∧ v.length = stop.toNat - start.toNat ∧
      (ofBytes w.data).sliceAbsolute start stop = .ok v

/-- The operations give the same answers in machine words, so no result has wrapped around. -/
structure StaysInWords (w : Window) : Prop where
  slice (offset length : UInt64) : w.toMachine.slice offset length =
    Machine.answer toMachine (w.slice offset.toNat length.toNat)
  sliceFrom (offset : UInt64) :
    w.toMachine.sliceFrom offset = Machine.answer toMachine (w.sliceFrom offset.toNat)
  sliceAbsolute (start stop : UInt32) :
    w.toMachine.sliceAbsolute start stop = Machine.answer toMachine (w.sliceAbsolute start stop)
  relative (absolute : UInt32) :
    w.toMachine.relative absolute = Machine.answer Nat.toUInt64 (w.relative absolute)
  skip (count : UInt64) :
    MachineScan.skip count w.toMachine = Machine.result (Scan.skip count.toNat w)
  bytes (count : UInt64) :
    MachineScan.bytes count w.toMachine = Machine.result (Scan.bytes count.toNat w)
  words (count : UInt64) :
    MachineScan.words count w.toMachine = Machine.result (Scan.words count.toNat w)

theorem fitsExactly (w : Window) : w.FitsExactly where
  slice _ _ := exists_slice_iff
  sliceFrom _ := exists_sliceFrom_iff
  sliceAbsolute _ _ := exists_sliceAbsolute_iff
  relative _ _ := relative_eq_ok_iff
  skip _ _ := Scan.skip_eq_ok_iff
  bytes _ _ _ := Scan.bytes_eq_ok_iff
  words count := by
    rw [Scan.words_eq]
    by_cases hfits : w.position + 4 * count ≤ w.length <;> simp [hfits]
  wordByWord _ := Scan.words_eq_many
  nested _ _ _ _ _ _ := slice_slice
  whole start stop v h := by
    have hv := sliceAbsolute_eq_ok_iff.mp h
    have hlength := hv.length
    exact ⟨hv.base, by omega, sliceAbsolute_whole h⟩

theorem staysInWords {w : Window} (hsize : w.data.size < UInt64.size) : w.StaysInWords where
  slice := slice_toMachine hsize
  sliceFrom := sliceFrom_toMachine hsize
  sliceAbsolute := sliceAbsolute_toMachine hsize
  relative := relative_toMachine hsize
  skip _ := MachineScan.skip_toMachine hsize
  bytes _ := MachineScan.bytes_toMachine hsize
  words := MachineScan.words_toMachine hsize

end Window

namespace WindowPool

/-- However a window was carved and wherever its cursor went, its operations succeed exactly when
their numbers fit, and they find that out without leaving the machine words. -/
theorem addresses_fit {data : ByteArray} {steps : List WindowStep} {i : Nat} {w : Window}
    (hsize : data.size < UInt64.size)
    (hw : ((ofWindow (Window.ofBytes data)).run steps).get? i = some w) :
    w.data = data ∧ w.FitsExactly ∧ w.StaysInWords := by
  have hdata : w.data = data := (ofWindow_over data).run steps w (List.mem_of_getElem? hw)
  exact ⟨hdata, w.fitsExactly, Window.staysInWords (hdata ▸ hsize)⟩

/-- Five bytes out of eight, one of them read. An offset and a length whose sum wraps around to the
start of the window are refused. -/
theorem addresses_fit_wrapping :
    let w : Window := ⟨⟨#[0, 1, 2, 3, 4, 5, 6, 7]⟩, 2, 5, 1, by decide, by decide⟩
    w.FitsExactly ∧ (1 : UInt64) + Machine.top = 0 ∧
      w.toMachine.slice 1 Machine.top = .error (.refused (w.outOfBounds 1 Machine.top.toNat)) := by
  intro w
  obtain ⟨-, hfits, hwords⟩ := @addresses_fit ⟨#[0, 1, 2, 3, 4, 5, 6, 7]⟩
    [.carve 0 (.slice 2 5), .scan 1 (.skip 1)] 1 w (by decide) rfl
  refine ⟨hfits, by decide, ?_⟩
  rw [hwords.slice]
  rfl

end WindowPool
end DartKernel
