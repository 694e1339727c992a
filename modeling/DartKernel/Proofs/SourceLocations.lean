import DartKernel.Proofs.SourceLines
import Mathlib.Data.List.TakeWhile

namespace DartKernel
namespace SourceInfo

variable {info : SourceInfo} {starts : List UInt32} {offset start : UInt32} {next : Nat}

/-- What a binary search for an offset may answer: where one of its occurrences is or, when there is
none, how many line starts are before it. -/
inductive Found (starts : List UInt32) (offset : UInt32) : Except Nat Nat → Prop
  | here {line : Nat} (h : starts[line]? = some offset) : Found starts offset (.ok line)
  | between {next : Nat} (hnext : next ≤ starts.length)
      (hbefore : ∀ s ∈ starts.take next, s < offset)
      (hafter : ∀ s ∈ starts.drop next, offset < s) : Found starts offset (.error next)

def locationIn? (info : SourceInfo) (offset : UInt32) (line : Nat) : Option (UInt32 × UInt32) :=
  info.lineStarts[line]?.map fun start => (line.toUInt32 + 1, offset - start + 1)

def locationBy? (info : SourceInfo) (offset : UInt32) : Except Nat Nat → Option (UInt32 × UInt32)
  | .ok line => info.locationIn? offset line
  | .error 0 => none
  | .error (next + 1) => info.locationIn? offset next

/-- The first line starts of some number are those at or before an offset. -/
structure Splits (starts : List UInt32) (offset : UInt32) (next : Nat) : Prop where
  le_length : next ≤ starts.length
  le : ∀ s ∈ starts.take next, s ≤ offset
  lt : ∀ s ∈ starts.drop next, offset < s

theorem Splits.takeWhile_eq (h : Splits starts offset next) :
    starts.takeWhile (· ≤ offset) = starts.take next := by
  have hafter : (starts.drop next).takeWhile (· ≤ offset) = [] := by
    rw [List.takeWhile_eq_nil_iff]
    intro hpos
    simpa using h.lt _ (List.get_mem _ ⟨0, hpos⟩)
  have hbefore : ∀ s ∈ starts.take next, decide (s ≤ offset) = true := by simpa using h.le
  calc starts.takeWhile (· ≤ offset)
      = (starts.take next ++ starts.drop next).takeWhile (· ≤ offset) := by
        rw [List.take_append_drop]
    _ = starts.take next := by
        rw [List.takeWhile_append_of_pos hbefore, hafter, List.append_nil]

theorem Splits.countP_eq (h : Splits starts offset next) : starts.countP (· ≤ offset) = next := by
  have hbefore : (starts.take next).countP (· ≤ offset) = (starts.take next).length :=
    List.countP_eq_length.mpr (by simpa using h.le)
  have hafter : (starts.drop next).countP (· ≤ offset) = 0 :=
    List.countP_eq_zero.mpr (by simpa using h.lt)
  rw [← List.take_append_drop next starts, List.countP_append, hbefore, hafter, List.length_take,
    Nat.min_eq_left h.le_length, Nat.add_zero]

/-- An offset is located in the last line that starts at or before it. -/
theorem Splits.location?_eq (h : Splits info.lineStarts offset next) :
    info.location? offset = info.locationBy? offset (.error next) := by
  rw [location?, h.takeWhile_eq]
  cases next with
  | zero => rfl
  | succ line =>
    have hline : line < info.lineStarts.length := h.le_length
    have hlast : (info.lineStarts.take (line + 1)).getLast? = info.lineStarts[line]? := by
      simp [List.getLast?_take, List.getElem?_eq_getElem hline]
    have hlength : (info.lineStarts.take (line + 1)).length = line + 1 := by
      rw [List.length_take, Nat.min_eq_left h.le_length]
    rw [hlast, hlength, locationBy?, locationIn?]
    simp

theorem exists_splits (hsorted : starts.Pairwise (· ≤ ·)) : ∃ next, Splits starts offset next := by
  induction starts with
  | nil => exact ⟨0, Nat.le_refl _, nofun, nofun⟩
  | cons first starts ih =>
    obtain ⟨hfirst, hrest⟩ := List.pairwise_cons.mp hsorted
    by_cases hle : first ≤ offset
    · obtain ⟨next, hlength, hbefore, hafter⟩ := ih hrest
      refine ⟨next + 1, Nat.succ_le_succ hlength, ?_, hafter⟩
      rw [List.take_succ_cons]
      exact List.forall_mem_cons.mpr ⟨hle, hbefore⟩
    · have hlt : offset < first := UInt32.not_le.mp hle
      refine ⟨0, Nat.zero_le _, nofun, ?_⟩
      exact List.forall_mem_cons.mpr ⟨hlt, fun s hs => UInt32.lt_of_lt_of_le hlt (hfirst s hs)⟩

/-- Where an offset occurs once, the line starts are split behind it. -/
theorem splits_of_getElem? {line : Nat} (hsorted : starts.Pairwise (· ≤ ·))
    (hcount : starts.count offset ≤ 1) (h : starts[line]? = some offset) :
    Splits starts offset (line + 1) := by
  obtain ⟨hline, hget⟩ := List.getElem?_eq_some_iff.mp h
  have hcut : starts = starts.take line ++ offset :: starts.drop (line + 1) := by
    rw [← hget, ← List.drop_eq_getElem_cons hline, List.take_append_drop]
  have htake : starts.take (line + 1) = starts.take line ++ [offset] := by
    rw [List.take_add_one, h]
    rfl
  rw [hcut] at hsorted hcount
  obtain ⟨-, hback, hbefore⟩ := List.pairwise_append.mp hsorted
  refine ⟨hline, ?_, ?_⟩
  · rw [htake]
    intro s hs
    rcases List.mem_append.mp hs with hs | hs
    · exact hbefore s hs offset (List.mem_cons_self ..)
    · rw [List.mem_singleton.mp hs]
      exact UInt32.le_refl _
  · intro s hs
    have hle : offset ≤ s := (List.pairwise_cons.mp hback).1 s hs
    -- A line start behind this one that is the same would be its second occurrence.
    have hne : offset ≠ s := by
      rintro rfl
      have hpos : 0 < (starts.drop (line + 1)).count offset := List.count_pos_iff.mpr hs
      rw [List.count_append, List.count_cons_self] at hcount
      omega
    exact UInt32.lt_of_le_of_ne hle hne

/-- Whatever a binary search answers for an offset that is not a repeated line start, the offset is
located in the same line and column. -/
theorem Found.location?_eq {answer : Except Nat Nat} (hsorted : info.lineStarts.Pairwise (· ≤ ·))
    (hcount : info.lineStarts.count offset ≤ 1) (h : Found info.lineStarts offset answer) :
    info.locationBy? offset answer = info.location? offset := by
  cases h with
  | here hget => exact (splits_of_getElem? hsorted hcount hget).location?_eq.symm
  | between hnext hbefore hafter =>
    exact (Splits.location?_eq ⟨hnext, fun s hs => UInt32.le_of_lt (hbefore s hs), hafter⟩).symm

theorem exists_found (hsorted : starts.Pairwise (· ≤ ·)) :
    ∃ answer, Found starts offset answer := by
  by_cases hin : offset ∈ starts
  · obtain ⟨line, hline⟩ := List.mem_iff_getElem?.mp hin
    exact ⟨_, .here hline⟩
  · obtain ⟨next, hlength, hbefore, hafter⟩ := @exists_splits _ offset hsorted
    refine ⟨_, .between hlength ?_ hafter⟩
    intro s hs
    have hne : s ≠ offset := fun he => hin (he ▸ List.mem_of_mem_take hs)
    exact UInt32.lt_of_le_of_ne (hbefore s hs) hne

/-- There is no location for what is before the first line. -/
theorem location?_eq_none_iff : info.location? offset = none ↔
    info.lineStarts = [] ∨ ∃ first, info.lineStarts.head? = some first ∧ offset < first := by
  rw [location?, Option.map_eq_none_iff, List.getLast?_eq_none_iff]
  cases info.lineStarts with
  | nil => simp
  | cons first starts =>
    by_cases hle : first ≤ offset
    · simp [hle]
    · simp [hle, UInt32.not_le.mp hle]

/-- A column is how far the offset is from the start of its line, counted from one. There is a word
for this unless the line starts at zero and the offset is the last of all. -/
theorem toNat_column (h : start ≤ offset) :
    if start = 0 ∧ offset.toNat + 1 = UInt32.size then offset - start + 1 = 0
    else 1 ≤ (offset - start + 1).toNat ∧
      start.toNat + ((offset - start + 1).toNat - 1) = offset.toNat := by
  have hle : start.toNat ≤ offset.toNat := h
  have hlt : offset.toNat < UInt32.size := offset.toNat_lt
  have hsize : UInt32.size = 2 ^ 32 := rfl
  have hcolumn : (offset - start + 1).toNat = (offset.toNat - start.toNat + 1) % 2 ^ 32 := by
    rw [UInt32.toNat_add, UInt32.toNat_sub_of_le _ _ h]
    rfl
  split
  case isTrue hlast =>
    obtain ⟨rfl, hlast⟩ := hlast
    have hzero : (0 : UInt32).toNat = 0 := rfl
    apply UInt32.toNat_inj.mp
    rw [hcolumn, hzero, Nat.sub_zero, hlast, hsize, Nat.mod_self]
  case isFalse hnot =>
    -- Only from zero to the last offset is the distance the last word, which has no successor.
    have hfits : offset.toNat - start.toNat + 1 < 2 ^ 32 := by
      by_contra hover
      have hzero : start.toNat = 0 := by omega
      exact hnot ⟨UInt32.toNat_inj.mp hzero, by omega⟩
    rw [hcolumn, Nat.mod_eq_of_lt hfits]
    omega

/-- The location of an offset: its line is the number of line starts at or before it. -/
theorem Splits.of_location? {line column : UInt32} (h : Splits info.lineStarts offset next)
    (hlength : info.lineStarts.length < UInt32.size)
    (hlocation : info.location? offset = some (line, column)) :
    line.toNat = next ∧ ∃ start, info.lineStarts[line.toNat - 1]? = some start ∧ start ≤ offset ∧
      column = offset - start + 1 := by
  rw [h.location?_eq] at hlocation
  cases next with
  | zero => cases hlocation
  | succ before =>
    obtain ⟨start, hstart, heq⟩ := Option.map_eq_some_iff.mp hlocation
    obtain ⟨rfl, rfl⟩ := Prod.mk.inj heq
    have hword : before.toUInt32 + 1 = (before + 1).toUInt32 := by simp
    have hline : (before.toUInt32 + 1).toNat = before + 1 := by
      rw [hword]
      exact UInt32.toNat_ofNat_of_lt' (h.le_length.trans_lt hlength)
    have hget : (info.lineStarts.take (before + 1))[before]? = some start := by
      rw [List.getElem?_take_of_lt (Nat.lt_succ_self _), hstart]
    have hmem : start ∈ info.lineStarts.take (before + 1) := List.mem_of_getElem? hget
    refine ⟨hline, start, ?_, h.le start hmem, rfl⟩
    rw [hline, Nat.add_sub_cancel, hstart]

/-- Locations of what was read, for offsets that are not repeated line starts. They are the same
whatever a binary search answers. There is none before the first line; the line of any other offset
is the number of line starts at or before it, and its column is the exact distance from the last of
them, counted from one. Only the last offset of all has no such column when its line starts at zero,
and gets zero. -/
theorem location_exact {w m : Window} (hrun : SourceInfo.decoder.run w = .ok info m)
    (hcount : info.lineStarts.count offset ≤ 1) :
    (∃ answer, Found info.lineStarts offset answer) ∧
    (∀ answer, Found info.lineStarts offset answer →
      info.locationBy? offset answer = info.location? offset) ∧
    (info.location? offset = none ↔
      info.lineStarts = [] ∨ ∃ first, info.lineStarts.head? = some first ∧ offset < first) ∧
    ∀ line column, info.location? offset = some (line, column) →
      line.toNat = info.lineStarts.countP (· ≤ offset) ∧
      ∃ start, info.lineStarts[line.toNat - 1]? = some start ∧ start ≤ offset ∧
        if start = 0 ∧ offset.toNat + 1 = UInt32.size then column = 0
        else 1 ≤ column.toNat ∧ start.toNat + (column.toNat - 1) = offset.toNat := by
  have hinfo := info.fits_iff.mp (fits_of_run hrun)
  refine ⟨exists_found hinfo.sorted, fun answer h => h.location?_eq hinfo.sorted hcount,
    location?_eq_none_iff, ?_⟩
  intro line column hlocation
  obtain ⟨next, hsplits⟩ := @exists_splits _ offset hinfo.sorted
  have hlength : info.lineStarts.length < UInt32.size := hinfo.count.trans (by decide)
  obtain ⟨hline, start, hstart, hle, rfl⟩ := hsplits.of_location? hlength hlocation
  exact ⟨hline.trans hsplits.countP_eq.symm, start, hstart, hle, toNat_column hle⟩

/-- The second of three lines. -/
theorem location_exact_second :
    SourceInfo.decoder.run.value (.ofBytes ⟨#[0, 0, 3, 0, 10, 15]⟩) = .ok ⟨"", "", [0, 10, 25]⟩ ∧
    SourceInfo.location? ⟨"", "", [0, 10, 25]⟩ 12 = some (2, 3) ∧
    ∃ start : UInt32, [0, 10, 25][(2 : UInt32).toNat - 1]? = some start ∧
      start.toNat + ((3 : UInt32).toNat - 1) = (12 : UInt32).toNat := by
  have hvalue : SourceInfo.decoder.run.value (.ofBytes ⟨#[0, 0, 3, 0, 10, 15]⟩) =
      .ok ⟨"", "", [0, 10, 25]⟩ := by decide +kernel
  have hlocated : SourceInfo.location? ⟨"", "", [0, 10, 25]⟩ 12 = some (2, 3) := by decide
  obtain ⟨m, hrun⟩ := Scan.value_eq_ok.mp hvalue
  obtain ⟨-, -, -, hlocation⟩ := @location_exact _ 12 _ _ hrun (by decide)
  obtain ⟨-, start, hstart, -, hcolumn⟩ := hlocation 2 3 hlocated
  have hlast : ¬((12 : UInt32).toNat + 1 = UInt32.size) := by decide
  rw [if_neg fun h => hlast h.2] at hcolumn
  exact ⟨hvalue, hlocated, start, hstart, hcolumn.2⟩

/-- Columns do not always count from one: the last offset of all gets none in a line from zero. -/
theorem not_column_exact :
    ¬ ∀ (w m : Window) info offset, SourceInfo.decoder.run w = .ok info m →
      info.lineStarts.count offset ≤ 1 →
      ∀ line column, info.location? offset = some (line, column) →
      ∃ start, info.lineStarts[line.toNat - 1]? = some start ∧ 1 ≤ column.toNat ∧
        start.toNat + (column.toNat - 1) = offset.toNat := by
  intro hexact
  have hvalue : SourceInfo.decoder.run.value (.ofBytes ⟨#[0, 0, 1, 0]⟩) = .ok ⟨"", "", [0]⟩ := by
    decide +kernel
  obtain ⟨m, hrun⟩ := Scan.value_eq_ok.mp hvalue
  obtain ⟨start, -, hcolumn, -⟩ := hexact _ m _ 0xFFFFFFFF hrun (by decide) 1 0 (by decide)
  exact absurd hcolumn (by decide)

end SourceInfo
end DartKernel
