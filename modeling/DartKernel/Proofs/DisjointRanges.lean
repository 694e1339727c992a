import DartKernel.Proofs.Confinement
import DartKernel.Proofs.DirectoryTrailer
import DartKernel.Proofs.Extent
import DartKernel.Proofs.PartialLoading

namespace DartKernel

namespace LibraryIndex

variable {offsets : List UInt32} {i j position : Nat} {start stop : UInt32}

def Covers (offsets : List UInt32) (i position : Nat) : Prop :=
  ∃ start stop, range? offsets i = some (start, stop) ∧
    start.toNat ≤ position ∧ position < stop.toNat

theorem range?_eq_some_iff : range? offsets i = some (start, stop) ↔
    offsets[i]? = some start ∧ offsets[i + 1]? = some stop := by
  simp [range?, Option.bind_eq_some_iff]

/-- Offsets ascend when every range between two of them does. -/
theorem pairwise_of_ranges (h : ∀ i, i + 1 < offsets.length → ∃ start stop,
    range? offsets i = some (start, stop) ∧ start < stop) : offsets.Pairwise (· < ·) := by
  rw [← List.isChain_iff_pairwise, List.isChain_iff_getElem]
  intro i hi
  obtain ⟨start, stop, hrange, hlt⟩ := h i hi
  obtain ⟨hstart, hstop⟩ := range?_eq_some_iff.mp hrange
  obtain ⟨_, rfl⟩ := List.getElem?_eq_some_iff.mp hstart
  obtain ⟨_, rfl⟩ := List.getElem?_eq_some_iff.mp hstop
  exact hlt

/-- An earlier range ends before a later one starts. -/
theorem not_covers_of_lt (h : offsets.Pairwise (· < ·)) (hij : i < j)
    (hi : Covers offsets i position) : ¬ Covers offsets j position := by
  rintro ⟨start', stop', hj, hstart', -⟩
  obtain ⟨start, stop, hi, -, hstop⟩ := hi
  obtain ⟨hlt, rfl⟩ := List.getElem?_eq_some_iff.mp (range?_eq_some_iff.mp hi).2
  obtain ⟨hlt', rfl⟩ := List.getElem?_eq_some_iff.mp (range?_eq_some_iff.mp hj).1
  have hle : offsets[i + 1] ≤ offsets[j] := by
    rcases Nat.eq_or_lt_of_le hij with rfl | hlt
    · exact UInt32.le_refl _
    · exact UInt32.le_of_lt (List.pairwise_iff_getElem.mp h _ _ _ _ hlt)
  rw [UInt32.le_iff_toNat_le] at hle
  omega

/-- No position lies in two of the ranges. -/
theorem covers_unique (h : offsets.Pairwise (· < ·)) (hi : Covers offsets i position)
    (hj : Covers offsets j position) : i = j := by
  rcases Nat.lt_trichotomy i j with hij | hij | hij
  · exact absurd hj (not_covers_of_lt h hij hi)
  · exact hij
  · exact absurd hi (not_covers_of_lt h hij hj)

/-- A window with an index has two offsets and two numbers at its end, and neither list is empty. -/
theorem length_of_ofWindow {w : Window} {index : LibraryIndex} (h : ofWindow w = .ok index) :
    16 ≤ w.length ∧ index.classOffsets ≠ [] ∧ index.procedureOffsets ≠ [] := by
  obtain ⟨-, -, hroom, hprocedures, hclasses⟩ := (ofWindow_eq_ok_iff_words index).mp h
  rw [hprocedures, hclasses]
  exact ⟨by omega, Window.wordsFrom_ne_nil, Window.wordsFrom_ne_nil⟩

end LibraryIndex

/-- A decoder that starts with a byte moves on, inside its window. -/
theorem Decoder.position_lt_of_run {σ : Type} {Tree : σ → Type} {g : Grammar Tree}
    {next : UInt8 → Decoder Tree α} {w w' : Window} {a : α}
    (h : run g (ask .byte next) w = .ok a w') :
    w.position < w'.position ∧ w'.position ≤ w.length := by
  rw [run_ask] at h
  obtain ⟨b, m, hb, hnext⟩ := Scan.bind_ok h
  obtain ⟨rfl, hrest⟩ := Scan.byte_ok hb
  obtain ⟨n, -, rfl, -⟩ := run_ok hnext
  have hlen := congrArg List.length hrest
  rw [w.length_rest, List.length_cons, Window.remaining] at hlen
  rw [Window.advance_advance, Window.advance]
  exact ⟨Nat.lt_min.mpr ⟨by omega, by omega⟩, Nat.min_le_right ..⟩

theorem Class.length_pos_of_value {c : Conventions} {w : Window} {it : Class}
    (h : (scan c).value w = .ok it) : 0 < w.length := by
  obtain ⟨w', h⟩ := Scan.value_eq_ok.mp h
  obtain ⟨body, m, hbody, -⟩ := Scan.bind_ok h
  obtain ⟨hlt, hle⟩ := Decoder.position_lt_of_run hbody
  exact Nat.zero_lt_of_lt (hlt.trans_le hle)

theorem NodeDecoder.length_pos_of_procedure {c : Conventions} {w : Window} {it : Procedure}
    (h : ((procedure c).scan c).value w = .ok it) : 0 < w.length := by
  obtain ⟨w', h⟩ := Scan.value_eq_ok.mp h
  obtain ⟨hlt, hle⟩ := Decoder.position_lt_of_run h
  exact Nat.zero_lt_of_lt (hlt.trans_le hle)

/-- The declarations of one kind in the window of a library: each of them fills the part of the
window between its offset and the next one, and no byte is in two of them. -/
structure LibraryIndex.Tiles (offsets : List UInt32) (w : Window) (scan : Scan α)
    (declarations : List α) : Prop where
  length : offsets.length = declarations.length + 1
  ascend : offsets.Pairwise (· < ·)
  read : ∀ i (hi : i < declarations.length), ∃ start stop v,
    range? offsets i = some (start, stop) ∧ v.Between w start.toNat stop.toNat ∧
      scan.value v = .ok declarations[i]
  disjoint : ∀ i j position, Covers offsets i position → Covers offsets j position → i = j

namespace Library

variable {c : Conventions} {w : Window} {offsets : List UInt32}

/-- Declarations that are read one by one at their offsets, and that take a byte at least. -/
theorem tiles_of_mapM {scan : Scan α} {declarations : List α} {missing : Nat → Fault}
    (hne : offsets ≠ []) (hpos : ∀ v a, scan.value v = .ok a → 0 < v.length)
    (h : (List.range (offsets.length - 1)).mapM (fun i =>
      declarationAt w (LibraryIndex.range? offsets i) (missing i) scan) = .ok declarations) :
    LibraryIndex.Tiles offsets w scan declarations := by
  obtain ⟨hcount, hat⟩ := mapM_range_eq_ok.mp h
  have hlength : offsets.length = declarations.length + 1 := by
    have := List.length_pos_iff.mpr hne
    omega
  have hread (i : Nat) (hi : i < declarations.length) : ∃ start stop v,
      LibraryIndex.range? offsets i = some (start, stop) ∧
        v.Between w start.toNat stop.toNat ∧ scan.value v = .ok declarations[i] := by
    obtain ⟨start, stop, v, hrange, hv, hvalue⟩ := declarationAt_eq_ok_iff.mp (hat i hi)
    exact ⟨start, stop, v, hrange, Window.sliceAbsolute_eq_ok_iff.mp hv, hvalue⟩
  have hascend : offsets.Pairwise (· < ·) := by
    apply LibraryIndex.pairwise_of_ranges
    intro i hi
    obtain ⟨start, stop, v, hrange, hv, hvalue⟩ := hread i (by omega)
    refine ⟨start, stop, hrange, ?_⟩
    have := hpos v _ hvalue
    have := hv.length
    rw [UInt32.lt_iff_toNat_lt]
    omega
  exact ⟨hlength, hascend, hread, fun i j position => LibraryIndex.covers_unique hascend⟩

/-- What holds of the offsets of a library that is read in a window. -/
structure Tiled (it : Library) (c : Conventions) (w : Window) : Prop where
  classes : LibraryIndex.Tiles it.index.classOffsets w (Class.scan c) it.classes
  procedures : LibraryIndex.Tiles it.index.procedureOffsets w ((NodeDecoder.procedure c).scan c)
    it.procedures
  fields : w.base ≤ it.index.fieldsStart.toNat ∧ it.index.fieldsStart.toNat ≤ w.base + w.length

theorem tiled_of_value {it : Library} (h : (scan c).value w = .ok it) :
    16 ≤ w.length ∧ it.Tiled c w := by
  obtain ⟨hindex, -, hclasses, ⟨start, hstart, -⟩, hprocedures⟩ := value_scan_iff.mp h
  obtain ⟨hlen, hne, hne'⟩ := LibraryIndex.length_of_ofWindow hindex
  obtain ⟨hlower, hupper, -⟩ := Window.relative_eq_ok_iff.mp hstart
  exact ⟨hlen, tiles_of_mapM hne (fun _ _ => Class.length_pos_of_value) hclasses,
    tiles_of_mapM hne' (fun _ _ => NodeDecoder.length_pos_of_procedure) hprocedures, hlower, hupper⟩

end Library

theorem Directory.length_libraryOffsets {file : Window} {directory : Directory}
    (h : ofFile file = .ok directory) :
    directory.libraryOffsets.length = directory.libraryCount.toNat + 1 := by
  obtain ⟨-, -, -, rfl⟩ := ofFile_eq_ok_iff.mp h
  exact Window.length_wordsFrom

theorem View.directory_openFile {content : ByteArray} {options : DecodeOptions} {view : View}
    (h : openFile content options = .ok view) :
    Directory.ofFile (Window.ofBytes content) = .ok view.directory := by
  unfold openFile at h
  simp only [bind_eq_ok] at h
  obtain ⟨_, -, _, hdirectory, _, -, _, -, _, -, _, -, _, -, _, -, h⟩ := h
  cases h
  exact hdirectory

/-- The window of a library is the part of the file between its offset and the next one. -/
theorem View.libraryWindow_eq_ok {view : View} {i : Nat} {w : Window}
    (h : view.libraryWindow i = .ok w) : ∃ start stop,
      view.directory.libraryRange? i = some (start, stop) ∧
        w.Between view.file start.toNat stop.toNat := by
  unfold libraryWindow at h
  cases hrange : view.directory.libraryRange? i with
  | none =>
    rw [hrange] at h
    cases h
  | some range =>
    rw [hrange] at h
    exact ⟨range.1, range.2, rfl, Window.sliceAbsolute_eq_ok_iff.mp h⟩

namespace Component

/-- What holds of the offsets of a component that is read from a file: each library lies between
its offset and the next one, with its declarations inside, and no byte is in two libraries. -/
structure Tiled (component : Component) (content : ByteArray) : Prop where
  count : component.libraries.length = component.directory.libraryCount.toNat
  length : component.directory.libraryOffsets.length = component.libraries.length + 1
  library : ∀ i (hi : i < component.libraries.length), ∃ start stop w,
    component.directory.libraryRange? i = some (start, stop) ∧
      start.toNat + 16 ≤ stop.toNat ∧ stop.toNat ≤ content.size ∧
      w.Between (Window.ofBytes content) start.toNat stop.toNat ∧
      (Library.scan component.session.conventions).value w = .ok component.libraries[i] ∧
      component.libraries[i].Tiled component.session.conventions w
  disjoint : ∀ i j position, LibraryIndex.Covers component.directory.libraryOffsets i position →
    LibraryIndex.Covers component.directory.libraryOffsets j position → i = j

/-- In a component that could be read, ranges between offsets are in order and apart: those of its
libraries in the file, and those of the classes and of the procedures in each library. -/
theorem ranges_disjoint {content : ByteArray} {options : DecodeOptions} {component : Component}
    (h : load content options = .ok component) : component.Tiled content := by
  obtain ⟨view, hopen, hview⟩ := bind_eq_ok.mp h
  have hmatches := ofView_matches hview
  have hcount : component.libraries.length = component.directory.libraryCount.toNat := by
    rw [hmatches.libraryCount, hmatches.directory]
    rfl
  have hlength : component.directory.libraryOffsets.length = component.libraries.length + 1 := by
    rw [hcount, hmatches.directory]
    exact Directory.length_libraryOffsets (View.directory_openFile hopen)
  have hlibrary (i : Nat) (hi : i < component.libraries.length) : ∃ start stop w,
      component.directory.libraryRange? i = some (start, stop) ∧
        start.toNat + 16 ≤ stop.toNat ∧ stop.toNat ≤ content.size ∧
        w.Between (Window.ofBytes content) start.toNat stop.toNat ∧
        (Library.scan component.session.conventions).value w = .ok component.libraries[i] ∧
        component.libraries[i].Tiled component.session.conventions w := by
    obtain ⟨w, hw, hvalue⟩ := bind_eq_ok.mp (hmatches.library i hi)
    obtain ⟨start, stop, hrange, hbetween⟩ := View.libraryWindow_eq_ok hw
    rw [View.file_openFile hopen] at hbetween
    rw [hmatches.directory, hmatches.session]
    obtain ⟨hlen, htiled⟩ := Library.tiled_of_value hvalue
    have hlength := hbetween.length
    have hupper : stop.toNat ≤ 0 + content.size := hbetween.upper
    exact ⟨start, stop, w, hrange, by omega, by omega, hbetween, hvalue, htiled⟩
  have hascend : component.directory.libraryOffsets.Pairwise (· < ·) := by
    apply LibraryIndex.pairwise_of_ranges
    intro i hi
    obtain ⟨start, stop, -, hrange, hle, -⟩ := hlibrary i (by omega)
    refine ⟨start, stop, hrange, ?_⟩
    rw [UInt32.lt_iff_toNat_lt]
    omega
  exact ⟨hcount, hlength, hlibrary, fun i j position => LibraryIndex.covers_unique hascend⟩

/-- A library without names, from the given offset of a file on: two classes, no field, and two
procedures. -/
def twinLibrary (start : UInt32) : List UInt8 :=
  List.replicate 9 0 ++ Tag.classes :: List.replicate 16 0 ++ Tag.classes :: List.replicate 16 0
    ++ [0] ++ Tag.procedure :: List.replicate 12 0 ++ Tag.procedure :: List.replicate 12 0
    ++ wordsBytes [start + 9, start + 26, start + 43, 2, start + 44, start + 57, start + 70, 2]

def twinFile : ByteArray :=
  ⟨(wordsBytes [Header.magic, 16, 0] ++ [0] ++ twinLibrary 13 ++ twinLibrary 115 ++ [1, 0, 0]
    ++ wordsBytes [8, 219, 217, 217, 217, 12, 0, 13, 115, 217, 2, 268]).toArray⟩

theorem ranges_disjoint_twin : ∃ component, load twinFile {} = .ok component ∧
    component.libraries.map (·.index.classOffsets) = [[22, 39, 56], [124, 141, 158]] ∧
    component.Tiled twinFile := by
  have hfile : (load twinFile {}).toOption.any (fun component =>
      component.libraries.map (·.index.classOffsets) = [[22, 39, 56], [124, 141, 158]]) = true := by
    decide +kernel
  simp only [toOption_any_iff, decide_eq_true_eq] at hfile
  obtain ⟨component, hload, hoffsets⟩ := hfile
  exact ⟨component, hload, hoffsets, ranges_disjoint hload⟩

end Component
end DartKernel
