import DartKernel.Component.Machine
import DartKernel.Proofs.Addressing

namespace DartKernel

namespace Window

variable {w v : Window} {offset : Nat}

theorem bytes_sliceFrom (h : w.sliceFrom offset = .ok v) : v.bytes = w.bytes.drop offset := by
  have hbetween := sliceFrom_eq_ok_iff.mp h
  have hbase := hbetween.base
  have hlength := hbetween.length
  have hbytes := hbetween.carvedFrom.bytes
  rw [hbase, Nat.add_sub_cancel_left] at hbytes
  rw [hbytes, List.take_of_length_le]
  rw [List.length_drop, w.length_bytes]
  omega

theorem data_sliceFrom (h : w.sliceFrom offset = .ok v) : v.data = w.data :=
  (sliceFrom_eq_ok_iff.mp h).data

theorem length_sliceFrom (h : w.sliceFrom offset = .ok v) : v.length = w.length - offset := by
  have hlength := (sliceFrom_eq_ok_iff.mp h).length
  omega

theorem wordAt_sliceFrom (h : w.sliceFrom offset = .ok v) (position : Nat) :
    v.wordAt position = w.wordAt (offset + position) := by
  rw [wordAt, wordAt, bytes_sliceFrom h, List.drop_drop]

theorem wordsFrom_sliceFrom (h : w.sliceFrom offset = .ok v) (position count : Nat) :
    v.wordsFrom position count = w.wordsFrom (offset + position) count := by
  simp only [wordsFrom, wordAt_sliceFrom h, Nat.add_assoc]

/-- A carved window is read from its start. -/
theorem goto_sliceFrom (h : w.sliceFrom offset = .ok v) : v.goto 0 = v := by
  have hposition := (sliceFrom_eq_ok_iff.mp h).position
  rw [← hposition, goto_position]

end Window

namespace Scan

variable {w : Window} {position : Nat}

theorem bind_word_goto (h : position + 4 ≤ w.length) (f : UInt32 → Scan α) :
    (word >>= f) (w.goto position) = f (w.wordAt position) (w.goto (position + 4)) := by
  rw [bind_eq, word_goto h]

theorem bind_words_goto {count : Nat} (h : position + 4 * count ≤ w.length)
    (f : List UInt32 → Scan α) : (words count >>= f) (w.goto position) =
      f (w.wordsFrom position count) (w.goto (position + 4 * count)) := by
  rw [bind_eq, words_goto h]

end Scan

namespace Directory
open Decoder

variable {file v : Window} {libraryCount fileSize : UInt32} {it : Directory}

/-- The directory whose words begin at a position of a file. -/
def standingAt (file : Window) (start : Nat) (libraryCount fileSize : UInt32) : Directory where
  sourceTable := file.wordAt start
  canonicalNames := file.wordAt (start + 4)
  metadataPayloads := file.wordAt (start + 8)
  metadataMappings := file.wordAt (start + 12)
  stringTable := file.wordAt (start + 16)
  constantTable := file.wordAt (start + 20)
  mainMethod := ⟨file.wordAt (start + 24)⟩
  libraryOffsets := file.wordsFrom (start + 28) (libraryCount.toNat + 1)
  libraryCount
  fileSize

def scanCheck (word : RedundantWord) (expected : UInt32) : Scan Unit := do
  let found ← Scan.word
  if found ≠ expected then throw (.integrity word expected found)

def scan (libraryCount fileSize : UInt32) : Scan Directory := do
  let sourceTable ← Scan.word
  let canonicalNames ← Scan.word
  let metadataPayloads ← Scan.word
  let metadataMappings ← Scan.word
  let stringTable ← Scan.word
  let constantTable ← Scan.word
  let mainMethod ← Scan.word
  let libraryOffsets ← Scan.words (libraryCount.toNat + 1)
  scanCheck .libraryCount libraryCount
  scanCheck .fileSize fileSize
  return {
    sourceTable, canonicalNames, metadataPayloads, metadataMappings, stringTable, constantTable,
    mainMethod := ⟨mainMethod⟩, libraryOffsets, libraryCount, fileSize }

theorem run_check (word : RedundantWord) (expected : UInt32) :
    TableDecoder.run (check word expected) = scanCheck word expected := by
  rw [TableDecoder.run, check, run_bind, run_word, scanCheck]
  congr 1
  funext found
  by_cases hfound : found ≠ expected
  · rw [if_pos hfound, if_pos hfound]
    rfl
  · rw [if_neg hfound, if_neg hfound]
    rfl

theorem run_decoder (libraryCount fileSize : UInt32) :
    TableDecoder.run (decoder libraryCount fileSize) = scan libraryCount fileSize := by
  have hcount := libraryCount.toNat_lt
  have hwords : 4 * (libraryCount.toNat + 1) < UInt64.size := by
    simp only [UInt64.size]
    omega
  simp only [scan, ← run_check]
  simp only [decoder, TableDecoder.run, run_bind, run_word, run_words hwords]
  rfl

theorem bind_scanCheck_goto {word : RedundantWord} {expected : UInt32} {position : Nat}
    (h : position + 4 ≤ v.length) (next : Unit → Scan α) :
    (scanCheck word expected >>= next) (v.goto position) =
      if v.wordAt position ≠ expected then
        .error (.integrity word expected (v.wordAt position)) (v.goto (position + 4))
      else next () (v.goto (position + 4)) := by
  rw [scanCheck, bind_assoc, Scan.bind_word_goto h]
  by_cases hfound : v.wordAt position ≠ expected
  · rw [if_pos hfound, if_pos hfound]
    rfl
  · rw [if_neg hfound, if_neg hfound]
    rfl

/-- With room for all of its words, a directory is what they say, unless a second copy differs. -/
theorem value_scan (hroom : size libraryCount ≤ v.length) :
    (scan libraryCount fileSize).value (v.goto 0) =
      if v.wordAt (size libraryCount - 8) ≠ libraryCount then
        .error (.integrity .libraryCount libraryCount (v.wordAt (size libraryCount - 8)))
      else if v.wordAt (size libraryCount - 4) ≠ fileSize then
        .error (.integrity .fileSize fileSize (v.wordAt (size libraryCount - 4)))
      else .ok (standingAt v 0 libraryCount fileSize) := by
  have hcount : 28 + 4 * (libraryCount.toNat + 1) = size libraryCount - 8 := by
    simp only [size]
    omega
  have hlast : size libraryCount - 8 + 4 = size libraryCount - 4 := by omega
  have hend : size libraryCount - 4 + 4 ≤ v.length := by
    simp only [size] at *
    omega
  rw [Scan.value, scan]
  simp (disch := omega) only [Scan.bind_word_goto, Scan.bind_words_goto, Nat.reduceAdd, hcount,
    bind_scanCheck_goto, hlast]
  by_cases hfirst : v.wordAt (size libraryCount - 8) ≠ libraryCount
  · rw [if_pos hfirst, if_pos hfirst]
  · rw [if_neg hfirst, if_neg hfirst]
    by_cases hsecond : v.wordAt (size libraryCount - 4) ≠ fileSize
    · rw [if_pos hsecond, if_pos hsecond]
    · rw [if_neg hsecond, if_neg hsecond]
      simp only [standingAt, Nat.zero_add]
      rfl

/-- A directory takes up all of its words. -/
theorem size_le_of_scan {w' : Window} (h : scan libraryCount fileSize v = .ok it w') :
    size libraryCount ≤ v.remaining := by
  rw [← run_decoder] at h
  obtain ⟨n, -, -, hreads⟩ := Decoder.run_ok h
  rw [Decoder.Laid.reads_iff, TableLayout.directory, Layout.reading_append] at hreads
  obtain ⟨_, hrequire, hwords⟩ := hreads
  obtain ⟨⟨hcount, -, hlength⟩, rfl⟩ := (Layout.reading_require ..).mp hrequire
  have hrest := (Layout.reading_words ..).mp hwords
  have hremaining := v.length_rest
  rw [hrest, List.length_append, length_wordsBytes, TableLayout.directoryWords] at hremaining
  simp only [List.length_append, List.length_cons, List.length_nil, hlength] at hremaining
  rw [size]
  omega

def lastCount (file : Window) : UInt32 := file.wordAt (file.length - 8)

def lastSize (file : Window) : UInt32 := file.wordAt (file.length - 4)

def start (file : Window) : Nat := (lastSize file).toNat - size (lastCount file)

theorem ofFile_eq_ite (file : Window) : ofFile file =
    if file.length < 8 then .error (.format (.noTrailer file.length))
    else if (lastSize file).toNat < size (lastCount file) then
      .error (.format (.directoryTooLarge (lastSize file) (lastCount file)))
    else file.sliceFrom (start file) >>= (scan (lastCount file) (lastSize file)).value := by
  unfold ofFile
  by_cases hshort : file.length < 8
  · rw [if_pos hshort]
    simp only [if_pos hshort]
    rfl
  · have hlast : file.length - 8 + 4 = file.length - 4 := by omega
    have htrailer : file.wordsAt? (file.length - 8) 2 = some [lastCount file, lastSize file] := by
      rw [Window.wordsAt?_eq, if_pos (by omega), Window.wordsFrom_succ, Window.wordsFrom_succ,
        hlast]
      rfl
    rw [if_neg hshort]
    simp only [if_neg hshort, htrailer, run_decoder]
    rfl

/-- The last two words of a file leave room for a directory that ends inside the file. -/
structure Fits (file : Window) : Prop where
  trailer : 8 ≤ file.length
  lower : size (lastCount file) ≤ (lastSize file).toNat
  upper : (lastSize file).toNat ≤ file.length

theorem eight_le_size (libraryCount : UInt32) : 8 ≤ size libraryCount := by
  rw [size]
  omega

/-- A directory that ends inside the file is judged by its last two words. -/
theorem ofFile_of_fits (h : Fits file) : ofFile file =
      if file.wordAt ((lastSize file).toNat - 8) ≠ lastCount file then
        .error (.integrity .libraryCount (lastCount file)
          (file.wordAt ((lastSize file).toNat - 8)))
      else if file.wordAt ((lastSize file).toNat - 4) ≠ lastSize file then
        .error (.integrity .fileSize (lastSize file) (file.wordAt ((lastSize file).toNat - 4)))
      else .ok (standingAt file (start file) (lastCount file) (lastSize file)) := by
  obtain ⟨htrailer, hlower, hupper⟩ := h
  have hstart : start file = (lastSize file).toNat - size (lastCount file) := rfl
  have hsize := eight_le_size (lastCount file)
  have hfirst : start file + (size (lastCount file) - 8) = (lastSize file).toNat - 8 := by omega
  have hsecond : start file + (size (lastCount file) - 4) = (lastSize file).toNat - 4 := by omega
  obtain ⟨v, hv⟩ : ∃ v, file.sliceFrom (start file) = .ok v :=
    Window.exists_sliceFrom_iff.mpr (by omega)
  have hlength := Window.length_sliceFrom hv
  have hroom : size (lastCount file) ≤ v.length := by omega
  have hvalue := @value_scan v (lastCount file) (lastSize file) hroom
  have hstanding : standingAt v 0 (lastCount file) (lastSize file) =
      standingAt file (start file) (lastCount file) (lastSize file) := by
    simp only [standingAt, Window.wordAt_sliceFrom hv, Window.wordsFrom_sliceFrom hv, Nat.zero_add,
      Nat.add_zero]
  rw [Window.goto_sliceFrom hv, Window.wordAt_sliceFrom hv, Window.wordAt_sliceFrom hv, hfirst,
    hsecond, hstanding] at hvalue
  rw [ofFile_eq_ite, if_neg (by omega), if_neg (by omega), hv]
  exact hvalue

/-- Behind the end of the file there are no words to read. -/
theorem fits_of_ofFile (h : ofFile file = .ok it) : Fits file := by
  rw [ofFile_eq_ite, guard_eq_ok_iff, guard_eq_ok_iff, bind_eq_ok] at h
  obtain ⟨hshort, hlarge, v, hv, hvalue⟩ := h
  obtain ⟨w', hscan⟩ := Scan.value_eq_ok.mp hvalue
  have hroom := size_le_of_scan hscan
  have hlength := Window.length_sliceFrom hv
  have hstart : start file = (lastSize file).toNat - size (lastCount file) := rfl
  have hsize := eight_le_size (lastCount file)
  rw [Window.remaining] at hroom
  exact ⟨by omega, by omega, by omega⟩

theorem ofFile_eq_ok_iff : ofFile file = .ok it ↔ Fits file ∧
    file.wordAt ((lastSize file).toNat - 8) = lastCount file ∧
    file.wordAt ((lastSize file).toNat - 4) = lastSize file ∧
    it = standingAt file (start file) (lastCount file) (lastSize file) := by
  constructor
  · intro h
    have hfits := fits_of_ofFile h
    rw [ofFile_of_fits hfits, guard_eq_ok_iff, guard_eq_ok_iff] at h
    obtain ⟨hfirst, hsecond, hit⟩ := h
    cases hit
    exact ⟨hfits, not_not.mp hfirst, not_not.mp hsecond, rfl⟩
  · rintro ⟨hfits, hfirst, hsecond, rfl⟩
    rw [ofFile_of_fits hfits, if_neg (not_not.mpr hfirst), if_neg (not_not.mpr hsecond)]

/-- Every library has a range when there is one offset more than there are libraries. -/
theorem isSome_libraryRange?
    (h : it.libraryOffsets.length = it.libraryCount.toNat + 1) (i : Nat) :
    (it.libraryRange? i).isSome ↔ i < it.libraryCount.toNat := by
  unfold libraryRange?
  by_cases hi : i < it.libraryCount.toNat
  · have hstart : i < it.libraryOffsets.length := by omega
    have hstop : i + 1 < it.libraryOffsets.length := by omega
    simp [hi, hstart, hstop]
  · have hstop : it.libraryOffsets.length ≤ i + 1 := by omega
    simp [hi, hstop]

end Directory

namespace MachineScan
open Machine

/-- The scan in machine words answers as the one on numbers does, on every window of a buffer whose
bytes a word can count, and both leave the cursor at the same place. -/
structure Mirrors (machine : MachineScan α) (scan : Scan α) : Prop where
  moves : scan.MovesCursor
  same (w : Window) : w.data.size < UInt64.size → machine w.toMachine = result (scan w)

theorem pure_mirrors (a : α) : (pure a : MachineScan α).Mirrors (pure a) where
  moves := Scan.pure_movesCursor a
  same _ _ := rfl

theorem throw_mirrors (fault : Fault) :
    (throw (.refused fault) : MachineScan α).Mirrors (throw fault) where
  moves := Scan.throw_movesCursor fault
  same _ _ := rfl

theorem word_mirrors : word.Mirrors Scan.word where
  moves := (Scan.bytes_movesCursor 4).bind fun _ => Scan.pure_movesCursor _
  same _ := word_toMachine

theorem words_mirrors (count : UInt64) : (words count).Mirrors (Scan.words count.toNat) where
  moves := (Scan.words_reads _).movesCursor (Scan.words_stays _)
  same _ hsize := words_toMachine hsize count

/-- One after the other, since the first leaves the buffer as it is. -/
theorem Mirrors.bind {machine : MachineScan α} {scan : Scan α} {machineNext : α → MachineScan β}
    {next : α → Scan β} (h : machine.Mirrors scan) (hnext : ∀ a, (machineNext a).Mirrors (next a)) :
    (machine >>= machineNext).Mirrors (scan >>= next) where
  moves := h.moves.bind fun a => (hnext a).moves
  same w hsize := by
    have hmoved := h.moves w
    rw [bind_eq, Scan.bind_eq, h.same w hsize]
    unfold Scan.after at hmoved
    cases hscan : scan w with
    | ok a m =>
      rw [hscan] at hmoved
      have hdata : m.data.size < UInt64.size := hmoved.data ▸ hsize
      exact (hnext a).same m hdata
    | error fault m => rfl

theorem Mirrors.value {machine : MachineScan α} {scan : Scan α} (h : machine.Mirrors scan)
    {w : Window} (hsize : w.data.size < UInt64.size) :
    machine.value w.toMachine = answer id (scan.value w) := by
  rw [MachineScan.value, h.same w hsize, Scan.value]
  cases scan w <;> rfl

theorem check_mirrors (word : RedundantWord) (expected : UInt32) :
    (check word expected).Mirrors (Directory.scanCheck word expected) := by
  apply word_mirrors.bind
  intro found
  by_cases hfound : found ≠ expected
  · rw [if_pos hfound, if_pos hfound]
    exact throw_mirrors _
  · rw [if_neg hfound, if_neg hfound]
    exact pure_mirrors _

theorem trailer_mirrors : trailer.Mirrors (do return (← Scan.word, ← Scan.word)) :=
  word_mirrors.bind fun _ => word_mirrors.bind fun _ => pure_mirrors _

/-- One more than a number of 32 bits is a word. -/
theorem directory_mirrors (libraryCount fileSize : UInt32) :
    (directory libraryCount fileSize).Mirrors (Directory.scan libraryCount fileSize) := by
  have hcount := libraryCount.toNat_lt
  have hone : libraryCount.toUInt64.toNat + (1 : UInt64).toNat = libraryCount.toNat + 1 := by
    rw [UInt32.toNat_toUInt64]
    rfl
  have hword : libraryCount.toUInt64.toNat + (1 : UInt64).toNat < UInt64.size := by
    simp only [UInt64.size]
    omega
  have hoffsets : (libraryCount.toUInt64 + 1).toNat = libraryCount.toNat + 1 := by
    rw [toNat_add hword, hone]
  have hwords := words_mirrors (libraryCount.toUInt64 + 1)
  rw [hoffsets] at hwords
  apply word_mirrors.bind
  intro sourceTable
  apply word_mirrors.bind
  intro canonicalNames
  apply word_mirrors.bind
  intro metadataPayloads
  apply word_mirrors.bind
  intro metadataMappings
  apply word_mirrors.bind
  intro stringTable
  apply word_mirrors.bind
  intro constantTable
  apply word_mirrors.bind
  intro mainMethod
  rw [sum_bind hword]
  apply hwords.bind
  intro libraryOffsets
  exact (check_mirrors ..).bind fun _ => (check_mirrors ..).bind fun _ => pure_mirrors _

end MachineScan

namespace Directory
open Machine

variable {file : Window}

/-- Four times ten more than a number of 32 bits is a word. -/
theorem exists_directorySize_eq (libraryCount : UInt32) :
    ∃ bytes, MachineWindow.directorySize libraryCount = .ok bytes ∧
      bytes.toNat = size libraryCount := by
  have hcount := libraryCount.toNat_lt
  have hten : (10 : UInt64).toNat = 10 := rfl
  have hfour : (4 : UInt64).toNat = 4 := rfl
  have hsum : libraryCount.toUInt64.toNat + (10 : UInt64).toNat < UInt64.size := by
    rw [UInt32.toNat_toUInt64, hten, UInt64.size]
    omega
  have hwords : (libraryCount.toUInt64 + 10).toNat = libraryCount.toNat + 10 := by
    rw [toNat_add hsum, UInt32.toNat_toUInt64, hten]
  have hproduct : (libraryCount.toUInt64 + 10).toNat * (4 : UInt64).toNat < UInt64.size := by
    rw [hwords, hfour, UInt64.size]
    omega
  refine ⟨(libraryCount.toUInt64 + 10) * 4, ?_, ?_⟩
  · rw [MachineWindow.directorySize, unchecked_sum? hsum]
    exact unchecked_product? hproduct
  · rw [toNat_mul hproduct, hwords, hfour, size]

/-- The last two words are read one after the other. -/
theorem value_trailer {v : Window} (htrailer : 8 ≤ file.length)
    (hv : file.sliceFrom (file.length - 8) = .ok v) :
    Scan.value (do return (← Scan.word, ← Scan.word)) v = .ok (lastCount file, lastSize file) := by
  have hlength := Window.length_sliceFrom hv
  have hlast : file.length - 8 + 4 = file.length - 4 := by omega
  rw [← Window.goto_sliceFrom hv, Scan.value, Scan.bind_word_goto (by omega),
    Scan.bind_word_goto (by omega), Window.wordAt_sliceFrom hv, Window.wordAt_sliceFrom hv,
    Nat.add_zero, Nat.zero_add, hlast]
  rfl

theorem directory_toMachine (hsize : file.data.size < UInt64.size) :
    file.toMachine.directory = answer id (ofFile file) := by
  have hlength := Window.length_toMachine hsize
  have height : (8 : UInt64).toNat = 8 := rfl
  unfold MachineWindow.directory
  rw [ofFile_eq_ite, checked_difference?, hlength, height]
  by_cases hshort : file.length < 8
  · rw [if_neg (by omega), if_pos hshort]
    rfl
  have htrailer : 8 ≤ file.length := by omega
  have hoffset : (file.toMachine.length - 8).toNat = file.length - 8 := by
    rw [toNat_sub (by rw [hlength, height]; exact htrailer), hlength, height]
  obtain ⟨v, hv⟩ : ∃ v, file.sliceFrom (file.length - 8) = .ok v :=
    Window.exists_sliceFrom_iff.mpr (Nat.sub_le ..)
  have hmachine : file.toMachine.sliceFrom (file.toMachine.length - 8) = .ok v.toMachine := by
    rw [Window.sliceFrom_toMachine hsize, hoffset, hv]
    rfl
  have hwords : MachineScan.trailer.value v.toMachine = .ok (lastCount file, lastSize file) := by
    have hdata := Window.data_sliceFrom hv ▸ hsize
    rw [MachineScan.trailer_mirrors.value hdata, value_trailer htrailer hv]
    rfl
  obtain ⟨bytes, hbytes, hbytesNat⟩ := exists_directorySize_eq (lastCount file)
  have hlastSize : (lastSize file).toUInt64.toNat = (lastSize file).toNat :=
    UInt32.toNat_toUInt64 _
  rw [if_pos htrailer, if_neg hshort, ok_bind, hmachine, ok_bind, hwords, ok_bind]
  dsimp only
  rw [hbytes, ok_bind, checked_difference?, hbytesNat, hlastSize]
  by_cases hlarge : (lastSize file).toNat < size (lastCount file)
  · rw [if_neg (by omega), if_pos hlarge]
    rfl
  have hstart : ((lastSize file).toUInt64 - bytes).toNat = start file := by
    rw [toNat_sub (by omega), hbytesNat, hlastSize, start]
  rw [if_pos (by omega), if_neg hlarge, ok_bind, Window.sliceFrom_toMachine hsize, hstart]
  cases hdirectory : file.sliceFrom (start file) with
  | error fault => rfl
  | ok w =>
    have hdata := Window.data_sliceFrom hdirectory ▸ hsize
    exact (MachineScan.directory_mirrors ..).value hdata

/-- Whatever its bytes, a file has a directory exactly when its last two words give a number of
libraries and a size, a directory for that many libraries ends at that size inside the file, and
the two words stand at the end of this directory too. What it says is then in the words from its
start on, with a range for each library. When only the second copies differ, the fault names the
first that does. None of the sums, products and differences on the way leaves the machine words. -/
theorem ofFile_trailer (file : Window) :
    let count := file.wordAt (file.length - 8)
    let fileSize := file.wordAt (file.length - 4)
    let start := fileSize.toNat - (count.toNat + 10) * 4
    let found := file.wordAt (fileSize.toNat - 8)
    let found' := file.wordAt (fileSize.toNat - 4)
    ((∃ it, ofFile file = .ok it) ↔
      8 ≤ file.length ∧ (count.toNat + 10) * 4 ≤ fileSize.toNat ∧ fileSize.toNat ≤ file.length ∧
        found = count ∧ found' = fileSize) ∧
    (∀ it, ofFile file = .ok it → it = standingAt file start count fileSize ∧
      it.libraryOffsets.length = it.libraryCount.toNat + 1 ∧
      ∀ i, (it.libraryRange? i).isSome ↔ i < it.libraryCount.toNat) ∧
    (8 ≤ file.length → (count.toNat + 10) * 4 ≤ fileSize.toNat → fileSize.toNat ≤ file.length →
      (found ≠ count → ofFile file = .error (.integrity .libraryCount count found)) ∧
      (found = count → found' ≠ fileSize →
        ofFile file = .error (.integrity .fileSize fileSize found'))) ∧
    (file.data.size < UInt64.size → file.toMachine.directory = answer id (ofFile file)) := by
  intro count fileSize start found found'
  have hiff (it : Directory) : ofFile file = .ok it ↔ Fits file ∧ found = count ∧
      found' = fileSize ∧ it = standingAt file start count fileSize := ofFile_eq_ok_iff
  refine ⟨?_, ?_, ?_, fun hsize => directory_toMachine hsize⟩
  · constructor
    · rintro ⟨it, hit⟩
      obtain ⟨⟨htrailer, hlower, hupper⟩, hfirst, hsecond, -⟩ := (hiff it).mp hit
      exact ⟨htrailer, hlower, hupper, hfirst, hsecond⟩
    · rintro ⟨htrailer, hlower, hupper, hfirst, hsecond⟩
      exact ⟨_, (hiff _).mpr ⟨⟨htrailer, hlower, hupper⟩, hfirst, hsecond, rfl⟩⟩
  · intro it hit
    obtain ⟨-, -, -, rfl⟩ := (hiff it).mp hit
    have hlength : (standingAt file start count fileSize).libraryOffsets.length =
        count.toNat + 1 := Window.length_wordsFrom
    exact ⟨rfl, hlength, isSome_libraryRange? hlength⟩
  · intro htrailer hlower hupper
    have hwords : ofFile file = if found ≠ count then
          .error (.integrity .libraryCount count found)
        else if found' ≠ fileSize then .error (.integrity .fileSize fileSize found')
        else .ok (standingAt file start count fileSize) :=
      ofFile_of_fits ⟨htrailer, hlower, hupper⟩
    constructor
    · intro hfirst
      rw [hwords, if_pos hfirst]
    · intro hfirst hsecond
      rw [hwords, if_neg (not_not.mpr hfirst), if_pos hsecond]

/-- No library, and a file that goes on behind its directory with the same two words once more. -/
theorem ofFile_trailer_repeated :
    let file := Window.ofBytes ⟨(wordsBytes [1, 2, 3, 4, 5, 6, 7, 40, 0, 40, 0, 40]).toArray⟩
    let it : Directory := ⟨1, 2, 3, 4, 5, 6, ⟨7⟩, [40], 0, 40⟩
    file.data.size < UInt64.size ∧ ofFile file = .ok it ∧ file.toMachine.directory = .ok it := by
  intro file it
  have hsize : file.data.size < UInt64.size := by decide +kernel
  obtain ⟨hiff, hwords, -, hmachine⟩ := ofFile_trailer file
  obtain ⟨found, hfound⟩ := hiff.mpr (by decide +kernel)
  have hit : ofFile file = .ok it := by
    rw [hfound, (hwords found hfound).1]
    decide +kernel
  refine ⟨hsize, hit, ?_⟩
  rw [hmachine hsize, hit]
  rfl

end Directory
end DartKernel
