import DartKernel.Component.Machine
import DartKernel.Proofs.DisjointRanges
import DartKernel.Proofs.NodeFaults

namespace DartKernel

/-- The answer is not that a table has no such entry. -/
def SparesTable (table : Table) (answer : Except Fault α) : Prop :=
  ∀ number size, answer ≠ .error (.invalidReference table number size)

variable {table : Table}

theorem SparesTable.ok (a : α) : SparesTable table (.ok a) := nofun

theorem SparesTable.bind {x : Except Fault α} {f : α → Except Fault β} (hx : SparesTable table x)
    (hf : ∀ a, x = .ok a → SparesTable table (f a)) : SparesTable table (x >>= f) := by
  cases x with
  | ok a => exact hf a rfl
  | error fault =>
    intro number size h
    cases h
    exact hx number size rfl

theorem SparesTable.mapM {f : α → Except Fault β} {xs : List α}
    (h : ∀ x ∈ xs, SparesTable table (f x)) : SparesTable table (xs.mapM f) := by
  induction xs with
  | nil => exact SparesTable.ok []
  | cons x xs ih =>
    rw [List.mapM_cons]
    apply (h x (List.mem_cons_self ..)).bind
    intro y _
    apply (ih fun z hz => h z (List.mem_cons_of_mem _ hz)).bind
    intro ys _
    exact SparesTable.ok (y :: ys)

namespace Window

theorem slice_spares (w : Window) (offset length : Nat) :
    SparesTable table (w.slice offset length) := by
  unfold slice
  by_cases h : offset + length ≤ w.length
  · rw [dif_pos h]
    exact SparesTable.ok _
  · rw [dif_neg h]
    exact nofun

theorem sliceAbsolute_spares (w : Window) (start stop : UInt32) :
    SparesTable table (w.sliceAbsolute start stop) := by
  unfold sliceAbsolute
  by_cases hlower : start.toNat < w.base
  · rw [if_pos hlower]
    exact nofun
  rw [if_neg hlower]
  by_cases hreversed : stop < start
  · rw [if_pos hreversed]
    exact nofun
  · rw [if_neg hreversed]
    exact slice_spares w _ _

theorem relative_spares (w : Window) (absolute : UInt32) :
    SparesTable table (w.relative absolute) := by
  unfold relative
  by_cases h : w.base ≤ absolute.toNat ∧ absolute.toNat ≤ w.base + w.length
  · rw [if_pos h]
    exact SparesTable.ok _
  · rw [if_neg h]
    exact nofun

end Window

theorem LibraryIndex.ofWindow_spares (w : Window) : SparesTable table (ofWindow w) := by
  intro number size h
  cases ofWindow_eq_error h

namespace Scan

def Spares (table : Table) (scan : Scan α) : Prop := ∀ w, SparesTable table (scan.value w)

theorem Spares.bind {x : Scan α} {f : α → Scan β} (hx : x.Spares table)
    (hf : ∀ a, (f a).Spares table) : (x >>= f).Spares table := by
  intro w
  have hw := hx w
  unfold value at hw ⊢
  rw [bind_eq]
  cases h : x w with
  | ok a m => exact hf a m
  | error fault m =>
    rw [h] at hw
    intro number size hfault
    cases hfault
    exact hw number size rfl

theorem pure_spares (a : α) : (pure a : Scan α).Spares table := fun _ => SparesTable.ok a

theorem get_spares : (get : Scan Window).Spares table := fun w => SparesTable.ok w

theorem ofExcept_spares {x : Except Fault α} (h : SparesTable table x) :
    (ofExcept x).Spares table := by
  intro w
  cases x with
  | ok a => exact SparesTable.ok a
  | error fault => exact h

theorem seek_spares (position : Nat) : (seek position).Spares table := by
  intro w
  unfold value seek
  by_cases h : position ≤ w.length
  · rw [dif_pos h]
    exact SparesTable.ok ()
  · rw [dif_neg h]
    exact nofun

end Scan

namespace NodeDecoder

instance {size : Nat} : libraryHead.Truthful size := by
  unfold libraryHead
  infer_instance

instance {session : Session} :
    (classBody session.conventions).Truthful session.strings.size := by
  unfold classBody
  infer_instance

/-- The only table that nodes refer to as they are read is that of the strings. -/
theorem scan_spares {session : Session} {decoder : NodeDecoder α}
    [decoder.Truthful session.strings.size] (htable : table ≠ .string) :
    (decoder.scan session.conventions).Spares table := by
  intro w number size h
  unfold Scan.value at h
  cases hscan : decoder.scan session.conventions w with
  | ok a m =>
    rw [hscan] at h
    cases h
  | error fault m =>
    rw [hscan] at h
    cases h
    obtain ⟨⟨blame, hblame⟩, -⟩ := Blame.exists_holds hscan
    have hsome := hblame.blame?_eq
    cases table with
    | string => exact htable rfl
    | _ => cases hsome

end NodeDecoder

theorem Class.scanProcedureIndex_spares (count : Nat) :
    (scanProcedureIndex count).Spares table := by
  intro w number size h
  rw [Scan.value, scanProcedureIndex_eq] at h
  split_ifs at h <;> cases h

variable {session : Session}

theorem Class.scan_spares (htable : table ≠ .string) :
    (scan session.conventions).Spares table :=
  (NodeDecoder.scan_spares htable).bind fun _ =>
    (scanProcedureIndex_spares _).bind fun _ => Scan.pure_spares _

/-- The answer to a request for the `n`th entry of a table that holds `size`. It is that there is no
such entry exactly when there is none, and gives as much of `n` as 32 bits hold. -/
def RefusedBeyond (table : Table) (n size : Nat) (answer : Except Fault α) : Prop :=
  ∀ number held, answer = .error (.invalidReference table number held) ↔
    size ≤ n ∧ number.toNat = n % UInt32.size ∧ held = size

theorem refusedBeyond_of {n size : Nat} {answer : Except Fault α}
    (hbeyond : size ≤ n → answer = .error (.invalidReference table n.toUInt32 size))
    (hthere : n < size → SparesTable table answer) : RefusedBeyond table n size answer := by
  intro number held
  have hnumber : number.toNat = n % UInt32.size ↔ n.toUInt32 = number := by
    rw [← UInt32.toNat_inj, eq_comm]
    rfl
  rw [hnumber]
  constructor
  · intro h
    rcases Nat.lt_or_ge n size with hlt | hle
    · exact absurd h (hthere hlt number held)
    · rw [hbeyond hle] at h
      cases h
      exact ⟨hle, rfl, rfl⟩
  · rintro ⟨hle, rfl, rfl⟩
    exact hbeyond hle

namespace LibraryIndex

variable {offsets : List UInt32} {j : Nat}

theorem range?_ne_none (h : j < offsets.length - 1) : range? offsets j ≠ none := by
  have hrange : range? offsets j = some (offsets[j], offsets[j + 1]) := range?_eq_some_iff.mpr
    ⟨List.getElem?_eq_getElem (by omega), List.getElem?_eq_getElem (by omega)⟩
  rw [hrange]
  exact nofun

theorem range?_eq_none (h : offsets.length ≤ j + 1) : range? offsets j = none := by
  cases hrange : range? offsets j with
  | none => rfl
  | some range =>
    have hnext := (range?_eq_some_iff.mp hrange).2
    rw [List.getElem?_eq_none h] at hnext
    cases hnext

/-- The number of offsets stands in a word of 32 bits. -/
theorem length_lt_of_ofWindow {w : Window} {index : LibraryIndex} (h : ofWindow w = .ok index) :
    index.classOffsets.length < UInt64.size ∧ index.procedureOffsets.length < UInt64.size := by
  obtain ⟨-, -, -, hprocedures, hclasses⟩ := (ofWindow_eq_ok_iff_words index).mp h
  have hprocedure := (w.wordAt (w.length - 4)).toNat_lt
  have hclass := (w.wordAt (startBefore w w.length - 4)).toNat_lt
  rw [hprocedures, hclasses, Window.length_wordsFrom, Window.length_wordsFrom, numberBefore,
    numberBefore, UInt64.size]
  omega

end LibraryIndex

namespace Library

variable {w : Window} {offsets : List UInt32} {index : LibraryIndex} {j : Nat}

/-- A declaration is refused for having no range, or for what its window or its reader finds. -/
theorem declarationAt_spares {range? : Option (UInt32 × UInt32)} {missing : Fault} {scan : Scan α}
    (hscan : scan.Spares table)
    (hmissing : range? = none → ∀ number size, missing ≠ .invalidReference table number size) :
    SparesTable table (declarationAt w range? missing scan) := by
  cases range? with
  | none =>
    intro number size h
    cases h
    exact hmissing rfl number size rfl
  | some range => exact (w.sliceAbsolute_spares range.1 range.2).bind fun v _ => hscan v

/-- With one offset more than there are declarations, those without a range are those behind the
last one. -/
theorem declarationAt_refusedBeyond {scan : Scan α} (hne : offsets ≠ [])
    (hscan : scan.Spares table) :
    RefusedBeyond table j (offsets.length - 1)
      (declarationAt w (LibraryIndex.range? offsets j)
        (.invalidReference table j.toUInt32 (offsets.length - 1)) scan) := by
  apply refusedBeyond_of
  · intro hle
    have := List.length_pos_iff.mpr hne
    rw [LibraryIndex.range?_eq_none (by omega)]
    rfl
  · intro hlt
    exact declarationAt_spares hscan fun hrange => absurd hrange (LibraryIndex.range?_ne_none hlt)

theorem classAt_spares (htable : table ≠ .string) (hj : table = .classes → j < index.classCount) :
    SparesTable table (classAt session.conventions w index j) := by
  apply declarationAt_spares (Class.scan_spares htable)
  intro hrange number size h
  cases h
  exact LibraryIndex.range?_ne_none (hj rfl) hrange

theorem procedureAt_spares (htable : table ≠ .string)
    (hj : table = .procedure → j < index.procedureCount) :
    SparesTable table (procedureAt session.conventions w index j) := by
  apply declarationAt_spares (NodeDecoder.scan_spares htable)
  intro hrange number size h
  cases h
  exact LibraryIndex.range?_ne_none (hj rfl) hrange

/-- Reading a whole library asks only for declarations that its index has. -/
theorem scan_spares (htable : table ≠ .string) :
    (Library.scan session.conventions).Spares table := by
  apply Scan.get_spares.bind
  intro w
  apply (Scan.ofExcept_spares (LibraryIndex.ofWindow_spares w)).bind
  intro index
  apply (Scan.seek_spares 0).bind
  intro _
  apply (NodeDecoder.scan_spares htable).bind
  intro head
  apply Scan.get_spares.bind
  intro w
  have hclasses : SparesTable table
      ((List.range index.classCount).mapM (classAt session.conventions w index)) :=
    SparesTable.mapM fun i hi => classAt_spares htable fun _ => List.mem_range.mp hi
  apply (Scan.ofExcept_spares hclasses).bind
  intro classes
  apply (Scan.ofExcept_spares (w.relative_spares index.fieldsStart)).bind
  intro start
  apply (Scan.seek_spares start).bind
  intro _
  apply (NodeDecoder.scan_spares htable).bind
  intro fields
  apply Scan.get_spares.bind
  intro w
  have hprocedures : SparesTable table
      ((List.range index.procedureCount).mapM (procedureAt session.conventions w index)) :=
    SparesTable.mapM fun i hi => procedureAt_spares htable fun _ => List.mem_range.mp hi
  apply (Scan.ofExcept_spares hprocedures).bind
  intro procedures
  exact Scan.pure_spares _

end Library

namespace Machine

variable {offsets : List UInt32}

/-- Behind an offset that is there, the next index is no larger than the number of offsets. -/
theorem rangeAt_eq (hlength : offsets.length < UInt64.size) (index : UInt64) :
    rangeAt offsets index = .ok (LibraryIndex.range? offsets index.toNat) := by
  have hone : (1 : UInt64).toNat = 1 := rfl
  unfold rangeAt LibraryIndex.range?
  cases hstart : offsets[index.toNat]? with
  | none => rfl
  | some start =>
    obtain ⟨hlt, -⟩ := List.getElem?_eq_some_iff.mp hstart
    have hword : index.toNat + (1 : UInt64).toNat < UInt64.size := by omega
    rw [unchecked_sum? hword]
    dsimp only
    rw [ok_bind, toNat_add hword, hone]
    cases offsets[index.toNat + 1]? <;> rfl

theorem rangeCount_eq (hne : offsets ≠ []) (hlength : offsets.length < UInt64.size) :
    UInt64.toNat <$> rangeCount offsets = .ok (offsets.length - 1) := by
  have hone : (1 : UInt64).toNat = 1 := rfl
  have hpos := List.length_pos_iff.mpr hne
  have hcount := toNat_toUInt64 hlength
  have hle : (1 : UInt64).toNat ≤ offsets.length.toUInt64.toNat := by omega
  rw [rangeCount, unchecked_difference? hle]
  change Except.ok (offsets.length.toUInt64 - 1).toNat = _
  rw [toNat_sub hle, hcount, hone]

end Machine

namespace View

variable {content : ByteArray} {options : DecodeOptions} {view : View} {i j : Nat}
  {index : LibraryIndex}

theorem length_libraryOffsets (hopen : openFile content options = .ok view) :
    view.directory.libraryOffsets.length = view.libraryCount + 1 :=
  Directory.length_libraryOffsets (directory_openFile hopen)

theorem length_libraryOffsets_lt (hopen : openFile content options = .ok view) :
    view.directory.libraryOffsets.length < UInt64.size := by
  have hword := view.directory.libraryCount.toNat_lt
  rw [length_libraryOffsets hopen, libraryCount, UInt64.size]
  omega

theorem libraryWindow_refused (hopen : openFile content options = .ok view)
    (hi : view.libraryCount ≤ i) :
    view.libraryWindow i = .error (.invalidReference .library i.toUInt32 view.libraryCount) := by
  have hlength := length_libraryOffsets hopen
  have hrange : view.directory.libraryRange? i = none :=
    LibraryIndex.range?_eq_none (by omega)
  rw [libraryWindow, hrange]

theorem libraryWindow_spares (hopen : openFile content options = .ok view)
    (hi : i < view.libraryCount) : SparesTable table (view.libraryWindow i) := by
  have hlength := length_libraryOffsets hopen
  unfold libraryWindow
  cases hrange : view.directory.libraryRange? i with
  | none => exact absurd hrange (LibraryIndex.range?_ne_none (by omega))
  | some range => exact view.file.sliceAbsolute_spares range.1 range.2

/-- Whatever is done in the window of a library, there has to be one. -/
theorem refusedBeyond_libraries (hopen : openFile content options = .ok view)
    {f : Window → Except Fault α} (hf : ∀ w, SparesTable .library (f w)) :
    RefusedBeyond .library i view.libraryCount (view.libraryWindow i >>= f) := by
  apply refusedBeyond_of
  · intro hi
    rw [libraryWindow_refused hopen hi]
    rfl
  · intro hi
    exact (libraryWindow_spares hopen hi).bind fun w _ => hf w

theorem lt_libraryCount (hopen : openFile content options = .ok view)
    (hindex : view.libraryIndex i = .ok index) : i < view.libraryCount := by
  by_contra hi
  rw [libraryIndex, libraryWindow_refused hopen (Nat.le_of_not_lt hi)] at hindex
  cases hindex

/-- Behind an index that is read there is the window it is read from. -/
theorem libraryWindow_of_index (hindex : view.libraryIndex i = .ok index) :
    ∃ w, LibraryIndex.ofWindow w = .ok index ∧
      (∀ j, view.classAt i j = Library.classAt view.session.conventions w index j) ∧
      ∀ j, view.procedureAt i j = Library.procedureAt view.session.conventions w index j := by
  obtain ⟨w, hw, hofWindow⟩ := bind_eq_ok.mp hindex
  refine ⟨w, hofWindow, fun j => ?_, fun j => ?_⟩
  · rw [classAt, hw, ok_bind, hofWindow, ok_bind]
  · rw [procedureAt, hw, ok_bind, hofWindow, ok_bind]

theorem refusedBeyond_classes (hindex : view.libraryIndex i = .ok index) :
    RefusedBeyond .classes j index.classCount (view.classAt i j) := by
  obtain ⟨w, hofWindow, hclass, -⟩ := libraryWindow_of_index hindex
  obtain ⟨-, hne, -⟩ := LibraryIndex.length_of_ofWindow hofWindow
  rw [hclass]
  exact Library.declarationAt_refusedBeyond hne (Class.scan_spares nofun)

theorem refusedBeyond_procedures (hindex : view.libraryIndex i = .ok index) :
    RefusedBeyond .procedure j index.procedureCount (view.procedureAt i j) := by
  obtain ⟨w, hofWindow, -, hprocedure⟩ := libraryWindow_of_index hindex
  obtain ⟨-, -, hne⟩ := LibraryIndex.length_of_ofWindow hofWindow
  rw [hprocedure]
  exact Library.declarationAt_refusedBeyond hne (NodeDecoder.scan_spares nofun)

/-- A view refuses requests for libraries, classes and procedures by their number exactly when there
is none of that number, and blames no table but that of the strings for one that is there. Machine
words are enough for looking the numbers up. -/
theorem requests_refused (hopen : openFile content options = .ok view) :
    (∀ i, RefusedBeyond .library i view.libraryCount (view.library i) ∧
      RefusedBeyond .library i view.libraryCount (view.libraryIndex i) ∧
      ∀ j, RefusedBeyond .library i view.libraryCount (view.classAt i j) ∧
        RefusedBeyond .library i view.libraryCount (view.procedureAt i j)) ∧
    (∀ i index, view.libraryIndex i = .ok index → i < view.libraryCount ∧
      ∀ j, RefusedBeyond .classes j index.classCount (view.classAt i j) ∧
        RefusedBeyond .procedure j index.procedureCount (view.procedureAt i j)) ∧
    (∀ table ≠ .string, ∀ i < view.libraryCount,
      SparesTable table (view.library i) ∧ SparesTable table (view.libraryIndex i) ∧
      ∀ index, view.libraryIndex i = .ok index →
        (∀ j < index.classCount, SparesTable table (view.classAt i j)) ∧
        ∀ j < index.procedureCount, SparesTable table (view.procedureAt i j)) ∧
    (∀ i : UInt64, Machine.rangeAt view.directory.libraryOffsets i =
      .ok (view.directory.libraryRange? i.toNat)) ∧
    ∀ i index, view.libraryIndex i = .ok index →
      (∀ j : UInt64,
        Machine.rangeAt index.classOffsets j = .ok (index.classRange? j.toNat) ∧
        Machine.rangeAt index.procedureOffsets j = .ok (index.procedureRange? j.toNat)) ∧
      UInt64.toNat <$> Machine.rangeCount index.classOffsets = .ok index.classCount ∧
      UInt64.toNat <$> Machine.rangeCount index.procedureOffsets = .ok index.procedureCount := by
  refine ⟨fun i => ⟨?_, ?_, fun j => ⟨?_, ?_⟩⟩, ?_, ?_, ?_, ?_⟩
  · exact refusedBeyond_libraries hopen fun w => Library.scan_spares (by decide) w
  · exact refusedBeyond_libraries hopen fun w => LibraryIndex.ofWindow_spares w
  · exact refusedBeyond_libraries hopen fun w =>
      (LibraryIndex.ofWindow_spares w).bind fun _ _ => Library.classAt_spares nofun nofun
  · exact refusedBeyond_libraries hopen fun w =>
      (LibraryIndex.ofWindow_spares w).bind fun _ _ => Library.procedureAt_spares nofun nofun
  · intro i index hindex
    exact ⟨lt_libraryCount hopen hindex, fun j =>
      ⟨refusedBeyond_classes hindex, refusedBeyond_procedures hindex⟩⟩
  · intro table htable i hi
    have hwindow : SparesTable table (view.libraryWindow i) := libraryWindow_spares hopen hi
    refine ⟨hwindow.bind fun w _ => Library.scan_spares htable w,
      hwindow.bind fun w _ => LibraryIndex.ofWindow_spares w, fun index hindex => ?_⟩
    obtain ⟨w, -, hclass, hprocedure⟩ := libraryWindow_of_index hindex
    refine ⟨fun j hj => ?_, fun j hj => ?_⟩
    · rw [hclass]
      exact Library.classAt_spares htable fun _ => hj
    · rw [hprocedure]
      exact Library.procedureAt_spares htable fun _ => hj
  · intro i
    exact Machine.rangeAt_eq (length_libraryOffsets_lt hopen) i
  · intro i index hindex
    obtain ⟨w, hofWindow, -, -⟩ := libraryWindow_of_index hindex
    obtain ⟨-, hclasses, hprocedures⟩ := LibraryIndex.length_of_ofWindow hofWindow
    obtain ⟨hclassWords, hprocedureWords⟩ := LibraryIndex.length_lt_of_ofWindow hofWindow
    exact ⟨fun j => ⟨Machine.rangeAt_eq hclassWords j, Machine.rangeAt_eq hprocedureWords j⟩,
      Machine.rangeCount_eq hclasses hclassWords,
      Machine.rangeCount_eq hprocedures hprocedureWords⟩

/-- Of the second library with its two procedures, the first procedure is there, and the number of
the one that is not there is given in 32 bits. -/
theorem requests_refused_twin :
    ∃ view, openFile Component.twinFile {} = .ok view ∧
      view.library 4294967296 = .error (.invalidReference .library 0 2) ∧
      view.classAt 0 2 = .error (.invalidReference .classes 2 2) ∧
      view.procedureAt 1 4294967297 = .error (.invalidReference .procedure 1 2) ∧
      (∀ number size, view.procedureAt 1 0 ≠ .error (.invalidReference .procedure number size)) ∧
      ∃ index, view.libraryIndex 1 = .ok index ∧
        Machine.rangeAt index.procedureOffsets 18446744073709551615 = .ok none := by
  have hfile : (openFile Component.twinFile {}).toOption.any (fun view =>
      (view.libraryIndex 0).toOption.any fun first =>
        (view.libraryIndex 1).toOption.any fun index =>
          view.libraryCount = 2 ∧ first.classCount = 2 ∧ index.procedureCount = 2 ∧
            index.procedureRange? 18446744073709551615 = none) = true := by
    decide +kernel
  simp only [toOption_any_iff, decide_eq_true_eq] at hfile
  obtain ⟨view, hopen, first, hfirst, index, hindex, hlibraries, hclasses, hprocedures, hrange⟩ :=
    hfile
  obtain ⟨hlibrary, hdeclaration, hthere, -, hwords⟩ := requests_refused hopen
  obtain ⟨-, hfirstAt⟩ := hdeclaration 0 first hfirst
  obtain ⟨hlt, hindexAt⟩ := hdeclaration 1 index hindex
  obtain ⟨-, -, hdeclared⟩ := hthere .procedure nofun 1 hlt
  refine ⟨view, hopen, ?_, ?_, ?_, ?_, index, hindex, ?_⟩
  · exact ((hlibrary 4294967296).1 0 2).mpr ⟨by omega, rfl, hlibraries.symm⟩
  · exact ((hfirstAt 2).1 2 2).mpr ⟨by omega, rfl, hclasses.symm⟩
  · exact ((hindexAt 4294967297).2 1 2).mpr ⟨by omega, rfl, hprocedures.symm⟩
  · exact (hdeclared index hindex).2 0 (by omega)
  · rw [((hwords 1 index hindex).1 18446744073709551615).2]
    exact congrArg Except.ok hrange

/-- A fault does not give a number of more than 32 bits as it was asked for. -/
theorem not_requests_named : ¬ ∀ content options view, openFile content options = .ok view →
    ∀ i : UInt64, view.libraryCount ≤ i.toNat → ∃ number : UInt32,
      view.library i.toNat = .error (.invalidReference .library number view.libraryCount) ∧
      number.toNat = i.toNat := by
  intro hnamed
  have hfile : (openFile Component.twinFile {}).toOption.any (fun view =>
      view.libraryCount = 2) = true := by
    decide +kernel
  simp only [toOption_any_iff, decide_eq_true_eq] at hfile
  obtain ⟨view, hopen, hcount⟩ := hfile
  have hbeyond : view.libraryCount ≤ (4294967296 : UInt64).toNat := by
    rw [hcount]
    decide
  obtain ⟨number, hnumber, hword⟩ := hnamed _ _ view hopen 4294967296 hbeyond
  rw [library, libraryWindow_refused hopen hbeyond] at hnumber
  cases hnumber
  exact absurd hword (by decide)

end View
end DartKernel
