import DartKernel.Proofs.DisjointRanges
import DartKernel.Proofs.Locality

namespace DartKernel

/-- A scan that gives its answer wherever its bytes stand stays in its window. -/
theorem Scan.Framed.position_le {scan : Scan α} (hscan : scan.Framed) {u u' : Window} {a : α}
    (h : scan u = .ok a u') : u'.position ≤ u.length := by
  obtain ⟨bytes, -, rfl, -⟩ := hscan _ _ _ h
  exact (u.advance bytes.length).cursor

/-- A reading that starts at the same place of the buffer and has room for what it moves past goes
the same way. -/
theorem Scan.Framed.of_same_start {scan : Scan α} (hscan : scan.Framed) {u v u' : Window} {a : α}
    (hdata : v.data = u.data) (hstart : v.base + v.position = u.base + u.position)
    (h : scan u = .ok a u') (hroom : u'.position ≤ u.position + v.remaining) :
    ∃ v', scan v = .ok a v' ∧ v'.position + u.position = u'.position + v.position := by
  obtain ⟨bytes, hrest, rfl, hanswer⟩ := hscan _ _ _ h
  have hbegin : bytes <+: u.rest := ⟨_, hrest.symm⟩
  have hposition := Window.position_advance hbegin
  have hbytes : bytes <+: v.rest := by
    rcases Nat.le_total (v.base + v.length) (u.base + u.length) with hends | hends
    · apply List.prefix_of_prefix_length_le hbegin (Window.rest_prefix hdata hstart hends)
      rw [v.length_rest]
      omega
    · exact hbegin.trans (Window.rest_prefix hdata.symm hstart.symm hends)
  obtain ⟨rest, hv⟩ := id hbytes
  refine ⟨_, hanswer v rest hv.symm, ?_⟩
  rw [hposition, Window.position_advance hbytes]
  omega

/-- After the look at its tag a procedure is read as a member the way it is read alone. -/
theorem NodeDecoder.scan_member_procedure_iff {session : Session} {w w' : Window}
    {it : Procedure} :
    (member session.conventions).scan session.conventions w = .ok (.procedure it) w' ↔
      (procedure session.conventions).scan session.conventions w = .ok it w' := by
  have hlayout : NodeLayout.member session (.procedure it) = NodeLayout.procedure session it := rfl
  refine ⟨fun h => ?_, fun h => ?_⟩
  · exact Decoder.run_of_layout_eq hlayout h
  · exact Decoder.run_of_layout_eq hlayout.symm h

namespace View

def procedureScan (view : View) : Scan Procedure :=
  (NodeDecoder.procedure view.session.conventions).scan view.session.conventions

def memberScan (view : View) : Scan Member :=
  (NodeDecoder.member view.session.conventions).scan view.session.conventions

def declarationWindow (view : View) (i : Nat) (start stop : UInt32) : Except Fault Window := do
  (← view.libraryWindow i).sliceAbsolute start stop

def tailWindow (view : View) (offset : UInt32) : Except Fault Window :=
  view.file.sliceFrom offset.toNat

variable {content : ByteArray} {options : DecodeOptions} {view : View} {i j : Nat}
  {index : LibraryIndex} {start stop : UInt32} {p : Procedure} {v u v' u' : Window}

theorem procedureScan_framed (view : View) : view.procedureScan.Framed :=
  Decoder.run_framed (NodeLayout.written view.session) _

/-- An indexed access reads in the window of the range that the index has for it. -/
theorem procedureAt_eq (hindex : view.libraryIndex i = .ok index)
    (hrange : index.procedureRange? j = some (start, stop)) :
    view.procedureAt i j =
      (do view.procedureScan.value (← view.declarationWindow i start stop)) := by
  obtain ⟨w, hw, hofWindow⟩ := bind_eq_ok.mp hindex
  unfold procedureAt declarationWindow
  rw [hw]
  change (do Library.procedureAt _ w (← LibraryIndex.ofWindow w) j) = _
  rw [hofWindow]
  change Library.declarationAt w (index.procedureRange? j) _ _ = _
  rw [hrange]
  rfl

theorem memberAt_eq (view : View) (offset : UInt32) :
    view.memberAt offset = (do view.memberScan.value (← view.tailWindow offset)) := rfl

/-- The window of a range is the part of the file that the range says. -/
theorem between_of_declarationWindow (hopen : openFile content options = .ok view)
    (h : view.declarationWindow i start stop = .ok v) :
    v.Between (Window.ofBytes content) start.toNat stop.toNat := by
  obtain ⟨w, hw, hv⟩ := bind_eq_ok.mp h
  obtain ⟨_, _, -, hlibrary⟩ := libraryWindow_eq_ok hw
  rw [file_openFile hopen] at hlibrary
  exact (Window.sliceAbsolute_eq_ok_iff.mp hv).trans hlibrary

theorem tailWindow_eq_ok_iff (hopen : openFile content options = .ok view) :
    view.tailWindow start = .ok u ↔
      u.Between (Window.ofBytes content) start.toNat content.size := by
  rw [tailWindow, file_openFile hopen, Window.sliceFrom_eq_ok_iff]
  simp only [Window.ofBytes, Nat.zero_add]

/-- Behind the start of a range there is the rest of the file, which ends no earlier. -/
theorem exists_tailWindow (hopen : openFile content options = .ok view)
    (h : v.Between (Window.ofBytes content) start.toNat stop.toNat) :
    ∃ u, view.tailWindow start = .ok u ∧ v.length ≤ u.length := by
  have hlength := h.length
  have hupper : stop.toNat ≤ 0 + content.size := h.upper
  obtain ⟨u, hu⟩ : ∃ u : Window, u.Between (Window.ofBytes content) start.toNat content.size :=
    Window.exists_between h.lower (by omega) (Nat.le_of_eq (Nat.zero_add _).symm)
  have hlength' := hu.length
  exact ⟨u, (tailWindow_eq_ok_iff hopen).mpr hu, by omega⟩

/-- Two windows that start at the same place of the file, before anything is read of them. -/
theorem same_start {w : Window} {stop' : Nat} (hv : v.Between w start.toNat stop.toNat)
    (hu : u.Between w start.toNat stop') :
    v.data = u.data ∧ v.base + v.position = u.base + u.position := by
  refine ⟨hv.data.trans hu.data.symm, ?_⟩
  rw [hv.base, hv.position, hu.base, hu.position]

/-- The procedure in a range is the member at its start, and both are read up to the same byte. -/
theorem memberScan_of_procedureScan (hopen : openFile content options = .ok view)
    (hv : view.declarationWindow i start stop = .ok v) (h : view.procedureScan v = .ok p v') :
    ∃ u u', view.tailWindow start = .ok u ∧ view.memberScan u = .ok (.procedure p) u' ∧
      u'.position = v'.position := by
  have hrange := between_of_declarationWindow hopen hv
  obtain ⟨u, hu, hlength⟩ := exists_tailWindow hopen hrange
  have htail := (tailWindow_eq_ok_iff hopen).mp hu
  obtain ⟨hdata, hstart⟩ := same_start hrange htail
  have hroom : v'.position ≤ v.position + u.remaining := by
    have hle := view.procedureScan_framed.position_le h
    rw [Window.remaining, htail.position]
    omega
  obtain ⟨u', hscan, hposition⟩ :=
    view.procedureScan_framed.of_same_start hdata.symm hstart.symm h hroom
  rw [hrange.position, htail.position] at hposition
  exact ⟨u, u', hu, NodeDecoder.scan_member_procedure_iff.mpr hscan, hposition⟩

/-- The member at the start of a range is the procedure in it, if it is one that ends there. -/
theorem procedureScan_of_memberScan (hopen : openFile content options = .ok view) {w : Window}
    (hw : view.libraryWindow i = .ok w) (hlower : w.base ≤ start.toNat)
    (hupper : stop.toNat ≤ w.base + w.length) (hu : view.tailWindow start = .ok u)
    (h : view.memberScan u = .ok (.procedure p) u')
    (hused : u'.position ≤ stop.toNat - start.toNat) :
    ∃ v v', view.declarationWindow i start stop = .ok v ∧ view.procedureScan v = .ok p v' := by
  have hscan := NodeDecoder.scan_member_procedure_iff.mp h
  have htail := (tailWindow_eq_ok_iff hopen).mp hu
  have hle : start.toNat ≤ stop.toNat := by
    -- The procedure takes a byte, so the range has one.
    obtain ⟨hlt, -⟩ := Decoder.position_lt_of_run hscan
    omega
  obtain ⟨v, hwindow⟩ := Window.exists_between hlower hle hupper
  have hv : view.declarationWindow i start stop = .ok v :=
    bind_eq_ok.mpr ⟨w, hw, Window.sliceAbsolute_eq_ok_iff.mpr hwindow⟩
  have hrange := between_of_declarationWindow hopen hv
  obtain ⟨hdata, hstart⟩ := same_start hrange htail
  have hroom : u'.position ≤ u.position + v.remaining := by
    have hlength := hrange.length
    rw [Window.remaining, hrange.position]
    omega
  obtain ⟨v', hprocedure, -⟩ :=
    view.procedureScan_framed.of_same_start hdata hstart hscan hroom
  exact ⟨v, v', hv, hprocedure⟩

/-- What an indexed access reads is the procedure at its offset in the file, and the other way round
if the procedure there ends in its range. -/
theorem procedure_by_offset (hopen : openFile content options = .ok view)
    (hindex : view.libraryIndex i = .ok index)
    (hrange : index.procedureRange? j = some (start, stop)) :
    (view.procedureAt i j = .ok p → view.memberAt start = .ok (.procedure p) ∧
      ∃ v u v' u', view.declarationWindow i start stop = .ok v ∧ view.tailWindow start = .ok u ∧
        v.base + v.length = stop.toNat ∧ u.base + u.length = content.size ∧
        view.procedureScan v = .ok p v' ∧ view.memberScan u = .ok (.procedure p) u' ∧
        u'.position = v'.position) ∧
    ∀ w u u', view.libraryWindow i = .ok w → w.base ≤ start.toNat →
      stop.toNat ≤ w.base + w.length → view.tailWindow start = .ok u →
      view.memberScan u = .ok (.procedure p) u' → u'.position ≤ stop.toNat - start.toNat →
      view.procedureAt i j = .ok p := by
  rw [procedureAt_eq hindex hrange, memberAt_eq]
  refine ⟨fun h => ?_, fun w u u' hw hlower hupper hu h hused => ?_⟩
  · obtain ⟨v, hv, hvalue⟩ := bind_eq_ok.mp h
    obtain ⟨v', hscan⟩ := Scan.value_eq_ok.mp hvalue
    obtain ⟨u, u', hu, hmember, hposition⟩ := memberScan_of_procedureScan hopen hv hscan
    refine ⟨bind_eq_ok.mpr ⟨u, hu, Scan.value_eq_ok.mpr ⟨u', hmember⟩⟩, ?_⟩
    exact ⟨v, u, v', u', hv, hu, (between_of_declarationWindow hopen hv).ends,
      ((tailWindow_eq_ok_iff hopen).mp hu).ends, hscan, hmember, hposition⟩
  · obtain ⟨v, v', hv, hscan⟩ :=
      procedureScan_of_memberScan hopen hw hlower hupper hu h hused
    exact bind_eq_ok.mpr ⟨v, hv, Scan.value_eq_ok.mpr ⟨v', hscan⟩⟩

/-- The second procedure of a library, found both ways. -/
theorem procedure_by_offset_twin :
    ∃ view p w u u', openFile Component.twinFile {} = .ok view ∧
      view.memberAt 70 = .ok (.procedure p) ∧ view.libraryWindow 0 = .ok w ∧ w.base ≤ 70 ∧
      83 ≤ w.base + w.length ∧ view.tailWindow 70 = .ok u ∧
      view.memberScan u = .ok (.procedure p) u' ∧ u'.position ≤ 83 - 70 ∧
      view.procedureAt 0 1 = .ok p := by
  have hfile : (openFile Component.twinFile {}).toOption.any (fun view =>
      (view.libraryIndex 0).toOption.any fun index => (view.procedureAt 0 1).toOption.any fun _ =>
        index.procedureRange? 1 = some (70, 83)) = true := by
    decide +kernel
  simp only [toOption_any_iff, decide_eq_true_eq] at hfile
  obtain ⟨view, hopen, index, hindex, p, hp, hrange⟩ := hfile
  obtain ⟨hto, hfrom⟩ := procedure_by_offset (p := p) hopen hindex hrange
  obtain ⟨hmember, v, u, v', u', hv, hu, -, -, hscan, hscan', hposition⟩ := hto hp
  obtain ⟨w, hw, hwindow⟩ := bind_eq_ok.mp hv
  have hwindow := Window.sliceAbsolute_eq_ok_iff.mp hwindow
  have hused : u'.position ≤ 83 - 70 := by
    have hle := view.procedureScan_framed.position_le hscan
    have hlength : 70 + v.length = 83 := hwindow.length
    omega
  have hagain := hfrom w u u' hw hwindow.lower hwindow.upper hu hscan' hused
  exact ⟨view, p, w, u, u', hopen, hmember, hw, hwindow.lower, hwindow.upper, hu, hscan', hused,
    hagain⟩

end View
end DartKernel
