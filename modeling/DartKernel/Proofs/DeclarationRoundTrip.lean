import DartKernel.Proofs.ComponentLayout

namespace DartKernel

/-- Where the bytes of a node stand, the node is read. -/
theorem NodeDecoder.value_scan {session : Session} {decoder : NodeDecoder α}
    {layout : α → NodeLayout} [Decoder.Laid (grammar session.conventions) decoder layout] {a : α}
    (hfits : (layout a).Fits (NodeLayout.treeTokens session)) {w : Window} {rest : List UInt8}
    (hw : w.rest = (layout a).write (NodeLayout.treeTokens session) ++ rest) :
    (decoder.scan session.conventions).value w = .ok a :=
  Scan.value_eq_ok.mpr ⟨_, Decoder.run_of_fits (NodeLayout.written session) hfits hw⟩

namespace Class

theorem scanProcedureIndex_nil {w : Window} (count : Nat) (h : w.rest = []) :
    scanProcedureIndex count w = .ok none w := by
  have hremaining : w.remaining = 0 := by rw [← w.length_rest, h, List.length_nil]
  unfold scanProcedureIndex
  refine Scan.bind_eq_ok.mpr ⟨w, w, rfl, ?_⟩
  rw [if_pos hremaining]
  rfl

theorem scanProcedureIndex_words {w : Window} {count : UInt32} {offsets : List UInt32}
    (hl : offsets.length = count.toNat + 1)
    (h : w.rest = wordsBytes offsets ++ wordBytes count) :
    ∃ w', scanProcedureIndex count.toNat w = .ok (some offsets) w' := by
  have hremaining : w.remaining = (count.toNat + 2) * 4 := by
    rw [← w.length_rest, h, List.length_append, length_wordsBytes, length_wordBytes, hl]
    omega
  have hcursor := w.cursor
  have hposition : w.position + w.remaining = w.length := by
    simp only [Window.remaining]
    omega
  have hlast : w.length - 4 = w.position + (wordsBytes offsets).length := by
    rw [length_wordsBytes, hl]
    omega
  have hcount : (w.goto (w.length - 4)).rest = wordBytes count ++ [] := by
    rw [hlast, ← Window.advance_eq_goto, Window.rest_advance, h, List.drop_left, List.append_nil]
  obtain ⟨n, -, -, hword⟩ := Scan.word_reads.complete hcount
  have hfirst : w.length - (count.toNat + 2) * 4 = w.position := by omega
  have hoffsets : (w.goto w.position).rest = wordsBytes offsets ++ wordBytes count := by
    rw [Window.rest_goto]
    exact h
  obtain ⟨k, -, -, hwords⟩ := (Scan.words_reads (count.toNat + 1)).complete ⟨hl, hoffsets⟩
  refine ⟨(w.goto w.position).advance k, ?_⟩
  unfold scanProcedureIndex
  refine Scan.bind_eq_ok.mpr ⟨w, w, rfl, ?_⟩
  rw [if_neg (by omega), if_neg (by omega)]
  refine Scan.bind_eq_ok.mpr ⟨(), _, Scan.seek_eq_ok.mpr ⟨by omega, rfl⟩, ?_⟩
  refine Scan.bind_eq_ok.mpr ⟨count, _, hword, ?_⟩
  rw [if_neg (not_not_intro rfl), if_neg (not_not_intro hremaining.symm), hfirst]
  refine Scan.bind_eq_ok.mpr ⟨(), w.goto w.position, Scan.seek_eq_ok.mpr ⟨hcursor, rfl⟩, ?_⟩
  exact Scan.bind_eq_ok.mpr ⟨offsets, _, hwords, rfl⟩

theorem value_scan {c : Conventions} {w m w' : Window} {body : Class}
    {procedureOffsets : Option (List UInt32)}
    (hbody : (NodeDecoder.classBody c).scan c w = .ok body m)
    (hindex : scanProcedureIndex body.procedures.length m = .ok procedureOffsets w') :
    (scan c).value w = .ok { body with procedureOffsets } :=
  Scan.value_eq_ok.mpr ⟨w', Scan.bind_eq_ok.mpr ⟨body, m, hbody,
    Scan.bind_eq_ok.mpr ⟨procedureOffsets, w', hindex, rfl⟩⟩⟩

end Class

namespace ClassDescription

variable {session : Session} {it : ClassDescription} {start : Nat}

/-- Parts that do not depend on where they start are just one after another. -/
theorem stretch_procedureBytes (procedures : List Procedure) (start : Nat) :
    stretch (procedureBytes session) start procedures =
      Layout.write (NodeLayout.treeTokens session)
        (procedures.flatMap (NodeLayout.procedure session)) := by
  induction procedures generalizing start with
  | nil => rfl
  | cons procedure procedures ih =>
    rw [stretch_cons, ih, List.flatMap_cons, Layout.write_append]
    rfl

/-- The bytes of a class are those of its body and then those of its index. -/
theorem write_eq : it.write session start =
    (NodeLayout.classBody session it.bare).write (NodeLayout.treeTokens session)
      ++ it.indexBytes session start := by
  have hhead : NodeLayout.classHead session it.bare = NodeLayout.classHead session it.body := rfl
  have hprocedures : it.bare.procedures = it.body.procedures := rfl
  have hfactories : it.bare.redirectingFactories = it.body.redirectingFactories := rfl
  rw [write, stretch_procedureBytes, front, back, NodeLayout.classBody, hhead, hprocedures,
    hfactories]
  simp only [Layout.list, Layout.write_append, Layout.write_require, List.append_assoc,
    List.nil_append]

/-- A class is read back where it is laid out. -/
theorem value_scan (hit : it.WellFormed session) {w : Window}
    (hw : w.Shows start (it.write session start)) :
    (Class.scan session.conventions).value w = .ok (it.placed session start) := by
  have hrest := hw.rest
  rw [write_eq] at hrest
  have hbody : (NodeDecoder.classBody session.conventions).scan session.conventions w =
      .ok it.bare (w.advance ((NodeLayout.classBody session it.bare).write
        (NodeLayout.treeTokens session)).length) :=
    Decoder.run_of_fits (NodeLayout.written session) hit hrest
  have hleft : (w.advance ((NodeLayout.classBody session it.bare).write
      (NodeLayout.treeTokens session)).length).rest = it.indexBytes session start := by
    rw [Window.rest_advance, hrest, List.drop_left]
  unfold indexBytes at hleft
  cases hindexed : it.indexed with
  | false =>
    rw [hindexed, if_neg Bool.false_ne_true] at hleft
    rw [placed, hindexed, if_neg Bool.false_ne_true]
    have hvalue := Class.value_scan hbody (Class.scanProcedureIndex_nil _ hleft)
    exact hvalue
  | true =>
    rw [hindexed, if_pos rfl] at hleft
    rw [placed, hindexed, if_pos rfl]
    have hcount : it.body.procedures.length.toUInt32.toNat = it.body.procedures.length := by
      unfold WellFormed NodeLayout.classBody at hit
      simp only [Layout.fits_append, Layout.fits_list] at hit
      have hlt : it.body.procedures.length < Uint.limit := hit.1.1.2.1
      apply UInt32.toNat_ofNat_of_lt'
      simp only [Uint.limit, Uint.Tier.limit, UInt32.size] at *
      omega
    have hlen : (it.procedureOffsets session start).length =
        it.body.procedures.length.toUInt32.toNat + 1 := by
      rw [hcount, procedureOffsets, length_bounds]
    obtain ⟨w', hindex⟩ := Class.scanProcedureIndex_words hlen hleft
    rw [hcount] at hindex
    have hvalue := Class.value_scan hbody hindex
    exact hvalue

end ClassDescription

/-- Offsets are found before a place in the window where they end with their number. -/
theorem LibraryIndex.offsetsBefore?_eq {w : Window} {start stop : Nat} {pre post : List UInt8}
    {offsets : List UInt32} {count : UInt32} (hl : offsets.length = count.toNat + 1)
    (hw : w.Shows start (pre ++ wordsBytes offsets ++ wordBytes count ++ post))
    (hstop : stop = pre.length + 4 * offsets.length + 4) :
    offsetsBefore? w stop = some (offsets, pre.length) := by
  have hcount : w.wordsAt? (stop - 4) 1 = some [count] := by
    have hsplit : w.Shows start ((pre ++ wordsBytes offsets) ++ wordsBytes [count] ++ post) := by
      simpa using hw
    have hwords := hsplit.wordsAt?
    rwa [List.length_append, length_wordsBytes, List.length_singleton,
      show pre.length + 4 * offsets.length = stop - 4 by omega] at hwords
  have hoffsets : w.wordsAt? pre.length (count.toNat + 1) = some offsets := by
    have hsplit : w.Shows start (pre ++ wordsBytes offsets ++ (wordBytes count ++ post)) := by
      simpa using hw
    rw [← hl]
    exact hsplit.wordsAt?
  have hfirst : stop - 4 * (count.toNat + 2) = pre.length := by omega
  have hfour : 4 ≤ stop := by omega
  have hsize : 4 * (count.toNat + 2) ≤ stop := by omega
  simp [offsetsBefore?, guard, hfour, hcount, hsize, hfirst, hoffsets]

/-- Two tables that end a window are found one behind the other. -/
theorem LibraryIndex.ofWindow_of_shows {w : Window} {start : Nat} {front : List UInt8}
    {classOffsets procedureOffsets : List UInt32} {c p : UInt32}
    (hc : classOffsets.length = c.toNat + 1) (hp : procedureOffsets.length = p.toNat + 1)
    (hw : w.Shows start (front ++ wordsBytes classOffsets ++ wordBytes c
      ++ wordsBytes procedureOffsets ++ wordBytes p)) :
    ofWindow w = .ok { classOffsets, procedureOffsets } := by
  have hback : w.Shows start ((front ++ wordsBytes classOffsets ++ wordBytes c)
      ++ wordsBytes procedureOffsets ++ wordBytes p ++ []) := by
    simpa only [List.append_nil] using hw
  have hlast : offsetsBefore? w w.length = some (procedureOffsets, _) :=
    offsetsBefore?_eq hp hback (by
      rw [hback.length]
      simp only [List.length_append, length_wordsBytes, length_wordBytes, List.length_nil])
  have hfront : w.Shows start (front ++ wordsBytes classOffsets ++ wordBytes c
      ++ (wordsBytes procedureOffsets ++ wordBytes p)) := by
    simpa only [List.append_assoc] using hw
  have hfirst : offsetsBefore? w (front ++ wordsBytes classOffsets ++ wordBytes c).length =
      some (classOffsets, front.length) :=
    offsetsBefore?_eq hc hfront (by
      rw [List.length_append, List.length_append, length_wordsBytes, length_wordBytes])
  simp only [ofWindow, hlast, hfirst, Option.bind_eq_bind, Option.bind_some]
  rfl

namespace Library

/-- Declarations that lie one after another in a library are read by their offsets. -/
theorem mapM_declarationAt {write : Nat → α → List UInt8} {xs : List α} {w : Window}
    {base first : Nat} {front back : List UInt8} {scan : Scan β} {value : Nat × α → β}
    {missing : Nat → Fault} (hfirst : first = base + front.length)
    (hw : w.Shows base (front ++ stretch write first xs ++ back))
    (hlt : base + w.length < UInt32.size)
    (hread : ∀ part ∈ place write first xs, ∀ v : Window,
      v.Shows part.1 (write part.1 part.2) → scan.value v = .ok (value part)) :
    (List.range xs.length).mapM (fun i => declarationAt w
      (LibraryIndex.range? (bounds write first xs) i) (missing i) scan) =
      .ok ((place write first xs).map value) := by
  subst hfirst
  apply mapM_place
  intro i part hi
  obtain ⟨a, b, v, ha, hb, hv, hshows, -⟩ := hw.sliceAbsolute_place hlt hi
  have hrange : LibraryIndex.range? (bounds write (base + front.length) xs) i = some (a, b) := by
    unfold LibraryIndex.range?
    rw [ha, hb]
    rfl
  unfold declarationAt
  rw [hrange]
  exact bind_eq_ok.mpr ⟨(a, b), rfl, bind_eq_ok.mpr ⟨v, hv,
    hread part (List.mem_of_getElem? hi) v hshows⟩⟩

end Library

namespace LibraryDescription

variable {session : Session} {it : LibraryDescription} {start : Nat} {w : Window}

/-- The index of a library is read from the end of its window. -/
theorem ofWindow_eq (hw : w.Shows start (it.write session start))
    (hlt : start + w.length < UInt32.size) :
    LibraryIndex.ofWindow w = .ok (it.index session start) := by
  have hlen := hw.length
  simp only [write, indexBytes, List.length_append, length_wordsBytes, length_wordBytes, index,
    length_bounds] at hlen
  have hclasses : it.classes.length.toUInt32.toNat = it.classes.length :=
    UInt32.toNat_ofNat_of_lt' (by omega)
  have hprocedures : it.procedures.length.toUInt32.toNat = it.procedures.length :=
    UInt32.toNat_ofNat_of_lt' (by omega)
  have hshows : w.Shows start (it.declarationBytes session start
      ++ wordsBytes (it.index session start).classOffsets ++ wordBytes it.classes.length.toUInt32
      ++ wordsBytes (it.index session start).procedureOffsets
      ++ wordBytes it.procedures.length.toUInt32) := by
    simpa only [write, indexBytes, List.append_assoc] using hw
  exact LibraryIndex.ofWindow_of_shows (by rw [hclasses, length_bounds])
    (by rw [hprocedures, length_bounds]) hshows

theorem head_scan (hit : it.WellFormed session) (hw : w.Shows start (it.write session start)) :
    (NodeDecoder.libraryHead.scan session.conventions).value (w.goto 0) = .ok it.head := by
  apply NodeDecoder.value_scan hit.head
  rw [Window.rest_goto, hw.bytes, List.drop_zero]
  simp only [write, declarationBytes, List.append_assoc]
  rfl

theorem classes_scan (hit : it.WellFormed session) (hw : w.Shows start (it.write session start))
    (hlt : start + w.length < UInt32.size) :
    (List.range (it.index session start).classCount).mapM
      (Library.classAt session.conventions w (it.index session start)) =
      .ok (it.placed session start).classes := by
  have hsplit : w.Shows start (it.headBytes session ++ it.classBytes session start
      ++ (it.fieldBytes session
        ++ (stretch (procedureBytes session) (it.procedureStart session start) it.procedures
          ++ it.indexBytes session start))) := by
    simpa only [write, declarationBytes, List.append_assoc] using hw
  have hcount : (it.index session start).classCount = it.classes.length := by
    simp [index, LibraryIndex.classCount]
  rw [hcount]
  apply Library.mapM_declarationAt rfl hsplit hlt
  intro part hpart v hv
  exact ClassDescription.value_scan (hit.classes _ (snd_mem_of_mem_place hpart)) hv

/-- The fields start where the classes end. -/
theorem fields_scan (hit : it.WellFormed session) (hw : w.Shows start (it.write session start))
    (hlt : start + w.length < UInt32.size) :
    ∃ first, w.relative (it.index session start).fieldsStart = .ok first ∧ first ≤ w.length ∧
      (NodeDecoder.scan session.conventions
        (Decoder.list (NodeDecoder.field session.conventions))).value (w.goto first) =
          .ok it.fields := by
  have hsplit : w.Shows start ((it.headBytes session ++ it.classBytes session start)
      ++ (it.fieldBytes session
        ++ (stretch (procedureBytes session) (it.procedureStart session start) it.procedures
          ++ it.indexBytes session start))) := by
    simpa only [write, declarationBytes, List.append_assoc] using hw
  have hlen := hsplit.length
  simp only [List.length_append] at hlen
  have hstart : (it.index session start).fieldsStart.toNat =
      start + (it.headBytes session ++ it.classBytes session start).length := by
    rw [LibraryIndex.fieldsStart, index, bounds_last]
    change (it.classStart session start + (it.classBytes session start).length).toUInt32.toNat = _
    rw [List.length_append, ← Nat.add_assoc, ← classStart]
    exact UInt32.toNat_ofNat_of_lt' (by rw [classStart]; omega)
  refine ⟨_, hsplit.relative hstart, by rw [List.length_append]; omega, ?_⟩
  apply NodeDecoder.value_scan hit.fields
  rw [Window.rest_goto, hsplit.bytes, List.drop_left]
  rfl

theorem procedures_scan (hit : it.WellFormed session)
    (hw : w.Shows start (it.write session start)) (hlt : start + w.length < UInt32.size) :
    (List.range (it.index session start).procedureCount).mapM
      (Library.procedureAt session.conventions w (it.index session start)) =
      .ok it.procedures := by
  have hfront : it.procedureStart session start = start + (it.headBytes session
      ++ it.classBytes session start ++ it.fieldBytes session).length := by
    simp only [procedureStart, classStart, List.length_append, Nat.add_assoc]
  have hsplit : w.Shows start ((it.headBytes session ++ it.classBytes session start
      ++ it.fieldBytes session)
      ++ stretch (procedureBytes session) (it.procedureStart session start) it.procedures
      ++ it.indexBytes session start) := by
    simpa only [write, declarationBytes, List.append_assoc] using hw
  have hcount : (it.index session start).procedureCount = it.procedures.length := by
    simp [index, LibraryIndex.procedureCount]
  have hplaced : (place (procedureBytes session) (it.procedureStart session start)
      it.procedures).map Prod.snd = it.procedures := map_snd_place
  rw [hcount]
  conv_rhs => rw [← hplaced]
  apply Library.mapM_declarationAt hfront hsplit hlt
  intro part hpart v hv
  exact NodeDecoder.value_scan (hit.procedures _ (snd_mem_of_mem_place hpart))
    (hv.rest.trans (List.append_nil _).symm)

/-- A library is read back where it is laid out. -/
theorem value_scan (hit : it.WellFormed session) (hw : w.Shows start (it.write session start))
    (hlt : start + w.length < UInt32.size) :
    (Library.scan session.conventions).value w = .ok (it.placed session start) :=
  Library.value_scan_iff.mpr ⟨ofWindow_eq hw hlt, head_scan hit hw, classes_scan hit hw hlt,
    fields_scan hit hw hlt, procedures_scan hit hw hlt⟩

end LibraryDescription
end DartKernel
