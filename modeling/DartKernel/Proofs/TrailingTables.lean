import DartKernel.Proofs.DeclarationRoundTrip
import DartKernel.Proofs.Locality

namespace DartKernel

namespace Window

def wordAt (w : Window) (position : Nat) : UInt32 :=
  (bigEndian ((w.bytes.drop position).take 4)).toUInt32

def wordsFrom (w : Window) (position count : Nat) : List UInt32 :=
  (List.range count).map fun i => w.wordAt (position + 4 * i)

variable {w : Window} {position count : Nat}

@[simp] theorem length_wordsFrom : (w.wordsFrom position count).length = count := by
  simp [wordsFrom]

theorem wordsFrom_succ :
    w.wordsFrom position (count + 1) = w.wordAt position :: w.wordsFrom (position + 4) count := by
  have hnext (i : Nat) : position + 4 * (i + 1) = position + 4 + 4 * i := by omega
  simp [wordsFrom, List.range_succ_eq_map, Function.comp_def, hnext]

theorem wordsFrom_ne_nil : w.wordsFrom position (count + 1) ≠ [] := by
  rw [wordsFrom_succ]
  exact List.cons_ne_nil _ _

theorem take_word (h : position + 4 ≤ w.length) :
    (w.bytes.drop position).take 4 = wordBytes (w.wordAt position) := by
  have hlen : ((w.bytes.drop position).take 4).length = 4 := by
    rw [List.length_take, List.length_drop, w.length_bytes]
    omega
  rw [wordAt, wordBytes_bigEndian hlen]

theorem take_words (h : position + 4 * count ≤ w.length) :
    (w.bytes.drop position).take (4 * count) = wordsBytes (w.wordsFrom position count) := by
  induction count generalizing position with
  | zero => rfl
  | succ count ih =>
    rw [Nat.mul_succ, Nat.add_comm (4 * count), List.take_add, List.drop_drop, take_word (by omega),
      ih (by omega), wordsFrom_succ, wordsBytes_cons]

theorem wordsAt?_eq (w : Window) (position count : Nat) : w.wordsAt? position count =
    if position + 4 * count ≤ w.length then some (w.wordsFrom position count) else none := by
  unfold wordsAt?
  by_cases h : position + 4 * count ≤ w.length
  · rw [if_pos h, if_pos h, w.extract_eq_take_drop _ _ h, take_words h, wordsOf_wordsBytes]
  · rw [if_neg h, if_neg h]

theorem advance_goto {n : Nat} (h : position ≤ w.length) :
    (w.goto position).advance n = w.goto (position + n) := by
  rw [advance_eq_goto, goto_goto]
  exact congrArg (fun start => w.goto (start + n)) (Nat.min_eq_left h)

end Window

namespace Scan

variable {w : Window} {position count : Nat}

theorem words_goto (h : position + 4 * count ≤ w.length) :
    words count (w.goto position) =
      .ok (w.wordsFrom position count) (w.goto (position + 4 * count)) := by
  have hrest : (w.goto position).rest = wordsBytes (w.wordsFrom position count) ++
      (w.bytes.drop position).drop (4 * count) := by
    rw [Window.rest_goto, ← Window.take_words h, List.take_append_drop]
  obtain ⟨n, hn, hdrop, hwords⟩ :=
    (words_reads count).complete ⟨Window.length_wordsFrom, hrest⟩
  have hcount : n = 4 * count := by
    rw [Window.eq_length_of_drop hn hdrop hrest, length_wordsBytes, Window.length_wordsFrom]
  rw [hwords, hcount, Window.advance_goto (by omega)]

theorem word_goto (h : position + 4 ≤ w.length) :
    word (w.goto position) = .ok (w.wordAt position) (w.goto (position + 4)) := by
  have hrest : (w.goto position).rest = wordBytes (w.wordAt position) ++
      (w.bytes.drop position).drop 4 := by
    rw [Window.rest_goto, ← Window.take_word h, List.take_append_drop]
  obtain ⟨n, hn, hdrop, hword⟩ := word_reads.complete hrest
  have hcount : n = 4 := by
    rw [Window.eq_length_of_drop hn hdrop hrest, length_wordBytes]
  rw [hword, hcount, Window.advance_goto (by omega)]

theorem seek_eq {position : Nat} (h : position ≤ w.length) :
    seek position w = .ok () (w.goto position) := seek_eq_ok.mpr ⟨h, rfl⟩

end Scan

namespace Class

/-- What is made of the bytes that the body of a class leaves over. -/
theorem scanProcedureIndex_eq (count : Nat) (w : Window) : scanProcedureIndex count w =
    if w.remaining = 0 then .ok none w
    else if w.remaining < 4 then .error (.format (.strayClassBytes w.remaining)) w
    else if (w.wordAt (w.length - 4)).toNat ≠ count then
      .error (.integrity .classProcedureCount count.toUInt32 (w.wordAt (w.length - 4)))
        (w.goto w.length)
    else if (count + 2) * 4 ≠ w.remaining then
      .error (.format (.classIndexSize ((count + 2) * 4) w.remaining)) (w.goto w.length)
    else .ok (some (w.wordsFrom w.position (count + 1))) (w.goto (w.length - 4)) := by
  have hcursor := w.cursor
  have hremaining : w.remaining = w.length - w.position := rfl
  rw [scanProcedureIndex, Scan.bind_eq]
  change (if w.remaining = 0 then _ else _ : Scan _) w = _
  by_cases h0 : w.remaining = 0
  · rw [if_pos h0, if_pos h0]
    rfl
  rw [if_neg h0, if_neg h0]
  by_cases h4 : w.remaining < 4
  · rw [if_pos h4, if_pos h4]
    rfl
  have hlast : w.length - 4 + 4 = w.length := by omega
  rw [if_neg h4, if_neg h4]
  change (Scan.seek (w.length - 4) >>= _) w = _
  rw [Scan.bind_eq, Scan.seek_eq (by omega)]
  change (Scan.word >>= _) (w.goto (w.length - 4)) = _
  rw [Scan.bind_eq, Scan.word_goto (by omega), hlast]
  change (if (w.wordAt (w.length - 4)).toNat ≠ count then _ else _ : Scan _) (w.goto w.length) = _
  by_cases hcount : (w.wordAt (w.length - 4)).toNat ≠ count
  · rw [if_pos hcount, if_pos hcount]
    rfl
  rw [if_neg hcount, if_neg hcount]
  rw [not_not] at hcount
  rw [hcount]
  change (if (count + 2) * 4 ≠ w.remaining then _ else _ : Scan _) (w.goto w.length) = _
  by_cases hsize : (count + 2) * 4 ≠ w.remaining
  · rw [if_pos hsize, if_pos hsize]
    rfl
  rw [if_neg hsize, if_neg hsize]
  have hstart : w.length - (count + 2) * 4 = w.position := by omega
  have hstop : w.position + 4 * (count + 1) = w.length - 4 := by omega
  change (Scan.seek (w.length - (count + 2) * 4) >>= _) (w.goto w.length) = _
  rw [hstart, Scan.bind_eq, Scan.seek_eq (by exact hcursor), Window.goto_goto]
  change (Scan.words (count + 1) >>= _) (w.goto w.position) = _
  rw [Scan.bind_eq, Scan.words_goto (by omega), hstop]
  rfl

theorem scanProcedureIndex_eq_ok_iff (count : Nat) (w : Window) (offsets? : Option (List UInt32))
    (w' : Window) : scanProcedureIndex count w = .ok offsets? w' ↔
      (w.remaining = 0 ∧ offsets? = none ∧ w' = w) ∨
      (w.remaining = (count + 2) * 4 ∧ (w.wordAt (w.length - 4)).toNat = count ∧
        offsets? = some (w.wordsFrom w.position (count + 1)) ∧ w' = w.goto (w.length - 4)) := by
  rw [scanProcedureIndex_eq]
  by_cases h0 : w.remaining = 0
  · have hsize : w.remaining ≠ (count + 2) * 4 := by omega
    rw [if_pos h0]
    simp [h0, eq_comm]
  by_cases h4 : w.remaining < 4
  · have hsize : w.remaining ≠ (count + 2) * 4 := by omega
    rw [if_neg h0, if_pos h4]
    simp [h0, hsize]
  rw [if_neg h0, if_neg h4]
  by_cases hcount : (w.wordAt (w.length - 4)).toNat = count
  · rw [if_neg (not_not_intro hcount)]
    by_cases hsize : w.remaining = (count + 2) * 4
    · rw [if_neg (not_not_intro hsize.symm)]
      simp [hcount, hsize, eq_comm]
    · rw [if_pos (Ne.symm hsize)]
      simp [h0, hsize]
  · rw [if_pos hcount]
    simp [h0, hcount]

/-- After its body a class is read from what the body leaves over. -/
theorem scan_of_body {c : Conventions} {w m : Window} {body : Class}
    (h : (NodeDecoder.classBody c).scan c w = .ok body m) :
    scan c w = (scanProcedureIndex body.procedures.length >>= fun procedureOffsets =>
      pure { body with procedureOffsets }) m := by
  rw [scan, Scan.bind_eq, h]

theorem scan_of_body_eq_ok_iff {c : Conventions} {w m : Window} {body : Class}
    (h : (NodeDecoder.classBody c).scan c w = .ok body m) (it : Class) (w' : Window) :
    scan c w = .ok it w' ↔ ∃ offsets?,
      scanProcedureIndex body.procedures.length m = .ok offsets? w' ∧
        it = { body with procedureOffsets := offsets? } := by
  rw [scan_of_body h]
  simp only [Scan.bind_eq_ok, Scan.pure_eq_ok]
  grind

/-- A refusal of the index is one of the class. -/
theorem scan_of_body_error {c : Conventions} {w m w' : Window} {body : Class} {fault : Fault}
    (h : (NodeDecoder.classBody c).scan c w = .ok body m)
    (hindex : scanProcedureIndex body.procedures.length m = .error fault w') :
    scan c w = .error fault w' := by
  rw [scan_of_body h, Scan.bind_eq, hindex]

variable {session : Session} {w m : Window} {body : Class}

/-- The number of procedures stands in the body, so that a word holds it. -/
theorem toNat_procedures
    (h : (NodeDecoder.classBody session.conventions).scan session.conventions w = .ok body m) :
    body.procedures.length.toUInt32.toNat = body.procedures.length := by
  have hfits := NodeDecoder.fits_of_scan h
  simp only [NodeLayout.classBody, Layout.fits_append, Layout.fits_list] at hfits
  have hlt : body.procedures.length < Uint.limit := hfits.1.1.2.1
  apply UInt32.toNat_ofNat_of_lt'
  simp only [Uint.limit, Uint.Tier.limit, UInt32.size] at *
  omega

/-- A body is the same whether or not an index follows its bytes. -/
theorem value_scan_body
    (h : (NodeDecoder.classBody session.conventions).scan session.conventions w = .ok body m) :
    ∃ bytes, w.rest = bytes ++ m.rest ∧
      (∀ u : Window, u.rest = bytes →
        (scan session.conventions).value u = .ok { body with procedureOffsets := none }) ∧
      ∀ (u : Window) (offsets : List UInt32) (count : UInt32),
        count.toNat = body.procedures.length → offsets.length = count.toNat + 1 →
        u.rest = bytes ++ wordsBytes offsets ++ wordBytes count →
        (scan session.conventions).value u =
          .ok { body with procedureOffsets := some offsets } := by
  obtain ⟨bytes, hrest, -, hanswer⟩ :=
    Decoder.run_framed (NodeLayout.written session) (NodeDecoder.classBody session.conventions)
      _ _ _ h
  refine ⟨bytes, hrest, ?_, ?_⟩
  · intro u hu
    have hbody := hanswer u [] (by rw [hu, List.append_nil])
    have hleft : (u.advance bytes.length).rest = [] := by
      rw [Window.rest_advance, hu, List.drop_length]
    exact value_scan hbody (scanProcedureIndex_nil _ hleft)
  · intro u offsets count hcount hoffsets hu
    rw [List.append_assoc] at hu
    have hbody := hanswer u _ hu
    have hleft : (u.advance bytes.length).rest = wordsBytes offsets ++ wordBytes count := by
      rw [Window.rest_advance, hu, List.drop_left]
    obtain ⟨u', hindex⟩ := scanProcedureIndex_words hoffsets hleft
    rw [hcount] at hindex
    exact value_scan hbody hindex

end Class

namespace LibraryIndex

/-- The number in the word that ends at a position. -/
def numberBefore (w : Window) (stop : Nat) : Nat := (w.wordAt (stop - 4)).toNat

def startBefore (w : Window) (stop : Nat) : Nat := stop - 4 * (numberBefore w stop + 2)

variable {w : Window} {stop : Nat}

/-- Offsets are found where their number says that they begin, if that is in the window. -/
theorem offsetsBefore?_eq_ite (hstop : stop ≤ w.length) : offsetsBefore? w stop =
    if 4 ≤ stop ∧ 4 * (numberBefore w stop + 2) ≤ stop then
      some (w.wordsFrom (startBefore w stop) (numberBefore w stop + 1), startBefore w stop)
    else none := by
  have hnumber : (w.wordAt (stop - 4)).toNat = numberBefore w stop := rfl
  have hstart : stop - 4 * (numberBefore w stop + 2) = startBefore w stop := rfl
  unfold offsetsBefore?
  by_cases h4 : 4 ≤ stop
  · have hword : w.wordsAt? (stop - 4) 1 = some [w.wordAt (stop - 4)] := by
      rw [Window.wordsAt?_eq, if_pos (by omega)]
      rfl
    by_cases hsize : 4 * (numberBefore w stop + 2) ≤ stop
    · have hwords : w.wordsAt? (startBefore w stop) (numberBefore w stop + 1) =
          some (w.wordsFrom (startBefore w stop) (numberBefore w stop + 1)) := by
        rw [Window.wordsAt?_eq, if_pos (by omega)]
      rw [if_pos ⟨h4, hsize⟩]
      simp [guard, h4, hword, hnumber, hsize, hstart, hwords]
    · simp [guard, h4, hword, hnumber, hsize]
  · simp [guard, h4]

theorem offsetsBefore?_eq_some_iff (hstop : stop ≤ w.length) (offsets : List UInt32) (start : Nat) :
    offsetsBefore? w stop = some (offsets, start) ↔
      4 ≤ stop ∧ 4 * (numberBefore w stop + 2) ≤ stop ∧
      offsets = w.wordsFrom (startBefore w stop) (numberBefore w stop + 1) ∧
      start = startBefore w stop := by
  rw [offsetsBefore?_eq_ite hstop]
  by_cases h : 4 ≤ stop ∧ 4 * (numberBefore w stop + 2) ≤ stop
  · rw [if_pos h]
    simp [h, eq_comm]
  · rw [if_neg h]
    simp only [reduceCtorEq, false_iff]
    exact fun hall => h ⟨hall.1, hall.2.1⟩

/-- An index is found exactly when both of its tables are. -/
theorem ofWindow_eq_ok_iff (index : LibraryIndex) : ofWindow w = .ok index ↔
    ∃ middle start, offsetsBefore? w w.length = some (index.procedureOffsets, middle) ∧
      offsetsBefore? w middle = some (index.classOffsets, start) := by
  unfold ofWindow
  cases hprocedures : offsetsBefore? w w.length with
  | none => simp
  | some found =>
    obtain ⟨procedureOffsets, middle⟩ := found
    cases hclasses : offsetsBefore? w middle with
    | none => simp [hclasses]
    | some found =>
      obtain ⟨classOffsets, start⟩ := found
      cases index
      simp [hclasses]
      exact and_comm

theorem ofWindow_eq_error {fault : Fault} (h : ofWindow w = .error fault) :
    fault = .format (.libraryIndexTruncated w.base) := by
  unfold ofWindow at h
  dsimp only at h
  split at h
  · cases h
  · cases h
    rfl

/-- The index fills the words behind the start of its classes. -/
theorem ofWindow_eq_ok_iff_words (index : LibraryIndex) : ofWindow w = .ok index ↔
    4 ≤ w.length ∧ 4 * (numberBefore w w.length + 2) + 4 ≤ w.length ∧
    4 * (numberBefore w w.length + 2) + 4 * (numberBefore w (startBefore w w.length) + 2)
      ≤ w.length ∧
    index.procedureOffsets =
      w.wordsFrom (startBefore w w.length) (numberBefore w w.length + 1) ∧
    index.classOffsets = w.wordsFrom (startBefore w (startBefore w w.length))
      (numberBefore w (startBefore w w.length) + 1) := by
  have hmiddle : startBefore w w.length = w.length - 4 * (numberBefore w w.length + 2) := rfl
  have hle : startBefore w w.length ≤ w.length := Nat.sub_le ..
  rw [ofWindow_eq_ok_iff]
  constructor
  · intro h
    obtain ⟨middle, start, hprocedures, hclasses⟩ := h
    obtain ⟨hlast, hroom, hoffsets, rfl⟩ :=
      (offsetsBefore?_eq_some_iff (Nat.le_refl _) _ _).mp hprocedures
    obtain ⟨hnumber, hroom', hoffsets', -⟩ := (offsetsBefore?_eq_some_iff hle _ _).mp hclasses
    exact ⟨hlast, by omega, by omega, hoffsets, hoffsets'⟩
  · intro h
    obtain ⟨hlast, hroom, hroom', hoffsets, hoffsets'⟩ := h
    exact ⟨_, _,
      (offsetsBefore?_eq_some_iff (Nat.le_refl _) _ _).mpr ⟨hlast, by omega, hoffsets, rfl⟩,
      (offsetsBefore?_eq_some_iff hle _ _).mpr ⟨by omega, by omega, hoffsets', rfl⟩⟩

/-- The index of a library is found from the end of its window, whatever the cursor: the number of
procedures is the last word, their offsets stand before it, and before these stands the number of
classes with the offsets of the classes before it. It is found exactly when the window has room for
as many words as the two numbers say. -/
theorem ofWindow_backward (w : Window) :
    let procedures := numberBefore w w.length
    let middle := w.length - 4 * (procedures + 2)
    let classes := numberBefore w middle
    let start := middle - 4 * (classes + 2)
    (∀ position, ofWindow (w.goto position) = ofWindow w) ∧
    (∀ index w', Scan.ofExcept (ofWindow w) w = .ok index w' ↔
      w' = w ∧ 4 ≤ w.length ∧ 4 * (procedures + 2) + 4 ≤ w.length ∧
      4 * (procedures + 2) + 4 * (classes + 2) ≤ w.length ∧
      index.procedureOffsets = w.wordsFrom middle (procedures + 1) ∧
      index.classOffsets = w.wordsFrom start (classes + 1)) ∧
    (∀ fault w', Scan.ofExcept (ofWindow w) w = .error fault w' →
      w' = w ∧ fault = .format (.libraryIndexTruncated w.base)) ∧
    (∀ index, ofWindow w = .ok index →
      index.classCount + 1 = index.classOffsets.length ∧
      index.procedureCount + 1 = index.procedureOffsets.length) ∧
    ∀ (front : List UInt8) (classOffsets procedureOffsets : List UInt32) (c p : UInt32),
      classOffsets.length = c.toNat + 1 → procedureOffsets.length = p.toNat + 1 →
      w.bytes = front ++ wordsBytes classOffsets ++ wordBytes c ++ wordsBytes procedureOffsets
        ++ wordBytes p →
      ofWindow w = .ok { classOffsets, procedureOffsets } := by
  intro procedures middle classes start
  refine ⟨fun _ => rfl, ?_, ?_, ?_, ?_⟩
  · intro index w'
    rw [Scan.ofExcept_eq_ok, and_comm]
    exact and_congr_right fun _ => ofWindow_eq_ok_iff_words index
  · intro fault w' h
    cases hindex : ofWindow w with
    | ok index =>
      rw [hindex] at h
      cases h
    | error found =>
      rw [hindex] at h
      cases h
      exact ⟨rfl, ofWindow_eq_error hindex⟩
  · intro index h
    obtain ⟨-, -, -, hprocedures, hclasses⟩ := (ofWindow_eq_ok_iff_words index).mp h
    rw [classCount, procedureCount, hprocedures, hclasses]
    simp
  · intro front classOffsets procedureOffsets c p hc hp hw
    -- The cursor plays no part, and at the start the whole window is in view.
    have hshows : (w.goto 0).Shows w.base (front ++ wordsBytes classOffsets ++ wordBytes c
        ++ wordsBytes procedureOffsets ++ wordBytes p) :=
      ⟨rfl, Nat.zero_min _, hw⟩
    have hindex : ofWindow (w.goto 0) = _ := ofWindow_of_shows hc hp hshows
    exact hindex

/-- A window of a byte and two tables, one of two offsets and one of a single offset. -/
theorem ofWindow_backward_sample :
    ofWindow (Window.ofBytes ⟨#[0xAA, 0, 0, 0, 7, 0, 0, 0, 9, 0, 0, 0, 1, 0, 0, 0, 9, 0, 0, 0, 0]⟩)
      = .ok { classOffsets := [7, 9], procedureOffsets := [9] } := by
  obtain ⟨-, -, -, -, hwritten⟩ := ofWindow_backward
    (Window.ofBytes ⟨#[0xAA, 0, 0, 0, 7, 0, 0, 0, 9, 0, 0, 0, 1, 0, 0, 0, 9, 0, 0, 0, 0]⟩)
  exact hwritten [0xAA] [7, 9] [9] 1 0 rfl rfl (by decide +kernel)

end LibraryIndex
end DartKernel
