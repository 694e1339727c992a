import DartKernel.Proofs.Addressing
import DartKernel.Proofs.MetadataTable
import DartKernel.Component.Machine

namespace DartKernel

namespace MetadataMapping

theorem length_pairsOf {pairs : List UInt32} {count : Nat} (h : pairs.length = 2 * count) :
    (pairsOf pairs).length = count := by
  induction count generalizing pairs with
  | zero =>
    obtain rfl := List.length_eq_zero_iff.mp h
    rfl
  | succ count ih =>
    match pairs, h with
    | first :: second :: rest, h =>
      rw [pairsOf, List.length_cons, ih]
      simp only [List.length_cons] at h
      omega

theorem entryWords_pairsOf {pairs : List UInt32} {count : Nat} (h : pairs.length = 2 * count) :
    entryWords (pairsOf pairs) = pairs := by
  induction count generalizing pairs with
  | zero =>
    obtain rfl := List.length_eq_zero_iff.mp h
    rfl
  | succ count ih =>
    match pairs, h with
    | first :: second :: rest, h =>
      have hrest : rest.length = 2 * count := by
        simp only [List.length_cons] at h
        omega
      rw [pairsOf, entryWords, List.flatMap_cons, ← entryWords, ih hrest]
      rfl

/-- From the last word to the first, pairs come out in the same order. -/
theorem pairsOnto_reverse {pairs : List UInt32} {count : Nat} (h : pairs.length = 2 * count) :
    pairsOnto pairs.reverse [] = pairsOf pairs := by
  have hpairs := pairsOnto_entryWords (pairsOf pairs) []
  rwa [entryWords_pairsOf h, List.append_nil] at hpairs

/-- The words are some in front and then those of mappings, whose entries a word can count. -/
structure EndsWith (ws front : List UInt32) (mappings : List MetadataMapping) : Prop where
  words : ws = front ++ mappings.flatMap MetadataMapping.words
  counted : ∀ mapping ∈ mappings, mapping.entries.length < UInt32.size

/-- Words that end with no mapping: there are none, or the last of them counts more entries than
there are words for in front of it, when one is left for the tag. -/
def NoRoom (front : List UInt32) : Prop :=
  front = [] ∨ ∃ before length, front = before ++ [length] ∧ before.length < 2 * length.toNat + 1

/-- Fewer than `count` mappings stand at the end of the words, and in front of them is no other. -/
def Overdrawn (ws : List UInt32) (count : Nat) : Prop :=
  ∃ front mappings, EndsWith ws front mappings ∧ mappings.length < count ∧ NoRoom front

variable {ws front : List UInt32} {mappings : List MetadataMapping} {count : Nat}

theorem noRoom_or_mapping (front : List UInt32) : NoRoom front ∨
    ∃ before mapping, front = before ++ words mapping ∧
      mapping.entries.length < UInt32.size := by
  rcases List.eq_nil_or_concat front with rfl | ⟨before, length, rfl⟩
  · exact .inl (.inl rfl)
  rw [List.concat_eq_append]
  by_cases hshort : before.length < 2 * length.toNat + 1
  · exact .inl (.inr ⟨before, length, rfl, hshort⟩)
  -- The entries are as many words as the last one says, and a word for the tag stands before them.
  right
  obtain ⟨rest, pairs, hbefore, hlength⟩ : ∃ rest pairs, before = rest ++ pairs ∧
      pairs.length = 2 * length.toNat := by
    refine ⟨before.take (before.length - 2 * length.toNat),
      before.drop (before.length - 2 * length.toNat), (List.take_append_drop ..).symm, ?_⟩
    rw [List.length_drop]
    omega
  have hentries := length_pairsOf hlength
  rcases List.eq_nil_or_concat rest with rfl | ⟨front, tag, rfl⟩
  · have hnone := congrArg List.length hbefore
    rw [List.nil_append, hlength] at hnone
    omega
  · refine ⟨front, ⟨⟨tag⟩, pairsOf pairs⟩, ?_, ?_⟩
    · rw [words, hentries, entryWords_pairsOf hlength, hbefore]
      simp
    · rw [hentries]
      exact length.toNat_lt

/-- Words end with as many mappings as are wanted, or they run out. -/
theorem endsWith_or_overdrawn (ws : List UInt32) (count : Nat) :
    (∃ front mappings, EndsWith ws front mappings ∧ mappings.length = count) ∨
      Overdrawn ws count := by
  induction count with
  | zero =>
    left
    exact ⟨ws, [], ⟨by simp, nofun⟩, rfl⟩
  | succ count ih =>
    rcases ih with ⟨front, mappings, hends, rfl⟩ | ⟨front, mappings, hends, hfewer, hroom⟩
    · rcases noRoom_or_mapping front with hroom | ⟨before, mapping, rfl, hcounted⟩
      · right
        exact ⟨front, mappings, hends, Nat.lt_succ_self _, hroom⟩
      · left
        refine ⟨before, mapping :: mappings, ⟨?_, ?_⟩, rfl⟩
        · rw [hends.words, List.flatMap_cons, List.append_assoc]
        · exact List.forall_mem_cons.mpr ⟨hcounted, hends.counted⟩
    · right
      exact ⟨front, mappings, hends, by omega, hroom⟩

theorem backwards?_of_endsWith (h : EndsWith ws front mappings) :
    backwards? mappings.length ws.reverse [] = some mappings := by
  have hread := backwards?_append h.counted front 0 []
  rwa [Nat.add_zero, List.append_nil, ← h.words, backwards?] at hread

theorem backwards?_of_noRoom (h : NoRoom front) (count : Nat) (done : List MetadataMapping) :
    backwards? (count + 1) front.reverse done = none := by
  rcases h with rfl | ⟨before, length, rfl, hshort⟩
  · rfl
  · have hdrop : before.reverse.drop (2 * length.toNat) = [] := by
      apply List.drop_eq_nil_of_le
      rw [List.length_reverse]
      omega
    rw [List.reverse_append, List.reverse_singleton, List.singleton_append, backwards?, hdrop]

theorem backwards?_of_overdrawn (h : Overdrawn ws count) :
    backwards? count ws.reverse [] = none := by
  obtain ⟨front, mappings, hends, hfewer, hroom⟩ := h
  obtain ⟨further, rfl⟩ : ∃ further, count = mappings.length + (further + 1) :=
    ⟨count - mappings.length - 1, by omega⟩
  rw [hends.words, backwards?_append hends.counted, backwards?_of_noRoom hroom]

theorem backwards?_eq_some_iff : backwards? count ws.reverse [] = some mappings ↔
    mappings.length = count ∧ ∃ front, EndsWith ws front mappings := by
  constructor
  · intro h
    rcases endsWith_or_overdrawn ws count with ⟨front, found, hends, rfl⟩ | hover
    · rw [backwards?_of_endsWith hends] at h
      cases h
      exact ⟨rfl, front, hends⟩
    · rw [backwards?_of_overdrawn hover] at h
      cases h
  · rintro ⟨rfl, front, hends⟩
    exact backwards?_of_endsWith hends

theorem backwards?_eq_none_iff : backwards? count ws.reverse [] = none ↔ Overdrawn ws count := by
  constructor
  · intro h
    rcases endsWith_or_overdrawn ws count with ⟨front, found, hends, rfl⟩ | hover
    · rw [backwards?_of_endsWith hends] at h
      cases h
    · exact hover
  · exact backwards?_of_overdrawn

variable {w : Window} {init : List UInt32} {last : UInt32}

/-- A section is ragged, or empty, or words with a last one. -/
theorem section_cases (w : Window) : w.length % 4 ≠ 0 ∨ w.length = 0 ∨
    ∃ init last, w.bytes = wordsBytes (init ++ [last]) ∧ w.length / 4 = init.length + 1 := by
  by_cases hragged : w.length % 4 ≠ 0
  · exact .inl hragged
  right
  have hlength : w.bytes.length = 4 * (w.length / 4) := by
    rw [w.length_bytes]
    omega
  obtain ⟨hnumber, hwords⟩ := wordsBytes_wordsOf hlength
  rcases List.eq_nil_or_concat (wordsOf w.bytes) with hnil | ⟨init, last, hconcat⟩
  · left
    rw [hnil, List.length_nil] at hnumber
    omega
  · right
    rw [List.concat_eq_append] at hconcat
    rw [hconcat] at hwords hnumber
    rw [List.length_append, List.length_singleton] at hnumber
    exact ⟨init, last, hwords.symm, hnumber.symm⟩

theorem ofSection_ragged (h : w.length % 4 ≠ 0) :
    ofSection w = .error (.format (.mappingSectionRagged w.length)) := by
  rw [ofSection, if_pos h]

theorem ofSection_empty (h : w.length = 0) : ofSection w = .ok [] := by
  have hbytes : w.bytes = [] := List.length_eq_zero_iff.mp (w.length_bytes.trans h)
  rw [ofSection, if_neg (by omega), hbytes]
  rfl

/-- The words of a section are those of mappings behind others, and the number of mappings. -/
theorem endsWith_iff (hw : w.bytes = wordsBytes (init ++ [last])) :
    (mappings.length = last.toNat ∧ ∃ front, EndsWith init front mappings) ↔
      mappings.length < UInt32.size ∧
      (∀ mapping ∈ mappings, mapping.entries.length < UInt32.size) ∧
      ∃ front, w.bytes = wordsBytes (front ++ sectionWords mappings) := by
  constructor
  · rintro ⟨hcount, front, rfl, hcounted⟩
    have hlast : mappings.length.toUInt32 = last := by
      rw [hcount]
      exact UInt32.ofNat_toNat
    refine ⟨hcount ▸ last.toNat_lt, hcounted, front, ?_⟩
    rw [hw, sectionWords, hlast, List.append_assoc]
  · rintro ⟨hcount, hcounted, front, hfront⟩
    have hwords := congrArg wordsOf (hw.symm.trans hfront)
    rw [wordsOf_wordsBytes, wordsOf_wordsBytes, sectionWords, ← List.append_assoc] at hwords
    obtain ⟨hinit, hlast⟩ := List.append_inj' hwords rfl
    obtain rfl := List.singleton_inj.mp hlast
    exact ⟨(UInt32.toNat_ofNat_of_lt' hcount).symm, front, hinit, hcounted⟩

theorem ofSection_eq_ok_iff : ofSection w = .ok mappings ↔ w.length = 0 ∧ mappings = [] ∨
    mappings.length < UInt32.size ∧
    (∀ mapping ∈ mappings, mapping.entries.length < UInt32.size) ∧
    ∃ front, w.bytes = wordsBytes (front ++ sectionWords mappings) := by
  constructor
  · intro h
    rcases section_cases w with hragged | hempty | ⟨init, last, hw, -⟩
    · rw [ofSection_ragged hragged] at h
      cases h
    · rw [ofSection_empty hempty] at h
      cases h
      exact .inl ⟨hempty, rfl⟩
    · right
      rw [ofSection_concat hw] at h
      cases hread : backwards? last.toNat init.reverse [] with
      | none =>
        rw [hread] at h
        cases h
      | some found =>
        rw [hread] at h
        cases h
        exact (endsWith_iff hw).mp (backwards?_eq_some_iff.mp hread)
  · rintro (⟨hempty, rfl⟩ | ⟨hcount, hcounted, front, hw⟩)
    · exact ofSection_empty hempty
    · exact ofSection_append hcount hcounted hw

theorem ofSection_eq_error_iff {fault : Fault} : ofSection w = .error fault ↔
    w.length % 4 ≠ 0 ∧ fault = .format (.mappingSectionRagged w.length) ∨
    ∃ init last, w.bytes = wordsBytes (init ++ [last]) ∧ Overdrawn init last.toNat ∧
      fault = .format (.mappingsTruncated (w.length / 4)) := by
  constructor
  · intro h
    rcases section_cases w with hragged | hempty | ⟨init, last, hw, hnumber⟩
    · rw [ofSection_ragged hragged] at h
      cases h
      exact .inl ⟨hragged, rfl⟩
    · rw [ofSection_empty hempty] at h
      cases h
    · right
      rw [ofSection_concat hw] at h
      cases hread : backwards? last.toNat init.reverse [] with
      | none =>
        rw [hread] at h
        cases h
        exact ⟨init, last, hw, backwards?_eq_none_iff.mp hread, by rw [hnumber]⟩
      | some found =>
        rw [hread] at h
        cases h
  · rintro (⟨hragged, rfl⟩ | ⟨init, last, hw, hover, rfl⟩)
    · exact ofSection_ragged hragged
    · have hlength := w.length_bytes
      rw [hw, length_wordsBytes, List.length_append, List.length_singleton] at hlength
      have hnumber : w.length / 4 = init.length + 1 := by omega
      rw [ofSection_concat hw, backwards?_of_overdrawn hover, hnumber]

section Indices
open Machine

variable {stop : UInt64} {done : List MetadataMapping}

theorem wordOf_eq {index : UInt64} {i : Nat} (hi : index.toNat = i) (h : i < ws.length) :
    wordOf ws index = .ok ws[i] := by
  rw [wordOf, hi, List.getElem?_eq_getElem h]

theorem wordsBetween_eq {start stop : UInt64} (h : start.toNat ≤ stop.toNat)
    (h' : stop.toNat ≤ ws.length) :
    wordsBetween ws start stop = .ok ((ws.take stop.toNat).drop start.toNat) := by
  rw [wordsBetween, if_pos ⟨UInt64.le_iff_toNat_le.mpr h, h'⟩]

/-- The words in front of an index from the last one on, when there is one. -/
theorem reverse_take_succ {k : Nat} (h : k < ws.length) :
    (ws.take (k + 1)).reverse = ws[k] :: (ws.take k).reverse := by
  rw [List.take_succ_eq_append_getElem h, List.reverse_append]
  rfl

/-- One mapping in front of an index, if there is room for it. -/
theorem backwards?_reverse_take {k : Nat} (h : k < ws.length) (count : Nat)
    (done : List MetadataMapping) :
    backwards? (count + 1) (ws.take (k + 1)).reverse done =
      if hroom : 2 * ws[k].toNat < k then
        backwards? count (ws.take (k - 2 * ws[k].toNat - 1)).reverse
          (⟨⟨ws[k - 2 * ws[k].toNat - 1]⟩,
            pairsOf ((ws.take k).drop (k - 2 * ws[k].toNat))⟩ :: done)
      else none := by
  have hlength : (ws.take k).length = k := List.length_take_of_le (Nat.le_of_lt h)
  rw [reverse_take_succ h, backwards?]
  by_cases hroom : 2 * ws[k].toNat < k
  · have hdrop : (ws.take k).reverse.drop (2 * ws[k].toNat) =
        ws[k - 2 * ws[k].toNat - 1] :: (ws.take (k - 2 * ws[k].toNat - 1)).reverse := by
      rw [List.drop_reverse, hlength, List.take_take, Nat.min_eq_left (Nat.sub_le ..),
        ← reverse_take_succ, Nat.sub_add_cancel (by omega)]
    have htake : (ws.take k).reverse.take (2 * ws[k].toNat) =
        ((ws.take k).drop (k - 2 * ws[k].toNat)).reverse := by
      rw [List.take_reverse, hlength]
    have hpairs : ((ws.take k).drop (k - 2 * ws[k].toNat)).length = 2 * ws[k].toNat := by
      rw [List.length_drop, hlength]
      omega
    rw [dif_pos hroom, hdrop, htake]
    dsimp only
    rw [pairsOnto_reverse hpairs]
  · have hdrop : (ws.take k).reverse.drop (2 * ws[k].toNat) = [] := by
      apply List.drop_eq_nil_of_le
      rw [List.length_reverse, hlength]
      omega
    rw [dif_neg hroom, hdrop]

/-- What is left of the words for a mapping is told by its index alone. No index is outside of the
words, and twice a number of 32 bits is a word. -/
theorem before_eq (h : stop.toNat ≤ ws.length) : before ws count stop done =
    match backwards? count (ws.take stop.toNat).reverse done with
    | some mappings => .ok mappings
    | none => .error (.refused (.format (.mappingsTruncated ws.length))) := by
  have hone : (1 : UInt64).toNat = 1 := rfl
  have htwo : (2 : UInt64).toNat = 2 := rfl
  induction count generalizing stop done with
  | zero => rw [before, backwards?]
  | succ count ih =>
    dsimp only [before]
    rw [checked_difference?, hone]
    by_cases hnone : stop.toNat = 0
    · rw [if_neg (by omega), hnone]
      rfl
    obtain ⟨k, hk⟩ := Nat.exists_eq_succ_of_ne_zero hnone
    have hlt : k < ws.length := by omega
    have hlengthAt : (stop - 1).toNat = k := by
      rw [toNat_sub (by omega), hone]
      omega
    have hnumber := ws[k].toNat_lt
    have hproduct : ws[k].toUInt64.toNat * (2 : UInt64).toNat < UInt64.size := by
      rw [UInt32.toNat_toUInt64, htwo, UInt64.size]
      omega
    have hpairWords : (ws[k].toUInt64 * 2).toNat = 2 * ws[k].toNat := by
      rw [toNat_mul hproduct, UInt32.toNat_toUInt64, htwo, Nat.mul_comm]
    rw [if_pos (by omega), ok_bind, wordOf_eq hlengthAt hlt, ok_bind, unchecked_product? hproduct,
      ok_bind, checked_difference?, hlengthAt, hpairWords, hk, backwards?_reverse_take hlt]
    by_cases hfits : 2 * ws[k].toNat ≤ k
    · have hpairsAt : (stop - 1 - ws[k].toUInt64 * 2).toNat = k - 2 * ws[k].toNat := by
        rw [toNat_sub (by omega), hlengthAt, hpairWords]
      rw [if_pos hfits, ok_bind, checked_difference?, hone, hpairsAt]
      by_cases hroom : 2 * ws[k].toNat < k
      · have htagAt : (stop - 1 - ws[k].toUInt64 * 2 - 1).toNat = k - 2 * ws[k].toNat - 1 := by
          rw [toNat_sub (by omega), hpairsAt, hone]
        rw [if_pos (by omega), ok_bind, wordsBetween_eq (by omega) (by omega), ok_bind,
          wordOf_eq htagAt (by omega), ok_bind, ih (by omega), dif_pos hroom, htagAt, hpairsAt,
          hlengthAt]
      · rw [if_neg (by omega), dif_neg hroom]
        rfl
    · rw [if_neg hfits, dif_neg (by omega)]
      rfl

end Indices

/-- The words of a section of words are all read from its start. -/
theorem value_words (hsize : w.data.size < UInt64.size) (hwhole : w.length % 4 = 0) :
    (MachineScan.words (w.toMachine.length / 4)).value { w.toMachine with position := 0 } =
      .ok (wordsOf w.bytes) := by
  have hstart : { w.toMachine with position := 0 } = (w.goto 0).toMachine := by
    simp [Window.toMachine, Window.goto]
  have hcount : (w.toMachine.length / 4).toNat = w.length / 4 := by
    rw [UInt64.toNat_div, Window.length_toMachine hsize]
    rfl
  have hwords : (w.bytes.drop 0).take (4 * (w.length / 4)) =
      wordsBytes (w.wordsFrom 0 (w.length / 4)) := Window.take_words (by omega)
  have hall : w.bytes.length ≤ 4 * (w.length / 4) := by
    rw [w.length_bytes]
    omega
  rw [List.drop_zero, List.take_of_length_le hall] at hwords
  have hsize' : (w.goto 0).data.size < UInt64.size := hsize
  rw [hstart, MachineScan.value, MachineScan.words_toMachine hsize', hcount,
    Scan.words_goto (by omega), hwords, wordsOf_wordsBytes]
  rfl

theorem mappings_toMachine (hsize : w.data.size < UInt64.size) :
    w.toMachine.mappings = Machine.answer id (ofSection w) := by
  have hlength := Window.length_toMachine hsize
  have hragged : w.toMachine.length % 4 ≠ 0 ↔ w.length % 4 ≠ 0 := by
    rw [ne_eq, ← UInt64.toNat_inj, UInt64.toNat_mod, hlength]
    rfl
  unfold MachineWindow.mappings
  rcases section_cases w with hw | hw | ⟨init, last, hw, hnumber⟩
  · rw [if_pos (hragged.mpr hw), ofSection_ragged hw, hlength]
    rfl
  · have hbytes : w.bytes = [] := List.length_eq_zero_iff.mp (w.length_bytes.trans hw)
    rw [if_neg (hragged.not.mpr (by omega)), value_words hsize (by omega), ofSection_empty hw,
      hbytes]
    rfl
  · have hbytes := w.length_bytes
    have hinside := w.inside
    rw [hw, length_wordsBytes, List.length_append, List.length_singleton] at hbytes
    have hwhole : w.length % 4 = 0 := by omega
    have hone : (1 : UInt64).toNat = 1 := rfl
    have hcount : (init ++ [last]).length.toUInt64.toNat = init.length + 1 := by
      rw [List.length_append, List.length_singleton, Machine.toNat_toUInt64 (by omega)]
    have hstop : ((init ++ [last]).length.toUInt64 - 1).toNat = init.length := by
      rw [Machine.toNat_sub (by omega), hcount, hone]
      omega
    rw [if_neg (hragged.not.mpr (by omega)), value_words hsize hwhole, ofSection_concat hw, ok_bind,
      hw, wordsOf_wordsBytes, List.getLast?_concat]
    dsimp only
    rw [Machine.unchecked_difference? (by omega), ok_bind, before_eq (by rw [hstop]; simp), hstop,
      List.take_left, List.length_append, List.length_singleton]
    cases backwards? last.toNat init.reverse [] <;> rfl

/-- Wherever the cursor stands, a section gives the mappings that its words end with, in their order
and in front of their number, and an empty section gives none. Any other section is ragged, or its
words run out before all mappings are found, and both are faults of the format. In machine words no
index leaves the section on the way, and no product wraps around. -/
theorem ofSection_backward (w : Window) :
    (∀ position, ofSection (w.goto position) = ofSection w) ∧
    (∀ mappings, ofSection w = .ok mappings ↔ w.length = 0 ∧ mappings = [] ∨
      mappings.length < UInt32.size ∧
      (∀ mapping ∈ mappings, mapping.entries.length < UInt32.size) ∧
      ∃ front, w.bytes = wordsBytes (front ++ sectionWords mappings)) ∧
    (∀ fault, ofSection w = .error fault ↔
      w.length % 4 ≠ 0 ∧ fault = .format (.mappingSectionRagged w.length) ∨
      ∃ init count, w.bytes = wordsBytes (init ++ [count]) ∧ Overdrawn init count.toNat ∧
        fault = .format (.mappingsTruncated (w.length / 4))) ∧
    (w.data.size < UInt64.size → w.toMachine.mappings = Machine.answer id (ofSection w)) :=
  ⟨fun _ => rfl, fun _ => ofSection_eq_ok_iff, fun _ => ofSection_eq_error_iff, mappings_toMachine⟩

/-- Behind a word that belongs to no mapping, a mapping without entries and one with an entry. The
cursor stands somewhere between them. -/
theorem ofSection_backward_sample :
    let w := (Window.ofBytes ⟨(wordsBytes [9, 5, 0, 6, 1, 2, 1, 2]).toArray⟩).goto 13
    let mappings : List MetadataMapping := [⟨⟨5⟩, []⟩, ⟨⟨6⟩, [(1, 2)]⟩]
    w.data.size < UInt64.size ∧ ofSection w = .ok mappings ∧
      w.toMachine.mappings = .ok mappings := by
  intro w mappings
  have hsize : w.data.size < UInt64.size := by decide +kernel
  obtain ⟨-, hok, -, hmachine⟩ := ofSection_backward w
  have hread : ofSection w = .ok mappings :=
    (hok mappings).mpr (.inr ⟨by decide, by decide, [9], by decide +kernel⟩)
  refine ⟨hsize, hread, ?_⟩
  rw [hmachine hsize, hread]
  rfl

/-- Two mappings are wanted of words that hold one. The other counts two entries, which are four
words, and has two words in front of it. -/
example : Overdrawn [4, 0, 2, 7, 0] 2 :=
  ⟨[4, 0, 2], [⟨⟨7⟩, []⟩], ⟨rfl, by decide⟩, by decide, .inr ⟨[4, 0], 2, rfl, by decide⟩⟩

end MetadataMapping
end DartKernel
