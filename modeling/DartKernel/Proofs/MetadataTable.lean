import DartKernel.Component.Metadata
import DartKernel.Proofs.Placement
import Mathlib.Data.List.Induction

namespace DartKernel

namespace MetadataMapping

def entryWords (entries : List (UInt32 × UInt32)) : List UInt32 :=
  entries.flatMap fun entry => [entry.1, entry.2]

/-- The words of a mapping: its tag, its entries and their number. -/
def words (it : MetadataMapping) : List UInt32 :=
  it.tag.raw :: entryWords it.entries ++ [it.entries.length.toUInt32]

/-- The words of mappings one after another, and then the number of mappings. -/
def sectionWords (mappings : List MetadataMapping) : List UInt32 :=
  mappings.flatMap words ++ [mappings.length.toUInt32]

theorem length_entryWords (entries : List (UInt32 × UInt32)) :
    (entryWords entries).length = 2 * entries.length := by
  induction entries with
  | nil => rfl
  | cons entry entries ih =>
    rw [entryWords, List.flatMap_cons, List.length_append, ← entryWords, ih, List.length_cons]
    simp only [List.length_cons, List.length_nil]
    omega

theorem pairsOnto_entryWords (entries done : List (UInt32 × UInt32)) :
    pairsOnto (entryWords entries).reverse done = entries ++ done := by
  induction entries using List.reverseRecOn generalizing done with
  | nil => rfl
  | append_singleton entries entry ih =>
    have hwords : (entryWords (entries ++ [entry])).reverse =
        entry.2 :: entry.1 :: (entryWords entries).reverse := by
      simp [entryWords]
    rw [hwords, pairsOnto, ih, List.append_assoc]
    rfl

/-- Mappings at the end of words are read first, the last one before the others, and the words in
front of them are left for those that are still to be read. -/
theorem backwards?_append {mappings : List MetadataMapping}
    (h : ∀ mapping ∈ mappings, mapping.entries.length < UInt32.size) (front : List UInt32)
    (further : Nat) (done : List MetadataMapping) :
    backwards? (mappings.length + further) (front ++ mappings.flatMap words).reverse done =
      backwards? further front.reverse (mappings ++ done) := by
  induction mappings using List.reverseRecOn generalizing done with
  | nil => simp
  | append_singleton mappings mapping ih =>
    have hlast : mapping.entries.length.toUInt32.toNat = mapping.entries.length :=
      UInt32.toNat_ofNat_of_lt' (h mapping (by simp))
    have hlen : 2 * mapping.entries.length.toUInt32.toNat =
        (entryWords mapping.entries).reverse.length := by
      rw [hlast, List.length_reverse, length_entryWords]
    have hwords : (front ++ (mappings ++ [mapping]).flatMap words).reverse =
        mapping.entries.length.toUInt32 :: ((entryWords mapping.entries).reverse ++
          mapping.tag.raw :: (front ++ mappings.flatMap words).reverse) := by
      simp [words]
    have hcount : (mappings ++ [mapping]).length + further = mappings.length + further + 1 := by
      rw [List.length_append, List.length_singleton]
      omega
    rw [hwords, hcount, backwards?, hlen, List.drop_left, List.take_left]
    dsimp only
    rw [pairsOnto_entryWords, List.append_nil,
      ih fun other hother => h other (List.mem_append_left _ hother), List.append_assoc]
    rfl

/-- Mappings have no more entries than words. -/
theorem counts_le_length (mappings : List MetadataMapping) :
    mappings.length ≤ (mappings.flatMap words).length ∧
      ∀ mapping ∈ mappings, mapping.entries.length ≤ (mappings.flatMap words).length := by
  induction mappings with
  | nil => simp
  | cons mapping mappings ih =>
    have hwords : mapping.words.length = 2 * mapping.entries.length + 2 := by
      simp [words, length_entryWords]
    obtain ⟨hlength, hentries⟩ := ih
    rw [List.flatMap_cons, List.length_append, List.length_cons, hwords]
    refine ⟨by omega, ?_⟩
    intro other hother
    rcases List.mem_cons.mp hother with rfl | hother
    · omega
    · have := hentries other hother
      omega

/-- A section of words is read from its last word on. -/
theorem ofSection_concat {w : Window} {init : List UInt32} {count : UInt32}
    (hw : w.bytes = wordsBytes (init ++ [count])) : ofSection w =
      match backwards? count.toNat init.reverse [] with
      | some mappings => .ok mappings
      | none => .error (.format (.mappingsTruncated (init.length + 1))) := by
  have hlength := w.length_bytes
  rw [hw, length_wordsBytes, List.length_append, List.length_singleton] at hlength
  have hwords : (wordsOf w.bytes).reverse = count :: init.reverse := by
    rw [hw, wordsOf_wordsBytes, List.reverse_append]
    rfl
  have hnumber : w.length / 4 = init.length + 1 := by omega
  have hwhole : ¬ w.length % 4 ≠ 0 := by omega
  unfold ofSection
  cases hread : backwards? count.toNat init.reverse [] with
  | none => simp only [if_neg hwhole, hwords, hread, hnumber]
  | some mappings => simp only [if_neg hwhole, hwords, hread]

/-- A section of mappings is read back, whatever words stand before them. -/
theorem ofSection_append {mappings : List MetadataMapping} {w : Window} {front : List UInt32}
    (hcount : mappings.length < UInt32.size)
    (hfits : ∀ mapping ∈ mappings, mapping.entries.length < UInt32.size)
    (hw : w.bytes = wordsBytes (front ++ sectionWords mappings)) : ofSection w = .ok mappings := by
  have hnumber : mappings.length.toUInt32.toNat = mappings.length :=
    UInt32.toNat_ofNat_of_lt' hcount
  rw [sectionWords, ← List.append_assoc] at hw
  rw [ofSection_concat hw, hnumber]
  have hread := backwards?_append hfits front 0 []
  rw [Nat.add_zero, List.append_nil] at hread
  rw [hread, backwards?]

/-- A section whose bytes a word can count is read back. -/
theorem ofSection_eq {mappings : List MetadataMapping} {w : Window}
    (hw : w.bytes = wordsBytes (sectionWords mappings)) (hlt : w.length < UInt32.size) :
    ofSection w = .ok mappings := by
  obtain ⟨hlength, hentries⟩ := counts_le_length mappings
  have hlen := w.length_bytes
  rw [hw, length_wordsBytes, sectionWords, List.length_append] at hlen
  have hfits : ∀ mapping ∈ mappings, mapping.entries.length < UInt32.size := by
    intro mapping hmapping
    have := hentries mapping hmapping
    omega
  have hfront : w.bytes = wordsBytes ([] ++ sectionWords mappings) := hw
  exact ofSection_append (by omega) hfits hfront

end MetadataMapping

namespace Metadata

/-- A key with a new entry behind the others is still free when it was and is not the new one. -/
theorem lookup_concat_eq_none_iff {keyed : List (String × MetadataMapping)} {text key : String}
    {mapping : MetadataMapping} : (keyed ++ [(text, mapping)]).lookup key = none ↔
      keyed.lookup key = none ∧ key ≠ text := by
  rw [List.lookup_append, Option.or_eq_none_iff, List.lookup_cons]
  by_cases he : key = text
  · simp [he]
  · have hbeq : (key == text) = false := beq_false_of_ne he
    rw [hbeq]
    exact and_congr_right fun _ => iff_of_true rfl he

/-- A mapping is keyed by the text of its tag, which has to be free. -/
theorem keyOnto_cons_eq_ok_iff {strings : StringTable} {mapping : MetadataMapping}
    {mappings : List MetadataMapping} {keyed result : List (String × MetadataMapping)} :
    keyOnto strings (mapping :: mappings) keyed = .ok result ↔
      ∃ text, strings.text mapping.tag = .ok text ∧ keyed.lookup text = none ∧
        keyOnto strings mappings (keyed ++ [(text, mapping)]) = .ok result := by
  rw [keyOnto, bind_eq_ok]
  apply exists_congr
  intro text
  apply and_congr_right
  intro _
  cases hfree : keyed.lookup text with
  | none => simp
  | some other =>
    simp only [Option.isSome_some, if_true, reduceCtorEq, false_and, iff_false]
    exact nofun

/-- Mappings are keyed when every tag has a text, and no text stands for two of them. -/
theorem keyOnto_eq_ok_iff {strings : StringTable} {mappings : List MetadataMapping}
    {keyed result : List (String × MetadataMapping)} :
    keyOnto strings mappings keyed = .ok result ↔
      ∃ texts, List.Forall₂ (fun mapping text => strings.text mapping.tag = .ok text) mappings
          texts ∧ texts.Nodup ∧ (∀ text ∈ texts, keyed.lookup text = none) ∧
        result = keyed ++ texts.zip mappings := by
  induction mappings generalizing keyed with
  | nil =>
    rw [keyOnto, Except.ok.injEq]
    constructor
    · intro h
      exact ⟨[], .nil, List.nodup_nil, nofun, by simp [h]⟩
    · intro h
      rcases h with ⟨_, htexts, -, -, rfl⟩
      cases htexts
      simp
  | cons mapping mappings ih =>
    simp only [keyOnto_cons_eq_ok_iff, ih, lookup_concat_eq_none_iff]
    constructor
    · intro h
      obtain ⟨text, htext, hfree, texts, htexts, hnodup, hnone, rfl⟩ := h
      refine ⟨text :: texts, .cons htext htexts, ?_, ?_, by simp⟩
      · exact List.nodup_cons.mpr ⟨fun hin => (hnone text hin).2 rfl, hnodup⟩
      · intro other hother
        rcases List.mem_cons.mp hother with rfl | hother
        · exact hfree
        · exact (hnone other hother).1
    · intro h
      rcases h with ⟨_, htexts, hnodup, hnone, rfl⟩
      cases htexts with
      | cons htext htexts =>
        rename_i text texts
        obtain ⟨hnotin, hnodup⟩ := List.nodup_cons.mp hnodup
        refine ⟨text, htext, hnone text (List.mem_cons_self ..), texts, htexts, hnodup, ?_, by simp⟩
        intro other hother
        exact ⟨hnone other (List.mem_cons_of_mem _ hother), fun he => hnotin (he ▸ hother)⟩

end Metadata
end DartKernel
