import DartKernel.Proofs.Extent
import DartKernel.Proofs.MetadataTable

namespace DartKernel

namespace StringTable

variable {strings : StringTable} {r : StringRef}

/-- A reference that is null or to a string of the table. -/
def Has (strings : StringTable) (r : StringRef) : Prop := ∀ slot ∈ r.slot?, slot < strings.size

instance : Decidable (strings.Has r) :=
  inferInstanceAs (Decidable (∀ slot ∈ r.slot?, slot < strings.size))

def textOf (strings : StringTable) (r : StringRef) : String :=
  (r.slot?.bind (strings.entries[·]?)).getD ""

/-- The text of a reference, if it has one. -/
def text? (strings : StringTable) (r : StringRef) : Option String :=
  r.slot?.bind (strings.entries[·]?)

theorem get_of_has (h : strings.Has r) : strings.get r = .ok (strings.text? r) := by
  unfold get text?
  cases hslot : r.slot? with
  | none => rfl
  | some slot =>
    have hlt : slot < strings.entries.size := h slot hslot
    simp only [Option.bind_some, Array.getElem?_eq_getElem hlt]

theorem get_of_not_has (h : ¬strings.Has r) :
    strings.get r = .error (.invalidReference .string r.raw strings.size) := by
  obtain ⟨slot, hslot, hle⟩ : ∃ slot, r.slot? = some slot ∧ strings.size ≤ slot := by
    simpa [Has] using h
  have hnone : strings.entries[slot]? = none := Array.getElem?_eq_none hle
  unfold get
  simp only [hslot, hnone]

theorem text_of_has (h : strings.Has r) : strings.text r = .ok (strings.textOf r) := by
  rw [text, get_of_has h]
  rfl

theorem text_of_not_has (h : ¬strings.Has r) :
    strings.text r = .error (.invalidReference .string r.raw strings.size) := by
  rw [text, get_of_not_has h]
  rfl

theorem text_eq_ok_iff {text : String} :
    strings.text r = .ok text ↔ strings.Has r ∧ strings.textOf r = text := by
  by_cases h : strings.Has r
  · rw [text_of_has h, Except.ok.injEq, and_iff_right h]
  · rw [text_of_not_has h]
    exact iff_of_false nofun fun hand => h hand.1

end StringTable

namespace Metadata

variable {strings : StringTable} {mapping : MetadataMapping}
  {mappings pre post : List MetadataMapping} {keyed done : List (String × MetadataMapping)}
  {payloads : Window} {metadata : Metadata} {fault : Fault} {tag : String} {node offset : UInt32}

/-- Mappings that can be kept: every tag has a text, and no two have the same. -/
structure Keyable (strings : StringTable) (mappings : List MetadataMapping) : Prop where
  has : ∀ mapping ∈ mappings, strings.Has mapping.tag
  distinct : (mappings.map fun mapping => strings.textOf mapping.tag).Nodup

instance : Decidable (Keyable strings mappings) :=
  decidable_of_iff (_ ∧ _) ⟨fun h => ⟨h.1, h.2⟩, fun h => ⟨h.has, h.distinct⟩⟩

/-- Why a mapping cannot be kept with those before it. -/
inductive Refuses (strings : StringTable) (pre : List MetadataMapping) (mapping : MetadataMapping) :
    Fault → Prop
  | unknown (h : ¬strings.Has mapping.tag) :
    Refuses strings pre mapping (.invalidReference .string mapping.tag.raw strings.size)
  | repeated (h : strings.Has mapping.tag) {other : MetadataMapping} (hother : other ∈ pre)
    (hsame : strings.textOf other.tag = strings.textOf mapping.tag) :
    Refuses strings pre mapping (.format (.metadataTagRepeated (strings.textOf mapping.tag)))

def named (strings : StringTable) (mappings : List MetadataMapping) :
    List (String × MetadataMapping) :=
  mappings.map fun mapping => (strings.textOf mapping.tag, mapping)

@[simp] theorem map_fst_named : (named strings mappings).map Prod.fst =
    mappings.map fun mapping => strings.textOf mapping.tag := by
  simp [named]

@[simp] theorem map_snd_named : (named strings mappings).map Prod.snd = mappings := by
  rw [named, List.map_map]
  exact List.map_id mappings

theorem mem_named_iff : (tag, mapping) ∈ named strings mappings ↔
    mapping ∈ mappings ∧ strings.textOf mapping.tag = tag := by
  simp only [named, List.mem_map, Prod.mk.injEq]
  constructor
  · rintro ⟨_, hmem, htag, rfl⟩
    exact ⟨hmem, htag⟩
  · rintro ⟨hmem, htag⟩
    exact ⟨mapping, hmem, htag, rfl⟩

/-- Keys that differ find what they stand for. -/
theorem lookup_eq_some_iff_mem (h : (keyed.map Prod.fst).Nodup) :
    keyed.lookup tag = some mapping ↔ (tag, mapping) ∈ keyed := by
  rw [List.lookup_eq_some_iff]
  constructor
  · rintro ⟨before, after, rfl, -⟩
    simp
  · intro hmem
    obtain ⟨before, after, rfl⟩ := List.append_of_mem hmem
    refine ⟨before, after, rfl, ?_⟩
    intro entry hentry
    rw [List.map_append, List.map_cons, List.nodup_append] at h
    have hne := h.2.2 _ (List.mem_map_of_mem hentry) tag (List.mem_cons_self ..)
    simpa using hne.symm

theorem keyOnto_nil_eq_ok_iff : keyOnto strings mappings [] = .ok keyed ↔
    Keyable strings mappings ∧ keyed = named strings mappings := by
  have hnamed : (mappings.map fun mapping => strings.textOf mapping.tag).zip mappings =
      named strings mappings := by
    rw [← map_fst_named, ← List.zip_of_prod rfl map_snd_named]
  simp only [keyOnto_eq_ok_iff, StringTable.text_eq_ok_iff, List.forall₂_and_left, List.lookup_nil,
    List.nil_append]
  constructor
  · rintro ⟨texts, ⟨hhas, htexts⟩, hnodup, -, rfl⟩
    rw [← List.forall₂_map_left_iff, List.forall₂_eq_eq_eq] at htexts
    subst htexts
    exact ⟨⟨hhas, hnodup⟩, hnamed⟩
  · rintro ⟨⟨hhas, hnodup⟩, rfl⟩
    refine ⟨_, ⟨hhas, ?_⟩, hnodup, fun _ _ => trivial, hnamed.symm⟩
    rw [← List.forall₂_map_left_iff, List.forall₂_eq_eq_eq]

theorem keyOnto_cons_of_has (h : strings.Has mapping.tag) :
    keyOnto strings (mapping :: mappings) keyed =
      if (keyed.lookup (strings.textOf mapping.tag)).isSome then
        .error (.format (.metadataTagRepeated (strings.textOf mapping.tag)))
      else keyOnto strings mappings (keyed ++ [(strings.textOf mapping.tag, mapping)]) := by
  rw [keyOnto, StringTable.text_of_has h]
  rfl

theorem keyOnto_cons_of_not_has (h : ¬strings.Has mapping.tag) :
    keyOnto strings (mapping :: mappings) keyed =
      .error (.invalidReference .string mapping.tag.raw strings.size) := by
  rw [keyOnto, StringTable.text_of_not_has h]
  rfl

theorem keyOnto_append : keyOnto strings (pre ++ post) keyed =
    keyOnto strings pre keyed >>= keyOnto strings post := by
  induction pre generalizing keyed with
  | nil => rfl
  | cons mapping pre ih =>
    by_cases hhas : strings.Has mapping.tag
    · rw [List.cons_append, keyOnto_cons_of_has hhas, keyOnto_cons_of_has hhas]
      split
      case isTrue => rfl
      case isFalse => exact ih
    · rw [List.cons_append, keyOnto_cons_of_not_has hhas, keyOnto_cons_of_not_has hhas]
      rfl

/-- Mappings that cannot be kept have a first one that cannot. -/
theorem keyOnto_eq_error_iff : keyOnto strings mappings keyed = .error fault ↔
    ∃ pre mapping post done, mappings = pre ++ mapping :: post ∧
      keyOnto strings pre keyed = .ok done ∧ keyOnto strings [mapping] done = .error fault := by
  constructor
  · intro h
    induction mappings generalizing keyed with
    | nil => cases h
    | cons mapping mappings ih =>
      -- Either this mapping is refused or it is one more of those that are kept before the refusal.
      rw [← List.singleton_append, keyOnto_append] at h
      cases hfirst : keyOnto strings [mapping] keyed with
      | error other =>
        rw [hfirst] at h
        cases h
        exact ⟨[], mapping, mappings, keyed, rfl, rfl, hfirst⟩
      | ok done =>
        rw [hfirst] at h
        obtain ⟨pre, last, post, done, rfl, hpre, hlast⟩ := ih h
        refine ⟨mapping :: pre, last, post, done, rfl, ?_, hlast⟩
        rw [← List.singleton_append, keyOnto_append, hfirst]
        exact hpre
  · rintro ⟨pre, mapping, post, done, rfl, hpre, hmapping⟩
    rw [keyOnto_append, hpre]
    change keyOnto strings ([mapping] ++ post) done = _
    rw [keyOnto_append, hmapping]
    rfl

theorem keyOnto_named_eq_error_iff :
    keyOnto strings [mapping] (named strings pre) = .error fault ↔
      Refuses strings pre mapping fault := by
  by_cases hhas : strings.Has mapping.tag
  · have hused : ((named strings pre).lookup (strings.textOf mapping.tag)).isSome ↔
        ∃ other ∈ pre, strings.textOf other.tag = strings.textOf mapping.tag := by
      simp [named, @eq_comm _ (strings.textOf mapping.tag)]
    rw [keyOnto_cons_of_has hhas]
    by_cases hrepeated : ∃ other ∈ pre, strings.textOf other.tag = strings.textOf mapping.tag
    · rw [if_pos (hused.mpr hrepeated)]
      obtain ⟨other, hother, hsame⟩ := hrepeated
      constructor
      · intro h
        cases h
        exact .repeated hhas hother hsame
      · intro h
        cases h with
        | unknown hnot => exact absurd hhas hnot
        | repeated => rfl
    · rw [if_neg (hused.not.mpr hrepeated)]
      refine iff_of_false nofun fun h => ?_
      cases h with
      | unknown hnot => exact hnot hhas
      | repeated _ hother hsame => exact hrepeated ⟨_, hother, hsame⟩
  · rw [keyOnto_cons_of_not_has hhas]
    constructor
    · intro h
      cases h
      exact .unknown hhas
    · intro h
      cases h with
      | unknown => rfl
      | repeated h => exact absurd h hhas

theorem ofMappings_eq_ok_iff : ofMappings payloads mappings strings = .ok metadata ↔
    Keyable strings mappings ∧ metadata = ⟨payloads, named strings mappings⟩ := by
  rw [ofMappings, bind_eq_ok]
  simp only [keyOnto_nil_eq_ok_iff]
  constructor
  · rintro ⟨keyed, ⟨hkeyable, rfl⟩, h⟩
    cases h
    exact ⟨hkeyable, rfl⟩
  · rintro ⟨hkeyable, rfl⟩
    exact ⟨_, ⟨hkeyable, rfl⟩, rfl⟩

theorem ofMappings_eq_error_iff : ofMappings payloads mappings strings = .error fault ↔
    ∃ pre mapping post, mappings = pre ++ mapping :: post ∧ Keyable strings pre ∧
      Refuses strings pre mapping fault := by
  have hkey : ofMappings payloads mappings strings = .error fault ↔
      keyOnto strings mappings [] = .error fault := by
    unfold ofMappings
    cases keyOnto strings mappings [] with
    | error other =>
      change (Except.error other : Except Fault Metadata) = _ ↔ _
      rw [Except.error.injEq, Except.error.injEq]
    | ok keyed => exact iff_of_false nofun nofun
  rw [hkey, keyOnto_eq_error_iff]
  constructor
  · rintro ⟨pre, mapping, post, done, hsplit, hpre, hmapping⟩
    obtain ⟨hkeyable, rfl⟩ := keyOnto_nil_eq_ok_iff.mp hpre
    exact ⟨pre, mapping, post, hsplit, hkeyable, keyOnto_named_eq_error_iff.mp hmapping⟩
  · rintro ⟨pre, mapping, post, hsplit, hkeyable, hmapping⟩
    exact ⟨pre, mapping, post, _, hsplit, keyOnto_nil_eq_ok_iff.mpr ⟨hkeyable, rfl⟩,
      keyOnto_named_eq_error_iff.mpr hmapping⟩

theorem payload_of_none (h : (metadata.mapping? tag).bind (·.payloadOffset? node) = none) :
    metadata.payload tag node = .ok none := by
  rw [payload, h]

/-- A payload reaches from its start to the end of the blob. -/
theorem payload_of_some (h : (metadata.mapping? tag).bind (·.payloadOffset? node) = some offset) :
    if offset.toNat ≤ metadata.payloads.length then
      ∃ v, metadata.payload tag node = .ok (some v) ∧ v.Between metadata.payloads
        (metadata.payloads.base + offset.toNat) (metadata.payloads.base + metadata.payloads.length)
    else
      metadata.payload tag node = .error (metadata.payloads.outOfBounds offset.toNat 0) := by
  have hpayload : metadata.payload tag node =
      (some <$> metadata.payloads.sliceFrom offset.toNat) := by
    rw [payload, h]
    rfl
  rw [hpayload]
  split
  case isTrue hfits =>
    obtain ⟨v, hv⟩ := Window.exists_between (w := metadata.payloads) (Nat.le_add_right _ _)
      (Nat.add_le_add_left hfits _) (Nat.le_refl _)
    refine ⟨v, ?_, hv⟩
    rw [Window.sliceFrom_eq_ok_iff.mpr hv]
    rfl
  case isFalse hover =>
    rw [Window.sliceFrom, if_neg hover]
    rfl

theorem payload_eq_none_iff : metadata.payload tag node = .ok none ↔
    (metadata.mapping? tag).bind (·.payloadOffset? node) = none := by
  refine ⟨?_, payload_of_none⟩
  intro h
  cases hoffset : (metadata.mapping? tag).bind (·.payloadOffset? node) with
  | none => rfl
  | some offset =>
    have hpayload := payload_of_some hoffset
    rw [h] at hpayload
    split at hpayload
    case isTrue =>
      obtain ⟨v, heq, -⟩ := hpayload
      cases heq
    case isFalse => cases hpayload

theorem payloadOffset?_eq_some_iff : mapping.payloadOffset? node = some offset ↔
    ∃ before after, mapping.entries = before ++ (node, offset) :: after ∧
      ∀ entry ∈ before, entry.1 ≠ node := by
  rw [MetadataMapping.payloadOffset?, List.lookup_eq_some_iff]
  simp only [bne_iff_ne, @ne_comm _ node]

theorem payloadOffset?_eq_none_iff :
    mapping.payloadOffset? node = none ↔ ∀ entry ∈ mapping.entries, entry.1 ≠ node := by
  rw [MetadataMapping.payloadOffset?, List.lookup_eq_none_iff]
  simp only [bne_iff_ne, @ne_comm _ node]

/-- Mappings are kept when every tag is null or in the table and no two have the same text, and then
they are found by these, in the order of the file; else the first one that cannot be kept is
refused. What is attached to a node is where the first entry for the node points: the blob from
there on, or a fault when the blob ends before. -/
theorem lookups_exact (payloads : Window) (mappings : List MetadataMapping)
    (strings : StringTable) :
    ((∃ metadata, ofMappings payloads mappings strings = .ok metadata) ↔
      Keyable strings mappings) ∧
    (∀ fault, ofMappings payloads mappings strings = .error fault ↔
      ∃ pre mapping post, mappings = pre ++ mapping :: post ∧ Keyable strings pre ∧
        Refuses strings pre mapping fault) ∧
    ∀ metadata, ofMappings payloads mappings strings = .ok metadata →
      metadata.payloads = payloads ∧
      metadata.mappings.map Prod.fst = mappings.map (fun mapping => strings.textOf mapping.tag) ∧
      metadata.mappings.map Prod.snd = mappings ∧
      (∀ tag mapping, metadata.mapping? tag = some mapping ↔
        mapping ∈ mappings ∧ strings.textOf mapping.tag = tag) ∧
      ∀ tag node,
        (metadata.payload tag node = .ok none ↔
          ∀ mapping ∈ mappings, strings.textOf mapping.tag = tag →
            ∀ entry ∈ mapping.entries, entry.1 ≠ node) ∧
        ∀ mapping ∈ mappings, strings.textOf mapping.tag = tag → ∀ before offset after,
          mapping.entries = before ++ (node, offset) :: after →
          (∀ entry ∈ before, entry.1 ≠ node) →
          if offset.toNat ≤ payloads.length then
            ∃ v, metadata.payload tag node = .ok (some v) ∧
              v.Between payloads (payloads.base + offset.toNat) (payloads.base + payloads.length)
          else metadata.payload tag node = .error (payloads.outOfBounds offset.toNat 0) := by
  refine ⟨?_, fun fault => ofMappings_eq_error_iff, ?_⟩
  · simp only [ofMappings_eq_ok_iff, exists_and_left, exists_eq, and_true]
  intro metadata h
  obtain ⟨hkeyable, rfl⟩ := ofMappings_eq_ok_iff.mp h
  have hfind : ∀ tag mapping,
      Metadata.mapping? ⟨payloads, named strings mappings⟩ tag = some mapping ↔
      mapping ∈ mappings ∧ strings.textOf mapping.tag = tag := fun tag mapping =>
    (lookup_eq_some_iff_mem (map_fst_named ▸ hkeyable.distinct)).trans mem_named_iff
  refine ⟨rfl, map_fst_named, map_snd_named, hfind, ?_⟩
  intro tag node
  constructor
  · simp only [payload_eq_none_iff, Option.bind_eq_none_iff, hfind, payloadOffset?_eq_none_iff,
      and_imp]
  · intro mapping hmapping htag before offset after hentries hbefore
    apply @payload_of_some ⟨payloads, named strings mappings⟩
    rw [(hfind tag mapping).mpr ⟨hmapping, htag⟩, Option.bind_some]
    exact payloadOffset?_eq_some_iff.mpr ⟨before, after, hentries, hbefore⟩

/-- Of two entries for a node the first counts. The null reference and one to the empty string are
the same tag. -/
theorem lookups_exact_repeated :
    let payloads : Window := ⟨⟨#[9, 1, 2, 3]⟩, 1, 3, 0, by decide, by decide⟩
    let strings := StringTable.ofList ["", "a"]
    (∃ metadata v, ofMappings payloads [⟨⟨0⟩, []⟩, ⟨⟨2⟩, [(7, 2), (7, 4)]⟩] strings = .ok metadata ∧
      metadata.payload "a" 7 = .ok (some v) ∧ v.Between payloads 3 4) ∧
    ofMappings payloads [⟨⟨0⟩, []⟩, ⟨⟨1⟩, []⟩] strings =
      .error (.format (.metadataTagRepeated "")) := by
  intro payloads strings
  obtain ⟨-, -, hkept⟩ :=
    lookups_exact payloads [⟨⟨0⟩, []⟩, ⟨⟨2⟩, [(7, 2), (7, 4)]⟩] strings
  obtain ⟨-, hrefused, -⟩ := lookups_exact payloads [⟨⟨0⟩, []⟩, ⟨⟨1⟩, []⟩] strings
  obtain ⟨-, -, -, -, hpayload⟩ := hkept _ rfl
  have hsecond := (hpayload "a" 7).2 ⟨⟨2⟩, [(7, 2), (7, 4)]⟩ (by simp) rfl [] 2 [(7, 4)] rfl nofun
  rw [if_pos (by decide)] at hsecond
  obtain ⟨v, hv, hbetween⟩ := hsecond
  refine ⟨⟨_, v, rfl, hv, hbetween⟩, (hrefused _).mpr ?_⟩
  exact ⟨[⟨⟨0⟩, []⟩], ⟨⟨1⟩, []⟩, [], rfl, by decide,
    .repeated (by decide) (List.mem_singleton_self _) rfl⟩

end Metadata
end DartKernel
