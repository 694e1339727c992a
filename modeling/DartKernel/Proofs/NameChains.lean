import DartKernel.Proofs.MetadataLookup
import Mathlib.Data.Finset.Card
import Mathlib.Order.Interval.Finset.Nat

namespace DartKernel
namespace CanonicalNames

variable {strings : StringTable} {names : CanonicalNames} {r s start : NameRef}
  {entry : CanonicalName} {below : List String} {budget count i j k m : Nat} {fault : Fault}

def entryAt? (names : CanonicalNames) (r : NameRef) : Option CanonicalName :=
  r.slot?.bind (names.entries[·]?)

theorem get_of_entry (h : names.entryAt? r = some entry) : names.get r = .ok (some entry) := by
  obtain ⟨slot, hslot, hentry⟩ := Option.bind_eq_some_iff.mp h
  simp only [get, hslot, hentry]

theorem get_of_unknown (h : names.size < r.raw.toNat) :
    names.get r = .error (.invalidReference .canonicalName r.raw names.size) := by
  have hne : r.raw ≠ 0 := by
    intro h0
    rw [h0] at h
    exact Nat.not_lt_zero _ h
  have hnone : names.entries[r.raw.toNat - 1]? = none :=
    Array.getElem?_eq_none (by change names.size ≤ _; omega)
  simp only [get, Ref.slot?, if_neg hne, hnone]

theorem entryAt?_null : names.entryAt? ⟨0⟩ = none := rfl

/-- A reference to an entry counts from one. -/
theorem raw_of_entry (h : names.entryAt? r = some entry) :
    0 < r.raw.toNat ∧ r.raw.toNat ≤ names.size := by
  obtain ⟨slot, hslot, hentry⟩ := Option.bind_eq_some_iff.mp h
  have hlt : slot < names.size := (Array.getElem?_eq_some_iff.mp hentry).1
  by_cases h0 : r.raw = 0
  · simp [Ref.slot?, h0] at hslot
  · have hpos : 0 < r.raw.toNat := Nat.pos_of_ne_zero fun h => h0 (UInt32.toNat_inj.mp h)
    simp only [Ref.slot?, if_neg h0, Option.some.injEq] at hslot
    omega

/-- A reference is null, to an entry, or out of range. -/
theorem ref_cases (names : CanonicalNames) (r : NameRef) :
    r = ⟨0⟩ ∨ (∃ entry, names.entryAt? r = some entry) ∨ names.size < r.raw.toNat := by
  by_cases h0 : r.raw = 0
  · obtain ⟨raw⟩ := r
    exact Or.inl (congrArg Ref.mk h0)
  by_cases hlt : r.raw.toNat - 1 < names.entries.size
  · refine Or.inr (Or.inl ⟨names.entries[r.raw.toNat - 1], ?_⟩)
    simp only [entryAt?, Ref.slot?, if_neg h0, Option.bind_some, Array.getElem?_eq_getElem hlt]
  · have hpos : 0 < r.raw.toNat := Nat.pos_of_ne_zero fun h => h0 (UInt32.toNat_inj.mp h)
    refine Or.inr (Or.inr ?_)
    change names.entries.size < _
    omega

/-- The walk goes on from a reference to an entry whose name is null or in the string table. -/
def Passes (strings : StringTable) (names : CanonicalNames) (r : NameRef) : Prop :=
  ∃ entry, names.entryAt? r = some entry ∧ strings.Has entry.name

inductive Refuses (strings : StringTable) (names : CanonicalNames) (r : NameRef) : Fault → Prop
  | unknown (h : names.size < r.raw.toNat) :
    Refuses strings names r (.invalidReference .canonicalName r.raw names.size)
  | text {entry : CanonicalName} (h : names.entryAt? r = some entry)
    (hname : ¬strings.Has entry.name) :
    Refuses strings names r (.invalidReference .string entry.name.raw strings.size)

/-- The walk is over at the null reference, goes on, or is refused. -/
theorem walk_cases (strings : StringTable) (names : CanonicalNames) (r : NameRef) :
    r = ⟨0⟩ ∨ Passes strings names r ∨ ∃ fault, Refuses strings names r fault := by
  rcases ref_cases names r with hnull | ⟨entry, hentry⟩ | hunknown
  · exact Or.inl hnull
  · by_cases hname : strings.Has entry.name
    · exact Or.inr (Or.inl ⟨entry, hentry, hname⟩)
    · exact Or.inr (Or.inr ⟨_, .text hentry hname⟩)
  · exact Or.inr (Or.inr ⟨_, .unknown hunknown⟩)

theorem Passes.not_refuses (h : Passes strings names r) : ¬Refuses strings names r fault := by
  obtain ⟨entry, hentry, hname⟩ := h
  intro hrefuses
  cases hrefuses with
  | unknown hunknown => exact absurd hunknown (Nat.not_lt.mpr (raw_of_entry hentry).2)
  | text hother hnot =>
    obtain rfl := Option.some.inj (hentry.symm.trans hother)
    exact hnot hname

theorem not_passes_null : ¬Passes strings names ⟨0⟩ := by
  rintro ⟨entry, hentry, -⟩
  cases hentry

/-- The reference that many parents up the chain, unless the chain has come to its end before. -/
def ancestor? (names : CanonicalNames) (r : NameRef) : Nat → Option NameRef
  | 0 => some r
  | count + 1 => ((names.ancestor? r count).bind names.entryAt?).map (·.parent)

/-- Equal references have the same ancestors. -/
theorem ancestor?_add (h : names.ancestor? r i = names.ancestor? r j) (count : Nat) :
    names.ancestor? r (i + count) = names.ancestor? r (j + count) := by
  induction count with
  | zero => exact h
  | succ count ih => rw [← Nat.add_assoc, ← Nat.add_assoc, ancestor?, ancestor?, ih]

/-- The chain ends at the first reference that is not to an entry. -/
theorem ancestor?_eq_none (hend : (names.ancestor? r m).bind names.entryAt? = none) (h : m < k) :
    names.ancestor? r k = none := by
  induction k, h using Nat.le_induction with
  | base => rw [ancestor?, hend, Option.map_none]
  | succ k hk ih => rw [ancestor?, ih, Option.bind_none, Option.map_none]

theorem ancestor?_of_null_lt (hend : names.ancestor? r m = some ⟨0⟩) (h : m < k) :
    names.ancestor? r k = none :=
  ancestor?_eq_none (by rw [hend, Option.bind_some, entryAt?_null]) h

theorem exists_entry_of_lt (hs : names.ancestor? r k = some s) (h : m < k) :
    ∃ t entry, names.ancestor? r m = some t ∧ names.entryAt? t = some entry := by
  cases hend : (names.ancestor? r m).bind names.entryAt? with
  | none =>
    rw [ancestor?_eq_none hend h] at hs
    cases hs
  | some entry =>
    obtain ⟨t, ht, hentry⟩ := Option.bind_eq_some_iff.mp hend
    exact ⟨t, entry, ht, hentry⟩

/-- The chain of a reference is that of its parent behind it. -/
theorem ancestor?_succ (hentry : names.entryAt? r = some entry) (count : Nat) :
    names.ancestor? r (count + 1) = names.ancestor? entry.parent count := by
  induction count with
  | zero => simp only [ancestor?, Option.bind_some, hentry, Option.map_some]
  | succ count ih => rw [ancestor?, ih, ancestor?]

/-- A chain comes back to where it has been before. -/
def Cyclic (names : CanonicalNames) (r : NameRef) : Prop :=
  ∃ i j, i < j ∧ (names.ancestor? r i).isSome ∧ names.ancestor? r i = names.ancestor? r j

/-- What comes back never ends: the end would come again. -/
theorem Cyclic.ne_null (h : Cyclic names r) (m : Nat) : names.ancestor? r m ≠ some ⟨0⟩ := by
  obtain ⟨i, j, hlt, hsome, heq⟩ := h
  intro hend
  have hle : i ≤ m := by
    by_contra hover
    rw [ancestor?_of_null_lt hend (Nat.lt_of_not_le hover)] at hsome
    cases hsome
  have hagain : names.ancestor? r (j + (m - i)) = some ⟨0⟩ := by
    rw [← ancestor?_add heq, Nat.add_sub_cancel' hle, hend]
  rw [ancestor?_of_null_lt hend (by omega)] at hagain
  cases hagain

/-- What passes each entry once does not come back. -/
theorem not_cyclic_of_once
    (h : ∀ slot < names.size, ∃! k, (names.ancestor? r k).bind (·.slot?) = some slot) :
    ¬Cyclic names r := by
  rintro ⟨i, j, hlt, hsome, heq⟩
  obtain ⟨t, ht⟩ := Option.isSome_iff_exists.mp (heq ▸ hsome)
  obtain ⟨s, entry, hs, hentry⟩ := exists_entry_of_lt ht hlt
  obtain ⟨slot, hslot, hfound⟩ := Option.bind_eq_some_iff.mp hentry
  have hsize : slot < names.size := (Array.getElem?_eq_some_iff.mp hfound).1
  have hi : (names.ancestor? r i).bind (·.slot?) = some slot := by
    rw [hs, Option.bind_some, hslot]
  exact Nat.ne_of_lt hlt ((h slot hsize).unique hi (heq ▸ hi))

/-- The first references of the chain, up to a number of them, all let the walk go on. -/
def PassesBelow (strings : StringTable) (names : CanonicalNames) (r : NameRef) (count : Nat) :
    Prop :=
  ∀ k < count, ∃ s, names.ancestor? r k = some s ∧ Passes strings names s

theorem PassesBelow.ancestor? (h : PassesBelow strings names r count) :
    ∃ s, names.ancestor? r count = some s := by
  cases count with
  | zero => exact ⟨r, rfl⟩
  | succ count =>
    obtain ⟨s, hs, entry, hentry, -⟩ := h count (Nat.lt_succ_self count)
    exact ⟨entry.parent, by rw [CanonicalNames.ancestor?, hs, Option.bind_some, hentry]; rfl⟩

/-- More references than there are entries are not all different. -/
theorem PassesBelow.exists_eq (h : PassesBelow strings names r count) (hlt : names.size < count) :
    ∃ i j, i < j ∧ j < count ∧ (names.ancestor? r i).isSome ∧
      names.ancestor? r i = names.ancestor? r j := by
  let raw (k : Nat) : Nat := ((names.ancestor? r k).map (·.raw.toNat)).getD 0
  have hraw : ∀ k ∈ Finset.range count, raw k ∈ Finset.Icc 1 names.size := by
    intro k hk
    obtain ⟨s, hs, entry, hentry, -⟩ := h k (Finset.mem_range.mp hk)
    have heq : raw k = s.raw.toNat := by
      simp only [raw, hs, Option.map_some, Option.getD_some]
    rw [Finset.mem_Icc, heq]
    exact raw_of_entry hentry
  have hcard : (Finset.Icc 1 names.size).card < (Finset.range count).card := by
    rw [Nat.card_Icc, Finset.card_range]
    omega
  obtain ⟨i, hi, j, hj, hne, heq⟩ :=
    Finset.exists_ne_map_eq_of_card_lt_of_maps_to hcard hraw
  obtain ⟨s, hs, -⟩ := h i (Finset.mem_range.mp hi)
  obtain ⟨t, ht, -⟩ := h j (Finset.mem_range.mp hj)
  have hst : s = t := by
    simp only [raw, hs, ht, Option.map_some, Option.getD_some] at heq
    obtain ⟨a⟩ := s
    obtain ⟨b⟩ := t
    exact congrArg Ref.mk (UInt32.toNat_inj.mp heq)
  have hsame : names.ancestor? r i = names.ancestor? r j := by rw [hs, ht, hst]
  rcases Nat.lt_or_gt_of_ne hne with hij | hji
  · exact ⟨i, j, hij, Finset.mem_range.mp hj, by rw [hs]; rfl, hsame⟩
  · exact ⟨j, i, hji, Finset.mem_range.mp hi, by rw [ht]; rfl, hsame.symm⟩

/-- The first reference at which the walk does not go on comes before there are more steps than
entries: else the references before it would have come round to it. -/
theorem PassesBelow.count_le (h : PassesBelow strings names r count)
    (hs : names.ancestor? r count = some s) (hstops : ¬Passes strings names s) :
    count ≤ names.size := by
  by_contra hover
  obtain ⟨i, j, hij, hj, -, heq⟩ := h.exists_eq (Nat.lt_of_not_le hover)
  have hagain := ancestor?_add heq (count - j)
  rw [Nat.add_sub_cancel' (Nat.le_of_lt hj), hs] at hagain
  obtain ⟨t, ht, hpasses⟩ := h (i + (count - j)) (by omega)
  obtain rfl := Option.some.inj (hagain.symm.trans ht)
  exact hstops hpasses

/-- A walk comes to the null reference, or to a first reference that is refused, or goes on for
ever. -/
theorem walk_outcomes (strings : StringTable) (names : CanonicalNames) (r : NameRef) :
    (∃ count, PassesBelow strings names r count ∧ names.ancestor? r count = some ⟨0⟩) ∨
    (∃ count s fault, PassesBelow strings names r count ∧ names.ancestor? r count = some s ∧
      Refuses strings names s fault) ∨
    ∀ count, PassesBelow strings names r count := by
  by_cases hall : ∀ k, ∃ s, names.ancestor? r k = some s ∧ Passes strings names s
  · exact Or.inr (Or.inr fun _ k _ => hall k)
  classical
  have hstops := not_forall.mp hall
  have hbelow : PassesBelow strings names r (Nat.find hstops) := fun k hk =>
    not_not.mp (Nat.find_min hstops hk)
  obtain ⟨s, hs⟩ := hbelow.ancestor?
  rcases walk_cases strings names s with rfl | hpasses | ⟨fault, hrefuses⟩
  · exact Or.inl ⟨_, hbelow, hs⟩
  · exact absurd ⟨s, hs, hpasses⟩ (Nat.find_spec hstops)
  · exact Or.inr (Or.inl ⟨_, s, fault, hbelow, hs, hrefuses⟩)

/-- A reference that the walk goes on from is not refused. -/
theorem PassesBelow.not_refuses (h : PassesBelow strings names r count) (hk : k < count)
    (hs : names.ancestor? r k = some s) : ¬Refuses strings names s fault := by
  obtain ⟨t, ht, hpasses⟩ := h k hk
  obtain rfl := Option.some.inj (hs.symm.trans ht)
  exact hpasses.not_refuses

/-- A walk that never goes on to the end comes back. -/
theorem cyclic_of_forever (h : ∀ count, PassesBelow strings names r count) : Cyclic names r := by
  obtain ⟨i, j, hij, -, hsome, heq⟩ := (h (names.size + 1)).exists_eq (Nat.lt_succ_self _)
  exact ⟨i, j, hij, hsome, heq⟩

/-- Up to a reference of the chain the walk goes on, if nothing is refused before. -/
theorem passesBelow_of_not_refuses (hs : names.ancestor? r count = some s)
    (h : ∀ k < count, ∀ t, names.ancestor? r k = some t → ∀ other,
      ¬Refuses strings names t other) : PassesBelow strings names r count := by
  intro k hk
  obtain ⟨t, entry, ht, hentry⟩ := exists_entry_of_lt hs hk
  refine ⟨t, ht, ?_⟩
  rcases walk_cases strings names t with rfl | hpasses | ⟨other, hrefuses⟩
  · cases hentry
  · exact hpasses
  · exact absurd hrefuses (h k hk t ht other)

theorem passesBelow_succ_iff (hentry : names.entryAt? r = some entry) :
    PassesBelow strings names r (count + 1) ↔
      strings.Has entry.name ∧ PassesBelow strings names entry.parent count := by
  constructor
  · intro h
    obtain ⟨s, hs, other, hother, hname⟩ := h 0 (Nat.succ_pos count)
    obtain rfl := Option.some.inj hs
    obtain rfl := Option.some.inj (hentry.symm.trans hother)
    refine ⟨hname, fun k hk => ?_⟩
    rw [← ancestor?_succ hentry]
    exact h (k + 1) (Nat.succ_lt_succ hk)
  · rintro ⟨hname, h⟩ k hk
    cases k with
    | zero => exact ⟨r, rfl, entry, hentry, hname⟩
    | succ k =>
      rw [ancestor?_succ hentry]
      exact h k (Nat.lt_of_succ_lt_succ hk)

/-- The texts that are met in that many steps up a chain, from the root down. -/
def segments (strings : StringTable) (names : CanonicalNames) (r : NameRef) (count : Nat) :
    List String :=
  ((List.range count).filterMap fun k =>
    ((names.ancestor? r k).bind names.entryAt?).bind fun entry => strings.text? entry.name).reverse

theorem segments_succ (hs : names.ancestor? r count = some s)
    (hentry : names.entryAt? s = some entry) : segments strings names r (count + 1) =
      (strings.text? entry.name).toList ++ segments strings names r count := by
  have hlast : ((names.ancestor? r count).bind names.entryAt?).bind
      (fun entry => strings.text? entry.name) = strings.text? entry.name := by
    rw [hs, Option.bind_some, hentry, Option.bind_some]
  rw [segments, List.range_succ, List.filterMap_append, List.reverse_append, ← segments,
    List.filterMap_cons, hlast]
  cases strings.text? entry.name <;> rfl

theorem chain_null : chain strings names start budget ⟨0⟩ below = .ok below := by
  unfold chain
  rfl

theorem chain_passes (hentry : names.entryAt? r = some entry) (hname : strings.Has entry.name) :
    chain strings names start (budget + 1) r below = chain strings names start budget entry.parent
      ((strings.text? entry.name).toList ++ below) := by
  rw [chain, get_of_entry hentry]
  change (strings.get entry.name >>= _) = _
  rw [StringTable.get_of_has hname]
  rfl

theorem chain_refuses (h : Refuses strings names r fault) :
    chain strings names start (budget + 1) r below = .error fault := by
  rw [chain]
  cases h with
  | unknown hunknown => rw [get_of_unknown hunknown]; rfl
  | text hentry hname =>
    rw [get_of_entry hentry]
    change (strings.get _ >>= _) = _
    rw [StringTable.get_of_not_has hname]
    rfl

theorem chain_exhausted (h : Passes strings names r) :
    chain strings names start 0 r below = .error (.format (.endlessNameChain start.raw)) := by
  obtain ⟨entry, hentry, -⟩ := h
  rw [chain, get_of_entry hentry]
  rfl

/-- A walk that goes on for some steps is the walk from where these lead. -/
theorem chain_advance (h : PassesBelow strings names r count)
    (hs : names.ancestor? r count = some s) :
    chain strings names start (budget + count) r [] =
      chain strings names start budget s (segments strings names r count) := by
  induction count generalizing budget s with
  | zero =>
    obtain rfl := Option.some.inj hs
    rfl
  | succ count ih =>
    obtain ⟨t, ht, entry, hentry, hname⟩ := h count (Nat.lt_succ_self count)
    have hparent : s = entry.parent := by
      rw [ancestor?, ht, Option.bind_some, hentry] at hs
      exact (Option.some.inj hs).symm
    have hbelow : PassesBelow strings names r count := fun k hk => h k (Nat.lt_succ_of_lt hk)
    rw [show budget + (count + 1) = (budget + 1) + count by omega, ih hbelow ht,
      chain_passes hentry hname, segments_succ ht hentry, hparent]

def joined : List String → Option String
  | [] => none
  | segments => some (String.intercalate "." segments)

theorem resolve_of_chain : resolve strings names r =
    joined <$> chain strings names r (names.size + 1) r [] := by
  unfold resolve
  cases chain strings names r (names.size + 1) r [] with
  | error fault => rfl
  | ok segments => cases segments <;> rfl

/-- A chain that ends is not longer than the table, so the walk gets to its end. -/
theorem resolve_of_end (h : PassesBelow strings names r count)
    (hend : names.ancestor? r count = some ⟨0⟩) :
    resolve strings names r = .ok (joined (segments strings names r count)) := by
  have hle := h.count_le hend not_passes_null
  rw [resolve_of_chain, show names.size + 1 = (names.size + 1 - count) + count by omega,
    chain_advance h hend, chain_null]
  rfl

/-- A walk that is refused is not cut off before. -/
theorem resolve_of_refused (h : PassesBelow strings names r count)
    (hs : names.ancestor? r count = some s) (hrefuses : Refuses strings names s fault) :
    resolve strings names r = .error fault := by
  have hle := h.count_le hs fun hpasses => hpasses.not_refuses hrefuses
  rw [resolve_of_chain, show names.size + 1 = (names.size - count + 1) + count by omega,
    chain_advance h hs, chain_refuses hrefuses]
  rfl

theorem resolve_of_forever (h : ∀ count, PassesBelow strings names r count) :
    resolve strings names r = .error (.format (.endlessNameChain r.raw)) := by
  obtain ⟨s, hs, hpasses⟩ := h (names.size + 2) (names.size + 1) (Nat.lt_succ_self _)
  rw [resolve_of_chain, ← Nat.zero_add (names.size + 1), chain_advance (h _) hs,
    chain_exhausted hpasses]
  rfl

def qualified : Option String → Option String → Option String
  | owner, none => owner
  | none, some text => some text
  | some owner, some text => some (owner ++ "." ++ text)

/-- Full names by recursion: nothing for the null reference, else the text of the entry behind the
full name of its parent. -/
inductive HasName (strings : StringTable) (names : CanonicalNames) : NameRef → Option String → Prop
  | null : HasName strings names ⟨0⟩ none
  | entry {r : NameRef} {entry : CanonicalName} {owner : Option String} :
    names.entryAt? r = some entry → strings.Has entry.name →
    HasName strings names entry.parent owner →
    HasName strings names r (qualified owner (strings.text? entry.name))

theorem joined_append (above : List String) (text : Option String) :
    joined (above ++ text.toList) = qualified (joined above) text := by
  cases text with
  | none => rw [Option.toList_none, List.append_nil, qualified]
  | some text =>
    cases above with
    | nil => exact congrArg some String.intercalate_singleton
    | cons first above =>
      refine congrArg some ?_
      change String.intercalate "." ((first :: above) ++ [text]) = _
      rw [String.intercalate_append_of_ne_nil (List.cons_ne_nil _ _) (List.cons_ne_nil _ _),
        String.intercalate_singleton]

theorem segments_of_entry (hentry : names.entryAt? r = some entry) :
    segments strings names r (count + 1) =
      segments strings names entry.parent count ++ (strings.text? entry.name).toList := by
  have hfirst : ((names.ancestor? r 0).bind names.entryAt?).bind
      (fun entry => strings.text? entry.name) = strings.text? entry.name := by
    rw [ancestor?, Option.bind_some, hentry, Option.bind_some]
  rw [segments, segments, List.range_succ_eq_map, List.filterMap_cons, hfirst,
    List.filterMap_map]
  simp only [Function.comp_def, ancestor?_succ hentry]
  cases strings.text? entry.name <;> simp

/-- A name by recursion is that of a chain that ends. -/
theorem hasName_iff {name : Option String} : HasName strings names r name ↔
    ∃ count, PassesBelow strings names r count ∧ names.ancestor? r count = some ⟨0⟩ ∧
      name = joined (segments strings names r count) := by
  constructor
  · intro h
    induction h with
    | null => exact ⟨0, nofun, rfl, rfl⟩
    | entry hentry hname _ ih =>
      obtain ⟨count, hbelow, hend, rfl⟩ := ih
      refine ⟨count + 1, (passesBelow_succ_iff hentry).mpr ⟨hname, hbelow⟩, ?_, ?_⟩
      · rw [ancestor?_succ hentry, hend]
      · rw [segments_of_entry hentry, joined_append]
  · rintro ⟨count, hbelow, hend, rfl⟩
    induction count generalizing r with
    | zero =>
      obtain rfl := Option.some.inj hend
      exact .null
    | succ count ih =>
      obtain ⟨s, hs, entry, hentry, -⟩ := hbelow 0 (Nat.succ_pos count)
      obtain rfl := Option.some.inj hs
      obtain ⟨hname, hparent⟩ := (passesBelow_succ_iff hentry).mp hbelow
      rw [segments_of_entry hentry, joined_append]
      exact .entry hentry hname (ih hparent (ancestor?_succ hentry count ▸ hend))

/-- A reference is resolved exactly when its chain ends and nothing on it is refused. -/
theorem resolve_eq_ok_iff {name : Option String} : resolve strings names r = .ok name ↔
    ∃ count, PassesBelow strings names r count ∧ names.ancestor? r count = some ⟨0⟩ ∧
      name = joined (segments strings names r count) := by
  constructor
  · intro h
    rcases walk_outcomes strings names r with
      ⟨count, hbelow, hend⟩ | ⟨count, s, fault, hbelow, hs, hrefuses⟩ | hforever
    · rw [resolve_of_end hbelow hend] at h
      exact ⟨count, hbelow, hend, (Except.ok.inj h).symm⟩
    · rw [resolve_of_refused hbelow hs hrefuses] at h
      cases h
    · rw [resolve_of_forever hforever] at h
      cases h
  · rintro ⟨count, hbelow, hend, rfl⟩
    exact resolve_of_end hbelow hend

/-- A reference is not resolved exactly when something on its chain is refused, which is told of the
first such thing, or nothing is and the chain comes back. -/
theorem resolve_eq_error_iff : resolve strings names r = .error fault ↔
    (∃ count s, names.ancestor? r count = some s ∧ Refuses strings names s fault ∧
      ∀ k < count, ∀ t, names.ancestor? r k = some t → ∀ other, ¬Refuses strings names t other) ∨
    (fault = .format (.endlessNameChain r.raw) ∧ Cyclic names r ∧
      ∀ k s other, names.ancestor? r k = some s → ¬Refuses strings names s other) := by
  constructor
  · intro h
    rcases walk_outcomes strings names r with
      ⟨count, hbelow, hend⟩ | ⟨count, s, found, hbelow, hs, hrefuses⟩ | hforever
    · rw [resolve_of_end hbelow hend] at h
      cases h
    · rw [resolve_of_refused hbelow hs hrefuses] at h
      cases h
      exact Or.inl ⟨count, s, hs, hrefuses, fun k hk t ht _ => hbelow.not_refuses hk ht⟩
    · rw [resolve_of_forever hforever] at h
      cases h
      exact Or.inr ⟨rfl, cyclic_of_forever hforever, fun k s _ hs =>
        (hforever (k + 1)).not_refuses (Nat.lt_succ_self k) hs⟩
  · rintro (⟨count, s, hs, hrefuses, hfirst⟩ | ⟨rfl, hcyclic, hnone⟩)
    · exact resolve_of_refused (passesBelow_of_not_refuses hs hfirst) hs hrefuses
    · rcases walk_outcomes strings names r with
        ⟨count, -, hend⟩ | ⟨count, s, found, -, hs, hrefuses⟩ | hforever
      · exact absurd hend (hcyclic.ne_null count)
      · exact absurd hrefuses (hnone count s found hs)
      · exact resolve_of_forever hforever

/-- A reference is resolved when its chain comes to the null reference over entries of the table
whose names are null or in the string table. The name is then that of the recursion, the texts of
the chain from the root down. Else what is reported is the first thing on the chain that is out of
range, and only when there is none, that the chain comes back. The budget of the walk cuts off no
chain that ends, be it as long as the table. -/
theorem resolve_follows_chain (strings : StringTable) (names : CanonicalNames) (r : NameRef) :
    ((∃ name, resolve strings names r = .ok name) ↔
      ∃ count, names.ancestor? r count = some ⟨0⟩ ∧ ∀ k < count, ∃ s entry,
        names.ancestor? r k = some s ∧ s.raw.toNat ≤ names.size ∧
        names.entryAt? s = some entry ∧ strings.Has entry.name) ∧
    (∀ name count, resolve strings names r = .ok name → names.ancestor? r count = some ⟨0⟩ →
      name = joined (segments strings names r count)) ∧
    (∀ name, resolve strings names r = .ok name ↔ HasName strings names r name) ∧
    (∀ fault, resolve strings names r = .error fault ↔
      (∃ count s, names.ancestor? r count = some s ∧ Refuses strings names s fault ∧
        ∀ k < count, ∀ t, names.ancestor? r k = some t →
          ∀ other, ¬Refuses strings names t other) ∨
      (fault = .format (.endlessNameChain r.raw) ∧ Cyclic names r ∧
        ∀ k s other, names.ancestor? r k = some s → ¬Refuses strings names s other)) ∧
    ((∀ slot < names.size, ∃! k, (names.ancestor? r k).bind (·.slot?) = some slot) →
      resolve strings names r ≠ .error (.format (.endlessNameChain r.raw)) ∧
      ((∀ k s fault, names.ancestor? r k = some s → ¬Refuses strings names s fault) →
        ∃ name, resolve strings names r = .ok name)) := by
  refine ⟨?_, ?_, ?_, fun fault => resolve_eq_error_iff, ?_⟩
  · simp only [resolve_eq_ok_iff]
    constructor
    · rintro ⟨-, count, hbelow, hend, -⟩
      refine ⟨count, hend, fun k hk => ?_⟩
      obtain ⟨s, hs, entry, hentry, hname⟩ := hbelow k hk
      exact ⟨s, entry, hs, (raw_of_entry hentry).2, hentry, hname⟩
    · rintro ⟨count, hend, h⟩
      refine ⟨_, count, fun k hk => ?_, hend, rfl⟩
      obtain ⟨s, entry, hs, -, hentry, hname⟩ := h k hk
      exact ⟨s, hs, entry, hentry, hname⟩
  · intro name count hname hend
    obtain ⟨last, -, hlast, rfl⟩ := resolve_eq_ok_iff.mp hname
    rcases Nat.lt_trichotomy count last with hlt | rfl | hlt
    · rw [ancestor?_of_null_lt hend hlt] at hlast
      cases hlast
    · rfl
    · rw [ancestor?_of_null_lt hlast hlt] at hend
      cases hend
  · exact fun name => resolve_eq_ok_iff.trans hasName_iff.symm
  · intro honce
    have hacyclic := not_cyclic_of_once honce
    constructor
    · intro h
      rcases resolve_eq_error_iff.mp h with ⟨count, s, -, hrefuses, -⟩ | ⟨-, hcyclic, -⟩
      · cases hrefuses
      · exact hacyclic hcyclic
    · intro hnone
      cases h : resolve strings names r with
      | ok name => exact ⟨name, rfl⟩
      | error fault =>
        rcases resolve_eq_error_iff.mp h with ⟨count, s, hs, hrefuses, -⟩ | ⟨-, hcyclic, -⟩
        · exact absurd hrefuses (hnone count s fault hs)
        · exact absurd hcyclic hacyclic

/-- A chain over the whole table, with an entry in it that has no name, and a chain that would come
back but for a name that is out of range. -/
theorem resolve_follows_chain_whole :
    let strings := StringTable.ofList ["A", "C"]
    let names := ofList [⟨⟨3⟩, ⟨2⟩⟩, ⟨⟨0⟩, ⟨1⟩⟩, ⟨⟨2⟩, ⟨0⟩⟩]
    let circle := ofList [⟨⟨2⟩, ⟨1⟩⟩, ⟨⟨1⟩, ⟨9⟩⟩]
    names.ancestor? ⟨1⟩ names.size = some ⟨0⟩ ∧
    resolve strings names ⟨1⟩ = .ok (some "A.C") ∧
    circle.ancestor? ⟨1⟩ 2 = circle.ancestor? ⟨1⟩ 0 ∧
    resolve strings circle ⟨1⟩ = .error (.invalidReference .string 9 2) := by
  intro strings names circle
  obtain ⟨-, -, hname, -, -⟩ := resolve_follows_chain strings names ⟨1⟩
  obtain ⟨-, -, -, hfault, -⟩ := resolve_follows_chain strings circle ⟨1⟩
  have hroot : HasName strings names ⟨2⟩ (some "A") :=
    @HasName.entry strings names ⟨2⟩ ⟨⟨0⟩, ⟨1⟩⟩ none rfl (by decide) .null
  have hunnamed : HasName strings names ⟨3⟩ (some "A") :=
    @HasName.entry strings names ⟨3⟩ ⟨⟨2⟩, ⟨0⟩⟩ (some "A") rfl (by decide) hroot
  have hleaf : HasName strings names ⟨1⟩ (some "A.C") :=
    @HasName.entry strings names ⟨1⟩ ⟨⟨3⟩, ⟨2⟩⟩ (some "A") rfl (by decide) hunnamed
  have hrefuses : Refuses strings circle ⟨2⟩ (.invalidReference .string 9 2) :=
    @Refuses.text strings circle ⟨2⟩ ⟨⟨1⟩, ⟨9⟩⟩ rfl (by decide)
  have hpasses : Passes strings circle ⟨1⟩ := ⟨⟨⟨2⟩, ⟨1⟩⟩, rfl, by decide⟩
  refine ⟨rfl, (hname _).mpr hleaf, rfl, (hfault _).mpr (Or.inl ⟨1, ⟨2⟩, rfl, hrefuses, ?_⟩)⟩
  intro k hk t ht other
  obtain rfl : k = 0 := Nat.lt_one_iff.mp hk
  obtain rfl := Option.some.inj ht
  exact hpasses.not_refuses

end CanonicalNames
end DartKernel
