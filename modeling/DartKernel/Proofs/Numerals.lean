import DartKernel.Proofs.Cursor
import Mathlib.Data.List.Basic
import Mathlib.Tactic.Ring

namespace DartKernel

def bigEndianBytes : (width : Nat) → (n : Nat) → List UInt8
  | 0, _ => []
  | width + 1, n => bigEndianBytes width (n / 256) ++ [(n % 256).toUInt8]

@[simp] theorem length_bigEndianBytes (width n : Nat) :
    (bigEndianBytes width n).length = width := by
  induction width generalizing n with
  | zero => rfl
  | succ width ih => simp [bigEndianBytes, ih]

theorem bigEndian_append (bytes : List UInt8) (b : UInt8) :
    bigEndian (bytes ++ [b]) = 256 * bigEndian bytes + b.toNat := by
  simp [bigEndian, List.foldl_append]

theorem bigEndian_cons (b : UInt8) (bytes : List UInt8) :
    bigEndian (b :: bytes) = b.toNat * 256 ^ bytes.length + bigEndian bytes := by
  -- The fold starts from the first digit here, so the statement is about any start.
  have hstart (n : Nat) : bytes.foldl (fun n b => 256 * n + b.toNat) n =
      n * 256 ^ bytes.length + bigEndian bytes := by
    induction bytes generalizing n with
    | nil => simp [bigEndian]
    | cons c bytes ih =>
      simp only [bigEndian, List.foldl_cons] at ih ⊢
      rw [ih (256 * n + c.toNat), ih (256 * 0 + c.toNat), List.length_cons, Nat.pow_succ]
      ring
  simpa [bigEndian] using hstart b.toNat

theorem bigEndian_bigEndianBytes (width n : Nat) :
    bigEndian (bigEndianBytes width n) = n % 256 ^ width := by
  induction width generalizing n with
  | zero => simp [bigEndianBytes, bigEndian, Nat.mod_one]
  | succ width ih =>
    have hb : (n % 256).toUInt8.toNat = n % 256 := by
      simp only [Nat.toUInt8, UInt8.toNat_ofNat']
      omega
    rw [bigEndianBytes, bigEndian_append, ih, hb, Nat.pow_succ, Nat.mul_comm (256 ^ width),
      Nat.mod_mul]
    omega

/-- Bytes are the numeral of the number that they spell. -/
theorem bigEndianBytes_bigEndian {bytes : List UInt8} {width : Nat} (h : bytes.length = width) :
    bigEndianBytes width (bigEndian bytes) = bytes := by
  induction width generalizing bytes with
  | zero => rw [List.length_eq_zero_iff.mp h]; rfl
  | succ width ih =>
    have hne : bytes ≠ [] := List.ne_nil_of_length_eq_add_one h
    obtain ⟨front, b, rfl⟩ : ∃ front b, bytes = front ++ [b] :=
      ⟨_, _, (List.dropLast_concat_getLast hne).symm⟩
    have hb := b.toNat_lt
    rw [bigEndianBytes, bigEndian_append]
    congr 1
    · rw [show (256 * bigEndian front + b.toNat) / 256 = bigEndian front by omega]
      exact ih (by simpa using h)
    · rw [show (256 * bigEndian front + b.toNat) % 256 = b.toNat by omega]
      simp [Nat.toUInt8]

theorem bigEndian_lt (bytes : List UInt8) : bigEndian bytes < 256 ^ bytes.length := by
  have h := bigEndian_bigEndianBytes bytes.length (bigEndian bytes)
  rw [bigEndianBytes_bigEndian rfl] at h
  rw [h]
  exact Nat.mod_lt _ (Nat.pow_pos (by decide))

/-- Bytes of the right number spell a number exactly when they are its numeral. -/
theorem bigEndian_eq_iff {bytes : List UInt8} {n width : Nat} (hl : bytes.length = width)
    (hn : n < 256 ^ width) : bigEndian bytes = n ↔ bytes = bigEndianBytes width n := by
  constructor
  · rintro rfl
    rw [bigEndianBytes_bigEndian hl]
  · rintro rfl
    rw [bigEndian_bigEndianBytes, Nat.mod_eq_of_lt hn]

def wordBytes (w : UInt32) : List UInt8 := bigEndianBytes 4 w.toNat

@[simp] theorem length_wordBytes (w : UInt32) : (wordBytes w).length = 4 :=
  length_bigEndianBytes ..

theorem bigEndian_wordBytes (w : UInt32) : (bigEndian (wordBytes w)).toUInt32 = w := by
  have hw : w.toNat < 256 ^ 4 := w.toNat_lt
  rw [wordBytes, bigEndian_bigEndianBytes, Nat.mod_eq_of_lt hw]
  simp [Nat.toUInt32]

theorem wordBytes_bigEndian {bytes : List UInt8} (h : bytes.length = 4) :
    wordBytes (bigEndian bytes).toUInt32 = bytes := by
  have hb := bigEndian_lt bytes
  rw [h] at hb
  rw [wordBytes, Nat.toUInt32, UInt32.toNat_ofNat_of_lt' hb, bigEndianBytes_bigEndian h]

def wordsBytes (ws : List UInt32) : List UInt8 := ws.flatMap wordBytes

@[simp] theorem wordsBytes_nil : wordsBytes [] = [] := rfl

@[simp] theorem wordsBytes_cons (w : UInt32) (ws : List UInt32) :
    wordsBytes (w :: ws) = wordBytes w ++ wordsBytes ws := rfl

@[simp] theorem wordsBytes_append (ws ws' : List UInt32) :
    wordsBytes (ws ++ ws') = wordsBytes ws ++ wordsBytes ws' := List.flatMap_append

@[simp] theorem length_wordsBytes (ws : List UInt32) :
    (wordsBytes ws).length = 4 * ws.length := by
  induction ws with
  | nil => rfl
  | cons w ws ih =>
    rw [wordsBytes_cons, List.length_append, ih, length_wordBytes, List.length_cons]
    omega

@[simp] theorem wordsOf_wordsBytes (ws : List UInt32) : wordsOf (wordsBytes ws) = ws := by
  induction ws with
  | nil => rfl
  | cons w ws ih =>
    change (bigEndian (wordBytes w)).toUInt32 :: wordsOf (wordsBytes ws) = _
    rw [bigEndian_wordBytes, ih]

/-- Bytes that make up whole words are those words as they are written. -/
theorem wordsBytes_wordsOf {bytes : List UInt8} {count : Nat} (h : bytes.length = 4 * count) :
    (wordsOf bytes).length = count ∧ wordsBytes (wordsOf bytes) = bytes := by
  induction count generalizing bytes with
  | zero =>
    rw [List.length_eq_zero_iff.mp h]
    exact ⟨rfl, rfl⟩
  | succ count ih =>
    rcases bytes with _ | ⟨a, _ | ⟨b, _ | ⟨c, _ | ⟨d, rest⟩⟩⟩⟩
    iterate 4 (simp only [List.length_nil, List.length_cons] at h; omega)
    have hrest : rest.length = 4 * count := by
      simp only [List.length_cons] at h
      omega
    obtain ⟨hl, hr⟩ := ih hrest
    refine ⟨congrArg (· + 1) hl, ?_⟩
    rw [wordsOf, wordsBytes_cons, hr, wordBytes_bigEndian rfl]
    rfl

theorem Scan.word_reads : Scan.word.Reads fun s w r => s = wordBytes w ++ r := by
  apply (Scan.map_reads _ (Scan.bytes_reads 4)).congr
  intro s w r
  constructor
  · intro h
    obtain ⟨bytes, ⟨hl, hs⟩, hw⟩ := h
    rw [hs, hw, wordBytes_bigEndian hl]
  · intro hs
    exact ⟨wordBytes w, ⟨length_wordBytes w, hs⟩, (bigEndian_wordBytes w).symm⟩

theorem Scan.words_reads (count : Nat) : (Scan.words count).Reads fun s ws r =>
    ws.length = count ∧ s = wordsBytes ws ++ r := by
  have hmap : (wordsOf <$> Scan.bytes (4 * count)).Reads fun s ws r =>
      ws.length = count ∧ s = wordsBytes ws ++ r := by
    rw [← bind_pure_comp]
    apply (Scan.map_reads _ (Scan.bytes_reads (4 * count))).congr
    intro s ws r
    constructor
    · intro h
      obtain ⟨bytes, ⟨hl, hs⟩, hws⟩ := h
      obtain ⟨hcount, hbytes⟩ := wordsBytes_wordsOf hl
      rw [hws, hbytes]
      exact ⟨hcount, hs⟩
    · intro h
      rcases h with ⟨hl, hs⟩
      exact ⟨wordsBytes ws, ⟨by rw [length_wordsBytes, hl], hs⟩, (wordsOf_wordsBytes ws).symm⟩
  constructor
  · intro w w' ws h
    unfold Scan.words at h
    split at h
    · exact hmap.sound h
    · cases h
  · intro w ws rest h
    have hlen := w.length_rest
    rw [h.2, List.length_append, length_wordsBytes, h.1, Window.remaining] at hlen
    have hfit : w.position + 4 * count ≤ w.length := by
      have := w.cursor
      omega
    unfold Scan.words
    rw [if_pos hfit]
    exact hmap.complete h

def doubleBytes (bits : UInt64) : List UInt8 := (bigEndianBytes 8 bits.toNat).reverse

theorem bigEndian_doubleBytes_iff {bytes : List UInt8} {bits : UInt64} (h : bytes.length = 8) :
    (bigEndian bytes.reverse).toUInt64 = bits ↔ bytes = doubleBytes bits := by
  have hb := bigEndian_lt bytes.reverse
  rw [List.length_reverse, h] at hb
  rw [doubleBytes, ← UInt64.toNat_inj, Nat.toUInt64, UInt64.toNat_ofNat_of_lt' hb,
    bigEndian_eq_iff (by simpa using h) (by exact bits.toNat_lt), List.reverse_eq_iff]

namespace Uint

/-- The three lengths of a variable-length integer. -/
inductive Tier where
  | one | two | four
  deriving DecidableEq, Repr

namespace Tier

def width : Tier → Nat
  | .one => 1
  | .two => 2
  | .four => 4

def limit : Tier → Nat
  | .one => 0x80
  | .two => 0x4000
  | .four => 0x40000000

/-- What the top bits of the first byte add to the numeral. -/
def mark : Tier → Nat
  | .one => 0
  | .two => 0x8000
  | .four => 0xC0000000

def encode (tier : Tier) (n : Nat) : List UInt8 := bigEndianBytes tier.width (n + tier.mark)

end Tier

/-- The shortest tier that holds a number, if any does. -/
def tier (n : Nat) : Tier :=
  if n < Tier.one.limit then .one else if n < Tier.two.limit then .two else .four

/-- A number in its shortest tier. -/
def encode (n : Nat) : List UInt8 := (tier n).encode n

def limit : Nat := Tier.four.limit

/-- Bytes that stand for a number, in its shortest tier or a longer one. -/
def Spells (n : Nat) (bytes : List UInt8) : Prop :=
  ∃ tier : Tier, n < tier.limit ∧ bytes = tier.encode n

theorem spells_encode {n : Nat} (h : n < limit) : Spells n (encode n) := by
  refine ⟨tier n, ?_, rfl⟩
  unfold tier
  split
  · assumption
  · split <;> assumption

theorem Spells.lt_limit {n : Nat} {bytes : List UInt8} (h : Spells n bytes) : n < limit := by
  obtain ⟨tier, hn, -⟩ := h
  cases tier <;> simp only [Tier.limit, limit] at * <;> omega

theorem width_tier_le {n : Nat} {t : Tier} (h : n < t.limit) : (tier n).width ≤ t.width := by
  by_cases h1 : n < Tier.one.limit
  · cases t <;> simp [tier, h1, Tier.width]
  · by_cases h2 : n < Tier.two.limit
    · cases t <;> simp [tier, h1, h2, Tier.width]
      exact h1 h
    · cases t <;> simp [tier, h1, h2, Tier.width]
      · exact h1 h
      · exact h2 h

/-- No spelling is shorter than the one in the shortest tier. -/
theorem Spells.length_encode_le {n : Nat} {bytes : List UInt8} (h : Spells n bytes) :
    (encode n).length ≤ bytes.length := by
  obtain ⟨t, hn, rfl⟩ := h
  simpa only [encode, Tier.encode, length_bigEndianBytes] using width_tier_le hn

/-- Bytes are in a tier when they are as many as it takes and carry its mark. -/
theorem spells_iff {n : Nat} {bytes : List UInt8} : Spells n bytes ↔
    ∃ tier : Tier, n < tier.limit ∧ bytes.length = tier.width ∧
      bigEndian bytes = n + tier.mark := by
  have hfits (t : Tier) (h : n < t.limit) : n + t.mark < 256 ^ t.width := by
    cases t <;> simp only [Tier.limit, Tier.mark, Tier.width] at * <;> omega
  constructor
  · intro h
    rcases h with ⟨t, hn, rfl⟩
    refine ⟨t, hn, length_bigEndianBytes .., ?_⟩
    exact (bigEndian_eq_iff (length_bigEndianBytes ..) (hfits t hn)).mpr rfl
  · intro h
    rcases h with ⟨t, hn, hl, hb⟩
    exact ⟨t, hn, (bigEndian_eq_iff hl (hfits t hn)).mp hb⟩

/-- The tier that a first byte announces by its top bits. -/
def Tier.ofFirst (first : UInt8) : Tier :=
  if first < 0x80 then .one else if first < 0xC0 then .two else .four

theorem Tier.ofFirst_eq_one_iff {first : UInt8} :
    Tier.ofFirst first = .one ↔ first.toNat < 0x80 := by
  simp only [Tier.ofFirst, UInt8.lt_iff_toNat_lt, UInt8.reduceToNat]
  split
  · simpa
  · split <;> simp <;> omega

theorem Tier.ofFirst_eq_two_iff {first : UInt8} :
    Tier.ofFirst first = .two ↔ 0x80 ≤ first.toNat ∧ first.toNat < 0xC0 := by
  simp only [Tier.ofFirst, UInt8.lt_iff_toNat_lt, UInt8.reduceToNat]
  split
  · simp; omega
  · split <;> simp <;> omega

theorem Tier.ofFirst_eq_four_iff {first : UInt8} :
    Tier.ofFirst first = .four ↔ 0xC0 ≤ first.toNat := by
  simp only [Tier.ofFirst, UInt8.lt_iff_toNat_lt, UInt8.reduceToNat]
  split
  · simp; omega
  · split <;> simp <;> omega

/-- The reader's view of a spelling: its first byte fixes the tier. -/
theorem spells_cons_iff {n : Nat} {first : UInt8} {tail : List UInt8} :
    Spells n (first :: tail) ↔ tail.length + 1 = (Tier.ofFirst first).width ∧
      bigEndian (first :: tail) = n + (Tier.ofFirst first).mark := by
  have hfirst := first.toNat_lt
  have htail := bigEndian_lt tail
  rw [spells_iff, bigEndian_cons]
  constructor
  · intro h
    rcases h with ⟨t, hn, hl, hb⟩
    suffices ht : Tier.ofFirst first = t by
      rw [ht]
      exact ⟨hl, hb⟩
    cases t with
    | one =>
      rw [show tail.length = 0 by simpa [Tier.width] using hl] at hb htail
      simp only [Tier.mark, Tier.limit] at hb hn
      exact Tier.ofFirst_eq_one_iff.mpr (by omega)
    | two =>
      rw [show tail.length = 1 by simpa [Tier.width] using hl] at hb htail
      simp only [Tier.mark, Tier.limit] at hb hn
      exact Tier.ofFirst_eq_two_iff.mpr (by omega)
    | four =>
      rw [show tail.length = 3 by simpa [Tier.width] using hl] at hb htail
      simp only [Tier.mark, Tier.limit] at hb hn
      exact Tier.ofFirst_eq_four_iff.mpr (by omega)
  · intro h
    rcases h with ⟨hl, hb⟩
    refine ⟨Tier.ofFirst first, ?_, hl, hb⟩
    have ht : tail.length = (Tier.ofFirst first).width - 1 := by omega
    rw [ht] at hb htail
    cases hf : Tier.ofFirst first with
    | one =>
      have hr := Tier.ofFirst_eq_one_iff.mp hf
      simp only [hf, Tier.mark, Tier.width, Tier.limit] at hb htail ⊢
      omega
    | two =>
      have hr := Tier.ofFirst_eq_two_iff.mp hf
      simp only [hf, Tier.mark, Tier.width, Tier.limit] at hb htail ⊢
      omega
    | four =>
      have hr := Tier.ofFirst_eq_four_iff.mp hf
      simp only [hf, Tier.mark, Tier.width, Tier.limit] at hb htail ⊢
      omega

theorem Spells.ne_nil {n : Nat} {bytes : List UInt8} (h : Spells n bytes) : bytes ≠ [] := by
  obtain ⟨t, -, hl, -⟩ := spells_iff.mp h
  rintro rfl
  cases t <;> simp [Tier.width] at hl

/-- Taking the mark off the first byte takes it off the numeral. -/
theorem bigEndian_sub_cons {first : UInt8} {mark : UInt8} (h : mark.toNat ≤ first.toNat)
    (tail : List UInt8) : bigEndian (first :: tail) =
      bigEndian ((first - mark) :: tail) + mark.toNat * 256 ^ tail.length := by
  rw [bigEndian_cons, bigEndian_cons, UInt8.toNat_sub_of_le _ _ (UInt8.le_iff_toNat_le.mpr h),
    Nat.sub_mul]
  have := Nat.mul_le_mul_right (256 ^ tail.length) h
  omega

/-- A word is the number of at most four bytes without their mark. -/
theorem eq_toUInt32_iff {n : UInt32} {first byte : UInt8} {tail : List UInt8} {mark : Nat}
    (hbyte : byte.toNat ≤ first.toNat) (hl : tail.length ≤ 3)
    (hmark : mark = byte.toNat * 256 ^ tail.length) :
    n = (bigEndian ((first - byte) :: tail)).toUInt32 ↔
      bigEndian (first :: tail) = n.toNat + mark := by
  have hb : bigEndian ((first - byte) :: tail) < 256 ^ 4 :=
    Nat.lt_of_lt_of_le (bigEndian_lt _)
      (Nat.pow_le_pow_right (by decide) (by simpa using Nat.succ_le_succ hl))
  rw [← UInt32.toNat_inj, Nat.toUInt32, UInt32.toNat_ofNat_of_lt' hb, bigEndian_sub_cons hbyte]
  omega

end Uint

def Uint.tailReading (first : UInt8) : Reading UInt32 := fun s n r =>
  ∃ tail, Spells n.toNat (first :: tail) ∧ s = tail ++ r

theorem Scan.uint_one_reads {first : UInt8} (h : first.toNat < 0x80) :
    (pure first.toUInt32 : Scan UInt32).Reads (Uint.tailReading first) := by
  have ht := Uint.Tier.ofFirst_eq_one_iff.mpr h
  apply (Scan.pure_reads first.toUInt32).congr
  intro s n r
  simp only [Uint.tailReading, Uint.spells_cons_iff, ht]
  constructor
  · intro h
    rcases h with ⟨rfl, rfl⟩
    exact ⟨[], ⟨rfl, by simp [bigEndian, Uint.Tier.mark]⟩, rfl⟩
  · intro h
    obtain ⟨tail, ⟨hl, hb⟩, rfl⟩ := h
    obtain rfl : tail = [] := by simpa [Uint.Tier.width] using hl
    refine ⟨?_, rfl⟩
    rw [← UInt32.toNat_inj]
    simpa [bigEndian, Uint.Tier.mark] using hb.symm

theorem Scan.uint_two_reads {first : UInt8} (h : 0x80 ≤ first.toNat) (h' : first.toNat < 0xC0) :
    Scan.Reads (do return (bigEndian [first - 0x80, ← Scan.byte]).toUInt32)
      (Uint.tailReading first) := by
  have ht := Uint.Tier.ofFirst_eq_two_iff.mpr ⟨h, h'⟩
  have hvalue (n : UInt32) (b : UInt8) : n = (bigEndian [first - 0x80, b]).toUInt32 ↔
      bigEndian [first, b] = n.toNat + Uint.Tier.two.mark :=
    Uint.eq_toUInt32_iff (by simpa using h) (by simp) (by simp [Uint.Tier.mark])
  apply (Scan.map_reads _ Scan.byte_reads).congr
  intro s n r
  simp only [Uint.tailReading, Uint.spells_cons_iff, ht]
  constructor
  · intro h
    rcases h with ⟨b, rfl, hn⟩
    exact ⟨[b], ⟨rfl, (hvalue n b).mp hn⟩, rfl⟩
  · intro h
    obtain ⟨tail, ⟨hl, hb⟩, rfl⟩ := h
    obtain ⟨b, rfl⟩ : ∃ b, tail = [b] := by
      simpa [Uint.Tier.width, List.length_eq_one_iff] using hl
    exact ⟨b, rfl, (hvalue n b).mpr hb⟩

theorem Scan.uint_four_reads {first : UInt8} (h : 0xC0 ≤ first.toNat) :
    Scan.Reads
      (do return (bigEndian [first - 0xC0, ← Scan.byte, ← Scan.byte, ← Scan.byte]).toUInt32)
      (Uint.tailReading first) := by
  have ht := Uint.Tier.ofFirst_eq_four_iff.mpr h
  have hvalue (n : UInt32) (b c d : UInt8) :
      n = (bigEndian [first - 0xC0, b, c, d]).toUInt32 ↔
        bigEndian [first, b, c, d] = n.toNat + Uint.Tier.four.mark :=
    Uint.eq_toUInt32_iff (by simpa using h) (by simp) (by simp [Uint.Tier.mark])
  apply (Scan.bind_reads Scan.byte_reads fun b => Scan.bind_reads Scan.byte_reads fun c =>
    Scan.map_reads _ Scan.byte_reads).congr
  intro s n r
  simp only [Uint.tailReading, Uint.spells_cons_iff, ht]
  constructor
  · intro h
    rcases h with ⟨b, _, rfl, c, _, rfl, d, rfl, hn⟩
    exact ⟨[b, c, d], ⟨rfl, (hvalue n b c d).mp hn⟩, rfl⟩
  · intro h
    obtain ⟨tail, ⟨hl, hb⟩, rfl⟩ := h
    obtain ⟨b, c, d, rfl⟩ : ∃ b c d, tail = [b, c, d] := by
      simpa [Uint.Tier.width, List.length_eq_three] using hl
    exact ⟨b, _, rfl, c, _, rfl, d, rfl, (hvalue n b c d).mpr hb⟩

theorem Scan.uint_tail_reads (first : UInt8) : Scan.Reads (do
    if first < 0x80 then return first.toUInt32
    if first < 0xC0 then return (bigEndian [first - 0x80, ← Scan.byte]).toUInt32
    return (bigEndian [first - 0xC0, ← Scan.byte, ← Scan.byte, ← Scan.byte]).toUInt32)
    (Uint.tailReading first) := by
  simp only [UInt8.lt_iff_toNat_lt, UInt8.reduceToNat]
  by_cases h1 : first.toNat < 0x80
  · simp only [h1, if_true]
    exact Scan.uint_one_reads h1
  · by_cases h2 : first.toNat < 0xC0
    · simp only [h1, h2, if_true, if_false]
      exact Scan.uint_two_reads (Nat.le_of_not_lt h1) h2
    · simp only [h1, h2, if_false]
      exact Scan.uint_four_reads (Nat.le_of_not_lt h2)

theorem Scan.uint_reads : Scan.uint.Reads fun s n r =>
    ∃ bytes, Uint.Spells n.toNat bytes ∧ s = bytes ++ r := by
  apply (Scan.bind_reads Scan.byte_reads Scan.uint_tail_reads).congr
  intro s n r
  constructor
  · intro h
    rcases h with ⟨first, m, rfl, tail, h, rfl⟩
    exact ⟨first :: tail, h, rfl⟩
  · intro h
    rcases h with ⟨bytes, h, rfl⟩
    cases bytes with
    | nil => exact absurd rfl h.ne_nil
    | cons first tail => exact ⟨first, tail ++ r, rfl, tail, h, rfl⟩

end DartKernel
