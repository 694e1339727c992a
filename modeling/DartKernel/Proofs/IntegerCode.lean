import DartKernel.Proofs.Addressing
import DartKernel.Proofs.Taken

namespace DartKernel

namespace Uint

/-- How many bytes a number takes, by the top two bits of its first byte. -/
def widthOf (first : UInt8) : Nat :=
  if first &&& 0x80 = 0 then 1 else if first &&& 0x40 = 0 then 2 else 4

theorem width_ofFirst (first : UInt8) : (Tier.ofFirst first).width = widthOf first := by
  have hall : ∀ bits : BitVec 8, (Tier.ofFirst ⟨bits⟩).width = widthOf ⟨bits⟩ := by decide
  exact hall first.toBitVec

/-- How many bytes are called for where `rest` is left: as many as its first one says, and at least
one. -/
def needed (rest : List UInt8) : Nat := (rest.head?.map widthOf).getD 1

theorem Spells.length_eq {n : Nat} {bytes : List UInt8} (h : Spells n bytes)
    (rest : List UInt8) : bytes.length = needed (bytes ++ rest) := by
  cases bytes with
  | nil => exact absurd rfl h.ne_nil
  | cons first tail => rw [List.length_cons, (spells_cons_iff.mp h).1, width_ofFirst]; rfl

/-- A first byte and as many others as it calls for spell some number. -/
theorem exists_spells {first : UInt8} {tail : List UInt8}
    (h : tail.length + 1 = widthOf first) : ∃ n, Spells n (first :: tail) := by
  rw [← width_ofFirst] at h
  have hmark : (Tier.ofFirst first).mark ≤ bigEndian (first :: tail) := by
    rw [bigEndian_cons]
    cases ht : Tier.ofFirst first with
    | one => exact Nat.zero_le _
    | two =>
      have hfirst := (Tier.ofFirst_eq_two_iff.mp ht).1
      obtain hlength : tail.length = 1 := by simpa [ht, Tier.width] using h
      rw [hlength, Tier.mark]
      omega
    | four =>
      have hfirst := Tier.ofFirst_eq_four_iff.mp ht
      obtain hlength : tail.length = 3 := by simpa [ht, Tier.width] using h
      rw [hlength, Tier.mark]
      omega
  exact ⟨_, spells_cons_iff.mpr ⟨h, (Nat.sub_add_cancel hmark).symm⟩⟩

/-- The payload of a number is what the top bits of its first byte leave. -/
theorem Spells.lt_payload {n : Nat} {bytes : List UInt8} (h : Spells n bytes) :
    (bytes.length = 1 → n < 2 ^ 7) ∧ (bytes.length = 2 → n < 2 ^ 14) ∧
      (bytes.length = 4 → n < 2 ^ 30) := by
  obtain ⟨tier, hn, hlength, -⟩ := spells_iff.mp h
  cases tier <;> simp only [Tier.limit, Tier.width] at hn hlength <;> omega

/-- Spellings of equal length tell numbers apart. -/
theorem Spells.eq_of_length_eq {n : Nat} {a b : List UInt8} (ha : Spells n a) (hb : Spells n b)
    (hlength : a.length = b.length) : a = b := by
  obtain ⟨s, -, rfl⟩ := ha
  obtain ⟨t, -, rfl⟩ := hb
  rw [Tier.encode, Tier.encode, length_bigEndianBytes, length_bigEndianBytes] at hlength
  have htier : s = t := by
    cases s <;> cases t <;> simp_all [Tier.width]
  rw [htier]

/-- A spelling is no beginning of another one. -/
theorem Spells.eq_of_prefix {m n : Nat} {a b : List UInt8} (ha : Spells m a) (hb : Spells n b)
    (h : a <+: b) : a = b := by
  obtain ⟨rest, rfl⟩ := h
  have hlength := hb.length_eq []
  rw [List.append_nil, ← ha.length_eq rest] at hlength
  rw [List.append_right_eq_self.mpr]
  exact List.length_eq_zero_iff.mp (by rw [List.length_append] at hlength; omega)

end Uint

namespace Scan

/-- The scan fails only where a byte is wanted and none is left, so at the end of the window. -/
def Exhausts (scan : Scan α) : Prop := ∀ w fault w', scan w = .error fault w' →
  fault = w.outOfBounds w.length 1 ∧ w' = w.goto w.length

theorem pure_exhausts (a : α) : (pure a : Scan α).Exhausts := nofun

theorem byte_exhausts : byte.Exhausts := by
  intro w fault w' h
  cases hrest : w.rest with
  | nil =>
    have hremaining := Window.remaining_eq_zero hrest
    have hend : w.position = w.length := by
      have hcursor := w.cursor
      simp only [Window.remaining] at hremaining
      omega
    rw [byte_eq_error hremaining, hend] at h
    cases h
    exact ⟨rfl, by rw [← hend, w.goto_position]⟩
  | cons b rest =>
    rw [byte_eq_ok hrest] at h
    cases h

theorem byte_bind_exhausts {f : UInt8 → Scan α} (hf : ∀ b, (f b).Exhausts) :
    (byte >>= f).Exhausts := by
  intro w fault w' h
  rw [bind_eq] at h
  cases hb : byte w with
  | error found m =>
    rw [hb] at h
    cases h
    exact byte_exhausts _ _ _ hb
  | ok b m =>
    rw [hb] at h
    obtain ⟨rfl, -⟩ := byte_ok hb
    have hrest := hf b _ _ _ h
    exact hrest

theorem ite_exhausts {c : Prop} [Decidable c] {x y : Scan α} (hx : x.Exhausts) (hy : y.Exhausts) :
    (if c then x else y).Exhausts := iteInduction (motive := Exhausts) (fun _ => hx) fun _ => hy

theorem uint_exhausts : uint.Exhausts := by
  apply byte_bind_exhausts
  intro first
  apply ite_exhausts (pure_exhausts _)
  apply ite_exhausts (byte_bind_exhausts fun _ => pure_exhausts _)
  exact byte_bind_exhausts fun _ => byte_bind_exhausts fun _ => byte_bind_exhausts
    fun _ => pure_exhausts _

/-- A number that is read is spelled by as many bytes as the first one calls for. -/
theorem uint_ok {w w' : Window} {n : UInt32} (h : uint w = .ok n w') :
    let count := Uint.needed w.rest
    count ≤ w.remaining ∧ w' = w.goto (w.position + count) ∧
      Uint.Spells n.toNat (w.rest.take count) ∧ (w.rest.take count).length = count := by
  intro count
  obtain ⟨k, hk, rfl, bytes, hspells, hrest⟩ := uint_reads.sound h
  have hcount : count = bytes.length := by
    rw [hspells.length_eq (w.rest.drop k), ← hrest]
  have hlength : k = bytes.length := Window.eq_length_of_drop hk rfl hrest
  have htake : w.rest.take count = bytes := by
    rw [hcount, hrest, List.take_left]
  rw [htake, hcount, ← hlength]
  exact ⟨hk, rfl, hspells, rfl⟩

/-- A number is read wherever its bytes stand. -/
theorem uint_eq_ok {w : Window} {n : Nat} {bytes rest : List UInt8} (hspells : Uint.Spells n bytes)
    (hrest : w.rest = bytes ++ rest) :
    uint w = .ok n.toUInt32 (w.goto (w.position + bytes.length)) := by
  have hn : n.toUInt32.toNat = n := by
    have hlt := hspells.lt_limit
    apply UInt32.toNat_ofNat_of_lt'
    simp only [Uint.limit, Uint.Tier.limit, UInt32.size] at *
    omega
  obtain ⟨k, hk, hdrop, huint⟩ := uint_reads.complete (a := n.toUInt32)
    ⟨bytes, hn.symm ▸ hspells, hrest⟩
  rw [huint, Window.eq_length_of_drop hk hdrop hrest]
  rfl

/-- A number is read exactly when no byte is missing that its first one calls for. -/
theorem exists_uint_iff {w : Window} :
    (∃ n w', uint w = .ok n w') ↔ Uint.needed w.rest ≤ w.remaining := by
  constructor
  · rintro ⟨n, w', h⟩
    exact (uint_ok h).1
  · intro hfits
    rw [← w.length_rest] at hfits
    cases hrest : w.rest with
    | nil =>
      rw [hrest] at hfits
      exact absurd hfits (by decide)
    | cons first tail =>
      rw [hrest, List.length_cons] at hfits
      change Uint.widthOf first ≤ tail.length + 1 at hfits
      have hpos : 0 < Uint.widthOf first := by
        rw [← Uint.width_ofFirst]
        cases Uint.Tier.ofFirst first <;> decide
      have htake : (tail.take (Uint.widthOf first - 1)).length + 1 = Uint.widthOf first := by
        rw [List.length_take]
        omega
      obtain ⟨n, hspells⟩ := Uint.exists_spells htake
      have hsplit : w.rest = (first :: tail.take (Uint.widthOf first - 1)) ++
          tail.drop (Uint.widthOf first - 1) := by
        rw [hrest, List.cons_append, List.take_append_drop]
      exact ⟨_, _, uint_eq_ok hspells hsplit⟩

end Scan

namespace Uint

/-- The integers of the format are a code that delimits itself. Written in the shortest tier, a
number below the limit is read back whatever follows it. Anything that is read took as many bytes as
the top bits of the first one call for, no fewer than the shortest spelling has, and has as many
bits as these leave. Among spellings of one length each number has one, and no shortest spelling
begins another one. Where bytes are missing, the reader goes through all that are left before it
says so. -/
theorem code_delimits :
    (∀ (w : Window) (n : Nat) (rest : List UInt8), n < 2 ^ 30 → w.rest = encode n ++ rest →
      Scan.uint w = .ok n.toUInt32 (w.goto (w.position + (encode n).length)) ∧
      n.toUInt32.toNat = n ∧ (w.goto (w.position + (encode n).length)).rest = rest) ∧
    (∀ w : Window, (∃ n w', Scan.uint w = .ok n w') ↔ needed w.rest ≤ w.remaining) ∧
    (∀ (w w' : Window) (n : UInt32), Scan.uint w = .ok n w' →
      w' = w.goto (w.position + needed w.rest) ∧ w'.position = w.position + needed w.rest ∧
      Spells n.toNat (w.rest.take (needed w.rest)) ∧
      (encode n.toNat).length ≤ needed w.rest ∧
      (needed w.rest = 1 → n.toNat < 2 ^ 7) ∧ (needed w.rest = 2 → n.toNat < 2 ^ 14) ∧
      (needed w.rest = 4 → n.toNat < 2 ^ 30)) ∧
    (∀ (v v' w w' : Window) (n : UInt32), Scan.uint v = .ok n v' → Scan.uint w = .ok n w' →
      needed v.rest = needed w.rest →
      v.rest.take (needed v.rest) = w.rest.take (needed w.rest)) ∧
    (∀ m n, m < 2 ^ 30 → n < 2 ^ 30 → encode m <+: encode n → m = n) ∧
    ∀ (w w' : Window) (fault : Fault), Scan.uint w = .error fault w' →
      fault = w.outOfBounds w.length 1 ∧ w' = w.goto w.length := by
  refine ⟨?_, fun w => Scan.exists_uint_iff, ?_, ?_, ?_, ?_⟩
  · intro w n rest hn hrest
    have hspells : Spells n (encode n) := spells_encode hn
    refine ⟨Scan.uint_eq_ok hspells hrest, UInt32.toNat_ofNat_of_lt' ?_, ?_⟩
    · exact hn.trans (by decide)
    · rw [← Window.advance_eq_goto, Window.rest_advance, hrest, List.drop_left]
  · intro w w' n h
    obtain ⟨hfits, rfl, hspells, hlength⟩ := Scan.uint_ok h
    have hshortest := hspells.length_encode_le
    have hpayload := hspells.lt_payload
    rw [hlength] at hshortest hpayload
    exact ⟨rfl, Window.position_advance_of_le hfits, hspells, hshortest, hpayload⟩
  · intro v v' w w' n hv hw hneeded
    obtain ⟨-, -, hspells, hlength⟩ := Scan.uint_ok hv
    obtain ⟨-, -, hspells', hlength'⟩ := Scan.uint_ok hw
    exact hspells.eq_of_length_eq hspells' (by rw [hlength, hlength', hneeded])
  · intro m n hm hn h
    have hspells : Spells m (encode m) := spells_encode hm
    have hspells' : Spells n (encode n) := spells_encode hn
    have heq := hspells.eq_of_prefix hspells' h
    exact hspells.unique (heq ▸ hspells')
  · intro w w' fault h
    exact Scan.uint_exhausts w fault w' h

/-- A number of two bytes with another byte behind it, and a number of four bytes cut short. -/
theorem code_delimits_truncated :
    let w := Window.ofBytes ⟨#[0x81, 0x2C, 0xFF]⟩
    let v := (Window.ofBytes ⟨#[0xFF, 0xC0, 1, 2]⟩).goto 1
    (encode 300 = [0x81, 0x2C] ∧ Scan.uint w = .ok 300 (w.goto 2) ∧ (w.goto 2).rest = [0xFF]) ∧
    needed v.rest = 4 ∧ v.remaining = 3 ∧
      ∃ v', Scan.uint v = .error (v.outOfBounds 4 1) v' ∧ v'.position = 4 := by
  intro w v
  obtain ⟨hread, hreads, -, -, -, hfail⟩ := code_delimits
  obtain ⟨hvalue, -, hrest⟩ := hread w 300 [0xFF] (by omega) (by decide +kernel)
  have hneeded : needed v.rest = 4 := by decide +kernel
  refine ⟨⟨by decide +kernel, hvalue, hrest⟩, hneeded, rfl, ?_⟩
  cases hv : Scan.uint v with
  | ok n v' =>
    have hfits := (hreads v).mp ⟨n, v', hv⟩
    rw [hneeded] at hfits
    exact absurd hfits (by decide)
  | error fault v' =>
    obtain ⟨rfl, rfl⟩ := hfail _ _ _ hv
    exact ⟨_, rfl, rfl⟩

end Uint
end DartKernel
