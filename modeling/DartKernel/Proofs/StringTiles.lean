import DartKernel.Proofs.SourceLines
import Mathlib.Data.List.Pairwise
import Mathlib.Data.Set.List

namespace DartKernel

/-- Bytes are UTF-8 exactly when they are those of a text. -/
theorem isValidUTF8_iff {bytes : List UInt8} :
    ByteArray.IsValidUTF8 ⟨bytes.toArray⟩ ↔ bytes ∈ Set.range textBytes := by
  constructor
  · intro h
    exact ⟨.ofByteArray ⟨bytes.toArray⟩ h, rfl⟩
  · rintro ⟨t, rfl⟩
    exact t.isValidUTF8

namespace StringTable
open TableLayout

def blob (offsets : List UInt32) (left : List UInt8) : List UInt8 :=
  left.take (offsets.getLastD 0).toNat

def slices (offsets : List UInt32) (blob : List UInt8) : List (List UInt8) :=
  offsets.zipWith (fun start stop => blob.extract start.toNat stop.toNat) offsets.tail

/-- Offsets that cut the bytes behind them into texts. -/
structure Tiles (offsets : List UInt32) (left : List UInt8) : Prop where
  first : offsets.head? = some 0
  ordered : offsets.Pairwise (· ≤ ·)
  inside : (offsets.getLastD 0).toNat ≤ left.length
  texts : ∀ piece ∈ slices offsets (blob offsets left), ByteArray.IsValidUTF8 ⟨piece.toArray⟩

theorem Tiles.length_pos {offsets : List UInt32} {left : List UInt8} (h : Tiles offsets left) :
    0 < offsets.length := by
  obtain ⟨ends, rfl⟩ := List.head?_eq_some_iff.mp h.first
  exact Nat.succ_pos _

variable {start stop : UInt32} {ends offsets : List UInt32} {content left : List UInt8}
  {texts : List String}

@[simp] theorem slices_cons_cons : slices (start :: stop :: ends) content =
    content.extract start.toNat stop.toNat :: slices (stop :: ends) content := rfl

theorem length_slices (offsets : List UInt32) (content : List UInt8) :
    (slices offsets content).length = offsets.length - 1 := by
  simp [slices]

/-- Cutting a blob from an offset on takes the pieces between the offsets, which stay inside it. -/
theorem cut_drop_eq_ok_iff {blobSize : UInt32} :
    cut blobSize start ends (content.drop start.toNat) = .ok texts ↔
      (start :: ends).IsChain (· ≤ ·) ∧ (∀ stop ∈ ends, stop ≤ blobSize) ∧
        slices (start :: ends) content = texts.map textBytes := by
  induction ends generalizing start texts with
  | nil => cases texts <;> simp [cut, slices]
  | cons stop ends ih =>
    rw [Decoder.cut_cons_eq_ok_iff]
    constructor
    · rintro ⟨hle, hstop, t, tail, rfl, ht, htail⟩
      rw [List.drop_drop, Nat.add_sub_cancel' (UInt32.le_iff_toNat_le.mp hle)] at htail
      obtain ⟨hchain, hends, hslices⟩ := ih.mp htail
      refine ⟨hchain.cons_cons hle, List.forall_mem_cons.mpr ⟨hstop, hends⟩, ?_⟩
      rw [slices_cons_cons, hslices, List.map_cons, ← ht, List.extract_eq_take_drop]
    · rintro ⟨hchain, hends, hslices⟩
      obtain ⟨hle, hchain⟩ := List.isChain_cons_cons.mp hchain
      obtain ⟨hstop, hends⟩ := List.forall_mem_cons.mp hends
      rw [slices_cons_cons] at hslices
      obtain ⟨t, tail, rfl, ht, htail⟩ := List.map_eq_cons_iff.mp hslices.symm
      refine ⟨hle, hstop, t, tail, rfl, ?_, ?_⟩
      · rw [ht, List.extract_eq_take_drop]
      · rw [List.drop_drop, Nat.add_sub_cancel' (UInt32.le_iff_toNat_le.mp hle)]
        exact ih.mpr ⟨hchain, hends, htail.symm⟩

theorem le_getLastD (h : offsets.Pairwise (· ≤ ·)) : ∀ offset ∈ offsets,
    offset ≤ offsets.getLastD 0 := by
  intro offset hoffset
  have hlast := h.rel_getLast_of_rel_getLast_getLast hoffset (UInt32.le_refl _)
  rwa [List.getLastD_eq_getLast?, List.getLast?_eq_getLast_of_ne_nil (List.ne_nil_of_mem hoffset)]

theorem length_blob (h : (offsets.getLastD 0).toNat ≤ left.length) :
    (blob offsets left).length = (offsets.getLastD 0).toNat := List.length_take_of_le h

/-- A blob is cut into texts exactly when its offsets never decrease and every piece is UTF-8. -/
theorem cut_blob_eq_ok_iff : cut (ends.getLastD 0) 0 ends (blob (0 :: ends) left) = .ok texts ↔
    (0 :: ends).Pairwise (· ≤ ·) ∧
      slices (0 :: ends) (blob (0 :: ends) left) = texts.map textBytes := by
  rw [← List.isChain_iff_pairwise]
  constructor
  · intro h
    obtain ⟨hchain, -, hslices⟩ := cut_drop_eq_ok_iff.mp h
    exact ⟨hchain, hslices⟩
  · rintro ⟨hchain, hslices⟩
    have hends := le_getLastD (List.isChain_iff_pairwise.mp hchain)
    rw [List.getLastD_cons] at hends
    exact cut_drop_eq_ok_iff.mpr ⟨hchain, (List.forall_mem_cons.mp hends).2, hslices⟩

variable {w w' : Window} {table : StringTable}

/-- A table is read when its offsets start with zero and measure a blob that is there and can be
cut. -/
theorem run_eq_ok_iff : decoder.run w = .ok table w' ↔ ∃ ends m,
    Scan.list Scan.uint w = .ok (0 :: ends) m ∧ (ends.getLastD 0).toNat ≤ m.remaining ∧
      cut (ends.getLastD 0) 0 ends (blob (0 :: ends) m.rest) = .ok table.toList ∧
      w' = m.advance (ends.getLastD 0).toNat := by
  have hthrow {fault : Fault} {v : Window} :
      TableDecoder.run (.fail fault) v ≠ .ok table w' := nofun
  have hpure {texts : List String} {v : Window} :
      TableDecoder.run (pure (ofList texts)) v = .ok table w' ↔ texts = table.toList ∧ w' = v := by
    change (pure (ofList texts) : Scan StringTable) v = _ ↔ _
    rw [Scan.pure_eq_ok]
    constructor
    · rintro ⟨rfl, rfl⟩
      exact ⟨rfl, rfl⟩
    · rintro ⟨rfl, rfl⟩
      exact ⟨rfl, rfl⟩
  rw [TableDecoder.run, decoder, Decoder.run_bind, Decoder.run_list, Decoder.run_uint,
    Scan.bind_eq_ok]
  simp only [blob, List.getLastD_cons]
  constructor
  · rintro ⟨offsets, m, hoffsets, h⟩
    cases offsets with
    | nil => exact absurd h hthrow
    | cons first ends =>
      dsimp only at h
      split at h
      · exact absurd h hthrow
      · rename_i hfirst
        obtain rfl := not_not.mp hfirst
        simp only [Decoder.run_bind, Decoder.run_bytes, Decoder.run_ofExcept, Scan.bind_eq_ok,
          Scan.bytes_eq_ok, Scan.ofExcept_eq_ok] at h
        obtain ⟨_, _, ⟨hle, rfl, rfl⟩, _, _, ⟨hcut, rfl⟩, h⟩ := h
        obtain ⟨rfl, rfl⟩ := hpure.mp h
        exact ⟨ends, m, hoffsets, hle, hcut, rfl⟩
  · rintro ⟨ends, m, hoffsets, hle, hcut, rfl⟩
    refine ⟨0 :: ends, m, hoffsets, ?_⟩
    dsimp only
    rw [if_neg (not_not.mpr rfl)]
    simp only [Decoder.run_bind, Decoder.run_bytes, Decoder.run_ofExcept, Scan.bind_eq_ok,
          Scan.bytes_eq_ok, Scan.ofExcept_eq_ok]
    exact ⟨_, _, ⟨hle, rfl, rfl⟩, _, _, ⟨hcut, rfl⟩, hpure.mpr ⟨rfl, rfl⟩⟩

/-- A table is read exactly where its offsets cut what follows them into texts, and its texts are
the pieces. -/
theorem run_eq_ok_iff_tiles : decoder.run w = .ok table w' ↔ ∃ offsets m,
    Scan.list Scan.uint w = .ok offsets m ∧ Tiles offsets m.rest ∧
      table.toList.map textBytes = slices offsets (blob offsets m.rest) ∧
      w' = m.advance (blob offsets m.rest).length := by
  rw [run_eq_ok_iff]
  constructor
  · rintro ⟨ends, m, hoffsets, hle, hcut, rfl⟩
    obtain ⟨hordered, hslices⟩ := cut_blob_eq_ok_iff.mp hcut
    have hinside : ((0 :: ends).getLastD 0).toNat ≤ m.rest.length := by
      rw [m.length_rest, List.getLastD_cons]
      exact hle
    refine ⟨0 :: ends, m, hoffsets, ⟨rfl, hordered, hinside, ?_⟩, hslices.symm, ?_⟩
    · intro piece hpiece
      rw [hslices] at hpiece
      obtain ⟨t, -, rfl⟩ := List.mem_map.mp hpiece
      exact t.isValidUTF8
    · rw [length_blob hinside, List.getLastD_cons]
  · rintro ⟨offsets, m, hoffsets, htiles, hslices, rfl⟩
    obtain ⟨ends, rfl⟩ := List.head?_eq_some_iff.mp htiles.first
    have hinside := htiles.inside
    rw [length_blob hinside, List.getLastD_cons]
    rw [List.getLastD_cons, m.length_rest] at hinside
    exact ⟨ends, m, hoffsets, hinside, cut_blob_eq_ok_iff.mpr ⟨htiles.ordered, hslices.symm⟩, rfl⟩

/-- Pieces that are all UTF-8 are the bytes of texts. -/
theorem Tiles.exists_texts (h : Tiles offsets left) :
    ∃ texts : List String, texts.map textBytes = slices offsets (blob offsets left) := by
  have hpieces : slices offsets (blob offsets left) ∈ Set.range (List.map textBytes) := by
    rw [Set.range_list_map]
    exact fun piece hpiece => isValidUTF8_iff.mp (h.texts piece hpiece)
  exact hpieces

/-- The pieces that tile a blob make it up. -/
theorem Tiles.flatten_slices (h : Tiles offsets left) :
    (slices offsets (blob offsets left)).flatten = blob offsets left := by
  obtain ⟨ends, rfl⟩ := List.head?_eq_some_iff.mp h.first
  obtain ⟨texts, htexts⟩ := h.exists_texts
  have hcut := cut_blob_eq_ok_iff.mpr ⟨h.ordered, htexts.symm⟩
  have hsize : (0 : UInt32).toNat + (blob (0 :: ends) left).length = (ends.getLastD 0).toNat := by
    rw [length_blob h.inside, List.getLastD_cons, UInt32.toNat_zero, Nat.zero_add]
  obtain ⟨-, hblob⟩ := (Decoder.cut_eq_ok_iff rfl hsize).mp hcut
  rw [← htexts, ← List.flatMap_def, ← hblob]

/-- The numbers in front of the texts: how many offsets there are, and then a zero and where each
text ends. -/
def numbers (texts : List String) : List Nat := (texts.length + 1) :: 0 :: textEnds 0 texts

/-- A table as it is written, none if one of its numbers has no tier that holds it. -/
def encode? (texts : List String) : Option (List UInt8) :=
  if ∀ n ∈ numbers texts, n < Uint.limit then
    some ((numbers texts).flatMap Uint.encode ++ texts.flatMap textBytes)
  else none

theorem length_textEnds (start : Nat) (texts : List String) :
    (textEnds start texts).length = texts.length := by
  induction texts generalizing start with
  | nil => rfl
  | cons t texts ih => rw [textEnds, List.length_cons, ih, List.length_cons]

/-- Every text ends inside the blob. -/
theorem le_of_mem_textEnds {start n : Nat} (h : n ∈ textEnds start texts) :
    n ≤ start + (texts.flatMap textBytes).length := by
  induction texts generalizing start with
  | nil => cases h
  | cons t texts ih =>
    rw [List.flatMap_cons, List.length_append]
    rcases List.mem_cons.mp h with rfl | htail
    · omega
    · have hle := ih htail
      omega

theorem strings_ofList (texts : List String) : strings (ofList texts) =
    (numbers texts).flatMap Layout.uint ++ Layout.bytes (texts.flatMap textBytes) := by
  rw [strings, Layout.list, List.length_cons]
  change Layout.uint ((textEnds 0 texts).length + 1) ++ _ ++ _ = _
  rw [length_textEnds]
  rfl

theorem write_uints (ns : List Nat) :
    Layout.write TableLayout.trees (ns.flatMap Layout.uint) = ns.flatMap Uint.encode := by
  induction ns with
  | nil => rfl
  | cons n ns ih =>
    rw [List.flatMap_cons, Layout.write_append, ih, Layout.uint, Layout.write_token]
    rfl

/-- A table that can be written is read back, whatever follows it. -/
theorem run_of_encode? {bytes rest : List UInt8} (h : encode? texts = some bytes)
    (hrest : w.rest = bytes ++ rest) :
    decoder.run w = .ok (ofList texts) (w.advance bytes.length) := by
  obtain ⟨hfits, hbytes⟩ := Option.ite_none_right_eq_some.mp h
  have hwrite : (strings (ofList texts)).write TableLayout.trees = bytes := by
    rw [strings_ofList, Layout.write_append, write_uints, Layout.write_bytes]
    exact Option.some.inj hbytes
  have hlayout : (strings (ofList texts)).Fits TableLayout.trees := by
    simp only [strings_ofList, Layout.fits_append, Layout.fits_flatMap, Layout.fits_uint,
      Layout.fits_bytes, and_true]
    exact hfits
  rw [← hwrite] at hrest ⊢
  exact Decoder.run_of_fits (TableLayout.written _) hlayout hrest

/-- Short texts can be written unless they are too many. -/
theorem isSome_encode? (h : (texts.flatMap textBytes).length < 2 ^ 30) :
    (encode? texts).isSome ↔ texts.length + 1 < 2 ^ 30 := by
  have hends : ∀ n ∈ textEnds 0 texts, n < 2 ^ 30 := by
    intro n hn
    have hle := le_of_mem_textEnds hn
    omega
  simp only [encode?, Option.isSome_ite, numbers, List.forall_mem_cons]
  exact ⟨fun hfits => hfits.1, fun hcount => ⟨hcount, by decide, hends⟩⟩

/-- The texts of a table tile its blob. A table is read exactly where there is a positive number of
offsets and as many offsets, which start with zero, never decrease, and cut the bytes behind them
into UTF-8. It has one text fewer than there are offsets, each of them the piece between two
offsets; together they are the blob, and the cursor stops right behind it. A table that is written
is read back, whatever follows it. -/
theorem texts_tile :
    (∀ w : Window, (∃ table w', decoder.run w = .ok table w') ↔
      ∃ count offsets v m, Scan.uint w = .ok count v ∧ 1 ≤ count.toNat ∧
        Scan.many Scan.uint count.toNat v = .ok offsets m ∧ Tiles offsets m.rest) ∧
    (∀ (w w' : Window) (table : StringTable), decoder.run w = .ok table w' →
      ∃ count offsets v m, Scan.uint w = .ok count v ∧
        Scan.many Scan.uint count.toNat v = .ok offsets m ∧ Tiles offsets m.rest ∧
        table.size + 1 = count.toNat ∧
        table.toList.map textBytes = slices offsets (blob offsets m.rest) ∧
        table.toList.flatMap textBytes = blob offsets m.rest ∧
        w' = m.advance (blob offsets m.rest).length ∧
        w'.position = m.position + (offsets.getLastD 0).toNat) ∧
    ∀ texts : List String, (texts.flatMap textBytes).length < 2 ^ 30 →
      ((encode? texts).isSome ↔ texts.length + 1 < 2 ^ 30) ∧
      ∀ bytes, encode? texts = some bytes → ∀ (w : Window) (rest : List UInt8),
        w.rest = bytes ++ rest →
        decoder.run w = .ok (ofList texts) (w.advance bytes.length) ∧
          (w.advance bytes.length).rest = rest := by
  refine ⟨?_, ?_, ?_⟩
  · intro w
    constructor
    · rintro ⟨table, w', h⟩
      obtain ⟨offsets, m, hlist, htiles, -⟩ := run_eq_ok_iff_tiles.mp h
      obtain ⟨count, v, hcount, hmany⟩ := Scan.list_eq_ok.mp hlist
      have hpos : 1 ≤ count.toNat := by
        rw [← Scan.length_of_many hmany]
        exact htiles.length_pos
      exact ⟨count, offsets, v, m, hcount, hpos, hmany, htiles⟩
    · rintro ⟨count, offsets, v, m, hcount, -, hmany, htiles⟩
      obtain ⟨texts, htexts⟩ := htiles.exists_texts
      have hlist := Scan.list_eq_ok.mpr ⟨count, v, hcount, hmany⟩
      exact ⟨ofList texts, _, run_eq_ok_iff_tiles.mpr ⟨offsets, m, hlist, htiles, htexts, rfl⟩⟩
  · intro w w' table h
    obtain ⟨offsets, m, hlist, htiles, hslices, rfl⟩ := run_eq_ok_iff_tiles.mp h
    obtain ⟨count, v, hcount, hmany⟩ := Scan.list_eq_ok.mp hlist
    refine ⟨count, offsets, v, m, hcount, hmany, htiles, ?_, hslices, ?_, rfl, ?_⟩
    · have hlength := congrArg List.length hslices
      have hpos := htiles.length_pos
      rw [List.length_map, length_slices] at hlength
      rw [← Scan.length_of_many hmany]
      change table.toList.length + 1 = offsets.length
      omega
    · rw [List.flatMap_def, hslices, htiles.flatten_slices]
    · rw [length_blob htiles.inside, Window.position_advance_of_le]
      rw [← m.length_rest]
      exact htiles.inside
  · intro texts hsize
    refine ⟨isSome_encode? hsize, ?_⟩
    intro bytes hbytes w rest hrest
    refine ⟨run_of_encode? hbytes hrest, ?_⟩
    rw [Window.rest_advance, hrest, List.drop_left]

/-- A text of two bytes, an empty one and a longer one, with one more byte behind them. -/
theorem texts_tile_multibyte :
    let w := Window.ofBytes ⟨#[4, 0, 2, 2, 9, 0xC3, 0xA9, 108, 97, 110, 32, 0xCE, 0xBB, 120, 7]⟩
    ∃ w', decoder.run w = .ok (ofList ["é", "", "lan λx"]) w' ∧ w'.rest = [7] ∧
      ∃ offsets, ∃ m : Window, Tiles offsets m.rest ∧ offsets.length = 4 ∧ w' = m.advance 9 := by
  intro w
  obtain ⟨-, hread, hwritten⟩ := texts_tile
  have hbytes : encode? ["é", "", "lan λx"] =
      some [4, 0, 2, 2, 9, 0xC3, 0xA9, 108, 97, 110, 32, 0xCE, 0xBB, 120] := by decide +kernel
  obtain ⟨-, hback⟩ := hwritten ["é", "", "lan λx"] (by decide +kernel)
  obtain ⟨hrun, hrest⟩ := hback _ hbytes w [7] (by decide +kernel)
  obtain ⟨count, offsets, v, m, -, hmany, htiles, hsize, -, hblob, hw', -⟩ := hread _ _ _ hrun
  refine ⟨_, hrun, hrest, offsets, m, htiles, ?_, ?_⟩
  · rw [Scan.length_of_many hmany, ← hsize]
    rfl
  · rw [hw', ← hblob]
    congr 1

/-- Offsets that split a character. -/
example : decoder.run.value (.ofBytes ⟨#[3, 0, 1, 2, 0xC3, 0xA9]⟩) =
    .error (.invalidText .stringTable) := by decide +kernel

end StringTable
end DartKernel
