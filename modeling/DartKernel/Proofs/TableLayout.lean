import DartKernel.Component.Directory
import DartKernel.Component.Header
import DartKernel.Component.Source
import DartKernel.Session
import DartKernel.Proofs.Carving
import DartKernel.Proofs.Layout

namespace DartKernel

abbrev TableLayout := Layout (Empty.elim : Empty → Type)

namespace TableLayout
open Layout

/-- The problems of the front end, where the version has room for them. -/
def header (it : Header) : TableLayout :=
  word Header.magic ++ word it.version.number
    ++ if it.version.hasProblems then list text it.problems else require (it.problems = [])

def canonicalName (it : CanonicalName) : TableLayout :=
  uint it.parent.raw.toNat ++ uint it.name.raw.toNat

def canonicalNames (it : CanonicalNames) : TableLayout := list canonicalName it.toList

/-- Where each text ends in the blob, when the first one starts at `start`. -/
def textEnds : (start : Nat) → List String → List Nat
  | _, [] => []
  | start, t :: texts =>
    (start + (textBytes t).length) :: textEnds (start + (textBytes t).length) texts

/-- The end offsets, after a zero, and the blob that they cut. -/
def strings (it : StringTable) : TableLayout :=
  list uint (0 :: textEnds 0 it.toList) ++ bytes (it.toList.flatMap textBytes)

def distances : (previous : UInt32) → List UInt32 → List Nat
  | _, [] => []
  | previous, start :: starts => (start.toNat - previous.toNat) :: distances start starts

def sourceInfo (it : SourceInfo) : TableLayout :=
  text it.uri ++ text it.source ++ require (it.lineStarts.Pairwise (· ≤ ·))
    ++ list uint (distances 0 it.lineStarts)

def sources (it : SourceTable) : TableLayout :=
  require (it.index.length = it.size ∧ it.size < UInt32.size) ++ word it.size.toUInt32
    ++ it.sources.flatMap sourceInfo ++ words it.index

def directoryWords (it : Directory) : List UInt32 :=
  [it.sourceTable, it.canonicalNames, it.metadataPayloads, it.metadataMappings, it.stringTable,
    it.constantTable, it.mainMethod.raw] ++ it.libraryOffsets ++ [it.libraryCount, it.fileSize]

/-- A directory whose number of libraries and file size are given. -/
def directory (libraryCount fileSize : UInt32) (it : Directory) : TableLayout :=
  require (it.libraryCount = libraryCount ∧ it.fileSize = fileSize ∧
      it.libraryOffsets.length = libraryCount.toNat + 1)
    ++ words (directoryWords it)

end TableLayout

namespace Decoder
open Layout TableLayout

variable {g : Grammar (Empty.elim : Empty → Type)} {spelling : Spelling} {depth : Nat}
  {trees : (sort : Empty) → Reading (Empty.elim sort)} {s r : List UInt8}

/-- A word that is checked is the one expected. -/
theorem gives_check (word : RedundantWord) (expected : UInt32)
    (p : Unit → List UInt8 → Prop) :
    (Directory.check word expected).Gives spelling trees s p ↔
      ∃ m, s = wordBytes expected ++ m ∧ p () m := by
  rw [Directory.check, gives_expected]
  simp only [reads_word]

theorem gives_words (count : Nat) (p : List UInt32 → List UInt8 → Prop) :
    (words count : TableDecoder (List UInt32)).Gives spelling trees s p ↔
      ∃ ws m, ws.length = count ∧ s = wordsBytes ws ++ m ∧ p ws m := by
  simp only [Gives, reads_words, and_assoc]

instance {libraryCount fileSize : UInt32} :
    Laid g (Directory.decoder libraryCount fileSize) (directory libraryCount fileSize) := by
  apply Laid.of_gives
  intro spelling depth s it r
  cases it with
  | mk _ _ _ _ _ _ mainMethod =>
    cases mainMethod
    simp only [Directory.decoder, directory, directoryWords, gives_check, gives_bind, gives_pure,
      gives_and_left, gives_eq_and, gives_words, Directory.mk.injEq, Ref.mk.injEq, and_assoc,
      reading_append, reading_require, reading_word, reading_words]
    constructor
    · intro h
      obtain ⟨_, rfl, _, rfl, _, rfl, _, rfl, _, rfl, _, rfl, _, rfl, _, _, hl, rfl, rfl, hcount,
        hsize, _, rfl, _, rfl, rfl⟩ := h
      refine ⟨_, hcount, hsize, hl, rfl, ?_⟩
      simp [hcount, hsize]
    · intro h
      rcases h with ⟨_, rfl, rfl, hl, rfl, hs⟩
      refine ⟨_, ?_, _, rfl, _, rfl, _, rfl, _, rfl, _, rfl, _, rfl, _, _, hl, rfl, rfl, rfl, rfl,
        _, rfl, _, rfl, rfl⟩
      simpa using hs

instance : Laid g Header.decoder header where
  reads_iff spelling depth s it r := by
    obtain ⟨version, problems⟩ := it
    rw [Header.decoder, reads_expected]
    simp only [header, reads_bind, reads_word, reading_append, reading_word]
    constructor
    · intro h
      obtain ⟨m, hs, number, m', hm, h⟩ := h
      split at h
      · rename_i hv
        obtain ⟨found, _, hp, h, rfl⟩ := (reads_bind ..).mp h
        cases h
        rw [if_pos hv]
        exact ⟨m', ⟨m, hs, hm⟩, (Laid.reads_iff ..).mp hp⟩
      · rename_i hv
        obtain ⟨h, rfl⟩ := h
        cases h
        rw [if_neg hv]
        exact ⟨r, ⟨m, hs, hm⟩, (reading_require _).mpr ⟨rfl, rfl⟩⟩
    · intro h
      obtain ⟨m', ⟨m, hs, hm⟩, h⟩ := h
      refine ⟨m, hs, version.number, m', hm, ?_⟩
      by_cases hv : version.hasProblems
      · rw [if_pos hv] at h ⊢
        exact (reads_bind ..).mpr ⟨problems, r, (Laid.reads_iff ..).mpr h, rfl, rfl⟩
      · rw [if_neg hv, reading_require] at h
        rw [if_neg hv]
        obtain ⟨rfl, rfl⟩ := h
        exact ⟨rfl, rfl⟩

instance : Laid g CanonicalNames.decoder canonicalNames where
  reads_iff spelling depth s it r := by
    have helement : Laid g (do return ⟨⟨← uint⟩, ⟨← uint⟩⟩ : TableDecoder CanonicalName)
        canonicalName := by
      apply Laid.of_gives
      intro spelling depth s it r
      obtain ⟨⟨parent⟩, ⟨name⟩⟩ := it
      simp [canonicalName, and_assoc]
    simp only [CanonicalNames.decoder, canonicalNames, reads_bind, reads_pure]
    constructor
    · intro h
      rcases h with ⟨names, m, h, rfl, rfl⟩
      exact (Laid.reads_iff ..).mp h
    · intro h
      exact ⟨it.toList, r, (Laid.reads_iff ..).mpr h, rfl, rfl⟩

/-- A stop at or after the start, inside the blob, takes a text off the front of the blob. -/
theorem cut_cons_eq_ok_iff {blobSize start stop : UInt32} {ends : List UInt32} {rest : List UInt8}
    {texts : List String} :
    StringTable.cut blobSize start (stop :: ends) rest = .ok texts ↔
      start ≤ stop ∧ stop ≤ blobSize ∧ ∃ t tail, texts = t :: tail ∧
        rest.take (stop.toNat - start.toNat) = textBytes t ∧
        StringTable.cut blobSize stop ends (rest.drop (stop.toNat - start.toNat)) = .ok tail := by
  have hthrow {β : Type} {fault : Fault} {f : Unit → Except Fault β} {b : β} :
      ¬ (throw fault >>= f) = .ok b := nofun
  rw [StringTable.cut]
  by_cases hstart : stop < start
  · have hle : ¬ start ≤ stop := UInt32.not_le.mpr hstart
    simp only [hstart, if_true, hthrow, hle, false_and]
  · by_cases hstop : blobSize < stop
    · have hle : ¬ stop ≤ blobSize := UInt32.not_le.mpr hstop
      simp only [hstart, hstop, if_true, if_false, hthrow, hle, false_and, and_false]
    · simp only [hstart, hstop, if_false, bind_eq_ok, utf8_eq_ok_iff]
      constructor
      · intro h
        rcases h with ⟨t, ht, tail, htail, h⟩
        cases h
        exact ⟨UInt32.not_lt.mp hstart, UInt32.not_lt.mp hstop, t, tail, rfl, ht, htail⟩
      · intro h
        rcases h with ⟨-, -, t, tail, rfl, ht, htail⟩
        exact ⟨t, ht, tail, htail, rfl⟩

/-- End offsets cut the blob that they measure into the texts whose ends they are. -/
theorem cut_eq_ok_iff {blobSize start : UInt32} {ends : List UInt32} {rest : List UInt8}
    {texts : List String} (hlast : ends.getLastD start = blobSize)
    (hrest : start.toNat + rest.length = blobSize.toNat) :
    StringTable.cut blobSize start ends rest = .ok texts ↔
      ends.map UInt32.toNat = textEnds start.toNat texts ∧ rest = texts.flatMap textBytes := by
  induction ends generalizing start rest texts with
  | nil =>
    have hstart : start = blobSize := hlast
    have hnil : rest = [] := List.length_eq_zero_iff.mp (by rw [hstart] at hrest; omega)
    cases texts <;> simp [StringTable.cut, textEnds, hnil]
  | cons stop ends ih =>
    rw [List.getLastD_cons] at hlast
    rw [cut_cons_eq_ok_iff]
    constructor
    · intro h
      rcases h with ⟨hstart, hstop, t, tail, rfl, ht, htail⟩
      have hle := UInt32.le_iff_toNat_le.mp hstart
      have hle' := UInt32.le_iff_toNat_le.mp hstop
      have hlen : (textBytes t).length = stop.toNat - start.toNat := by
        rw [← ht, List.length_take]
        omega
      obtain ⟨hends, hdrop⟩ := (ih hlast (by rw [List.length_drop]; omega)).mp htail
      have hsum : start.toNat + (textBytes t).length = stop.toNat := by omega
      refine ⟨?_, ?_⟩
      · rw [List.map_cons, textEnds, hsum, hends]
      · rw [List.flatMap_cons, ← ht, ← hdrop, List.take_append_drop]
    · intro h
      rcases h with ⟨hends, rfl⟩
      cases texts with
      | nil => simp [textEnds] at hends
      | cons t tail =>
        rw [List.map_cons, textEnds, List.cons.injEq] at hends
        obtain ⟨hstop, hends⟩ := hends
        rw [List.flatMap_cons, List.length_append] at hrest
        have hsize : stop.toNat - start.toNat = (textBytes t).length := by omega
        have hcut : StringTable.cut blobSize stop ends (tail.flatMap textBytes) = .ok tail :=
          (ih hlast (by omega)).mpr ⟨hstop ▸ hends, rfl⟩
        refine ⟨UInt32.le_iff_toNat_le.mpr (by omega), UInt32.le_iff_toNat_le.mpr (by omega), t,
          tail, rfl, ?_, ?_⟩
        · rw [hsize, List.flatMap_cons, List.take_left]
        · rw [hsize, List.flatMap_cons, List.drop_left]
          exact hcut

/-- Numbers that can be read are words. -/
theorem exists_words {ns : List Nat}
    (h : Layout.reading spelling trees s (ns.flatMap Layout.uint) r) :
    ∃ ws : List UInt32, ws.map UInt32.toNat = ns := by
  induction ns generalizing s with
  | nil => exact ⟨[], rfl⟩
  | cons n ns ih =>
    obtain ⟨m, hn, hns⟩ := (reading_append ..).mp h
    obtain ⟨bytes, hn, -⟩ := (reading_uint n).mp hn
    obtain ⟨w, hw⟩ := spelling.exists_toNat_eq hn
    obtain ⟨ws, hws⟩ := ih hns
    exact ⟨w :: ws, by rw [List.map_cons, hw, hws]⟩

theorem reads_uints (ws : List UInt32) :
    (list uint : TableDecoder (List UInt32)).Reads spelling (TreeReads spelling g depth) s ws r ↔
      Layout.reading spelling (TreeReads spelling g depth) s
        (Layout.list Layout.uint (ws.map UInt32.toNat)) r := by
  rw [Laid.reads_iff, Layout.list, Layout.list, List.flatMap_map, List.length_map]

/-- The last end offset measures the blob. -/
theorem toNat_getLastD {start : UInt32} {ends : List UInt32} {texts : List String}
    (h : ends.map UInt32.toNat = textEnds start.toNat texts) :
    (ends.getLastD start).toNat = start.toNat + (texts.flatMap textBytes).length := by
  induction ends generalizing start texts with
  | nil =>
    cases texts with
    | nil => rfl
    | cons t texts => simp [textEnds] at h
  | cons stop ends ih =>
    cases texts with
    | nil => simp [textEnds] at h
    | cons t texts =>
      obtain ⟨hstop, hends⟩ := List.cons.inj h
      rw [List.getLastD_cons, ih (hstop ▸ hends), hstop, List.flatMap_cons, List.length_append,
        Nat.add_assoc]

instance : Laid g StringTable.decoder strings where
  reads_iff spelling depth s it r := by
    simp only [StringTable.decoder, strings, reads_bind, reads_uints, reading_append, reading_bytes]
    constructor
    · intro h
      rcases h with ⟨ends, m, hends, h⟩
      cases ends with
      | nil => exact h.elim
      | cons first ends =>
        obtain ⟨hfirst, h⟩ := (reads_if_fail ..).mp h
        obtain ⟨blob, m', hblob, h⟩ := (reads_bind ..).mp h
        obtain ⟨texts, _, hcut, hit⟩ := (reads_bind ..).mp h
        obtain ⟨hok, rfl⟩ := (reads_ofExcept ..).mp hcut
        obtain ⟨rfl, rfl⟩ := hit
        obtain ⟨hl, rfl⟩ := (reads_bytes ..).mp hblob
        obtain ⟨htexts, hall⟩ := (cut_eq_ok_iff rfl (by rw [hl]; exact Nat.zero_add _)).mp hok
        refine ⟨_, ?_, congrArg (· ++ _) hall⟩
        rw [List.map_cons, htexts, not_not.mp hfirst] at hends
        exact hends
    · intro h
      rcases h with ⟨m, hends, rfl⟩
      obtain ⟨ws, hws⟩ := exists_words ((reading_append ..).mp hends).choose_spec.2
      cases ws with
      | nil => simp at hws
      | cons first ends =>
        obtain ⟨hfirst, htexts⟩ := List.cons.inj hws
        have hfirst : first = 0 := UInt32.toNat_inj.mp hfirst
        have hsize : (ends.getLastD 0).toNat = (it.toList.flatMap textBytes).length := by
          rw [toNat_getLastD htexts, UInt32.toNat_zero, Nat.zero_add]
        refine ⟨first :: ends, _, hws ▸ hends, (reads_if_fail ..).mpr ⟨not_not.mpr hfirst, ?_⟩⟩
        refine (reads_bind ..).mpr ⟨_, r, (reads_bytes ..).mpr ⟨hsize.symm, rfl⟩, ?_⟩
        refine (reads_bind ..).mpr ⟨it.toList, r, (reads_ofExcept ..).mpr ⟨?_, rfl⟩, rfl, rfl⟩
        exact (cut_eq_ok_iff rfl (by rw [hsize]; exact Nat.zero_add _)).mpr ⟨htexts, rfl⟩

/-- A line start is read as its distance from the one before, which it is not in front of. -/
theorem reads_lineStartsOnto_succ {uri : String} {count : Nat} {previous : UInt32}
    {done ys : List UInt32} :
    (SourceInfo.lineStartsOnto uri (count + 1) previous done).Reads spelling trees s ys r ↔
      ∃ next m, previous ≤ next ∧
        Layout.reading spelling trees s (Layout.uint (next.toNat - previous.toNat)) m ∧
        (SourceInfo.lineStartsOnto uri count next (next :: done)).Reads spelling trees m ys r := by
  simp only [SourceInfo.lineStartsOnto, reads_bind, reads_uint, reading_uint]
  constructor
  · intro h
    rcases h with ⟨n, m, hn, h⟩
    split at h
    · rename_i hlt
      have hnext : (previous.toNat + n.toNat).toUInt32.toNat = previous.toNat + n.toNat :=
        UInt32.toNat_ofNat_of_lt' hlt
      refine ⟨_, m, ?_, ?_, h⟩
      · rw [UInt32.le_iff_toNat_le, hnext]
        exact Nat.le_add_right ..
      · rw [hnext, Nat.add_sub_cancel_left]
        exact hn
    · exact h.elim
  · intro h
    obtain ⟨next, m, hle, ⟨bytes, hb, hs⟩, h⟩ := h
    rw [UInt32.le_iff_toNat_le] at hle
    obtain ⟨n, hn⟩ := spelling.exists_toNat_eq hb
    have hsum : previous.toNat + n.toNat = next.toNat := by omega
    have hnext : next.toNat.toUInt32 = next := by simp
    refine ⟨n, m, ⟨bytes, hn ▸ hb, hs⟩, ?_⟩
    rw [hsum, if_pos next.toNat_lt, hnext]
    exact h

/-- Line starts that are read after `previous` do not decrease from there on. -/
theorem reads_lineStartsOnto {uri : String} {count : Nat} {previous : UInt32}
    {done ys : List UInt32} :
    (SourceInfo.lineStartsOnto uri count previous done).Reads spelling trees s ys r ↔
      ∃ starts, ys = done.reverse ++ starts ∧ starts.length = count ∧
        (previous :: starts).IsChain (· ≤ ·) ∧
        Layout.reading spelling trees s ((distances previous starts).flatMap Layout.uint) r := by
  induction count generalizing previous done s with
  | zero =>
    rw [SourceInfo.lineStartsOnto, reads_pure]
    constructor
    · intro h
      rcases h with ⟨rfl, rfl⟩
      exact ⟨[], by simp, rfl, by simp, rfl⟩
    · intro h
      rcases h with ⟨starts, rfl, hl, -, hr⟩
      obtain rfl := List.length_eq_zero_iff.mp hl
      exact ⟨by simp, hr⟩
  | succ count ih =>
    simp only [reads_lineStartsOnto_succ, ih]
    constructor
    · intro h
      obtain ⟨next, m, hle, hn, starts, rfl, hl, hchain, hread⟩ := h
      refine ⟨next :: starts, by simp, congrArg (· + 1) hl, .cons_cons hle hchain, ?_⟩
      rw [distances, List.flatMap_cons]
      exact (reading_append ..).mpr ⟨m, hn, hread⟩
    · intro h
      rcases h with ⟨starts, rfl, hl, hchain, hread⟩
      cases starts with
      | nil => cases hl
      | cons next starts =>
        obtain ⟨hle, hchain⟩ := List.isChain_cons_cons.mp hchain
        rw [distances, List.flatMap_cons, reading_append] at hread
        obtain ⟨m, hn, hread⟩ := hread
        exact ⟨next, m, hle, hn, starts, by simp, by simpa using hl, hchain, hread⟩

theorem isChain_zero_iff {starts : List UInt32} :
    (0 :: starts).IsChain (· ≤ ·) ↔ starts.Pairwise (· ≤ ·) := by
  rw [List.isChain_iff_pairwise, List.pairwise_cons]
  exact and_iff_right fun start _ => UInt32.le_iff_toNat_le.mpr (Nat.zero_le _)

theorem length_distances (previous : UInt32) (starts : List UInt32) :
    (distances previous starts).length = starts.length := by
  induction starts generalizing previous with
  | nil => rfl
  | cons start starts ih => simp [distances, ih]

instance : Laid g SourceInfo.decoder sourceInfo where
  reads_iff spelling depth s it r := by
    simp only [SourceInfo.decoder, sourceInfo, Layout.list, reads_bind, Laid.reads_iff,
      reads_lineStartsOnto, isChain_zero_iff, length_distances, reading_append, reading_require]
    constructor
    · intro h
      obtain ⟨_, _, huri, _, _, hsource, count, m, hcount, _, _, ⟨starts, rfl, hl, hsorted, hread⟩,
        rfl, rfl⟩ := h
      rw [← hl] at hcount
      exact ⟨_, ⟨_, ⟨_, huri, hsource⟩, hsorted, rfl⟩, m, hcount, hread⟩
    · intro h
      obtain ⟨_, ⟨_, ⟨_, huri, hsource⟩, hsorted, rfl⟩, m, hcount, hread⟩ := h
      obtain ⟨bytes, hb, hs⟩ := (reading_uint _).mp hcount
      obtain ⟨count, hl⟩ := spelling.exists_toNat_eq hb
      refine ⟨_, _, huri, _, _, hsource, count, m, hl ▸ hcount, _, r, ⟨_, rfl, hl.symm, hsorted,
        hread⟩, rfl, rfl⟩

instance : Laid g SourceTable.decoder sources where
  reads_iff spelling depth s it r := by
    simp only [SourceTable.decoder, sources, reads_bind, reads_word, reads_many, reads_words,
      reading_many_iff, reading_append, reading_require, reading_word, reading_words]
    constructor
    · intro h
      obtain ⟨count, m, rfl, infos, m', ⟨hsources, hread⟩, index, m'', ⟨hindex, rfl⟩, rfl,
        rfl⟩ := h
      have hcount : infos.length.toUInt32 = count := by
        rw [hsources]
        simp
      have hlt : infos.length < UInt32.size := hsources ▸ count.toNat_lt
      refine ⟨_, ⟨m, ⟨_, ⟨⟨hindex.trans hsources.symm, hlt⟩, rfl⟩, ?_⟩, hread⟩, rfl⟩
      rw [SourceTable.size, hcount]
    · intro h
      obtain ⟨_, ⟨m, ⟨_, ⟨⟨hindex, hlt⟩, rfl⟩, rfl⟩, hread⟩, rfl⟩ := h
      have hcount : it.size.toUInt32.toNat = it.size := UInt32.toNat_ofNat_of_lt' hlt
      exact ⟨_, m, rfl, it.sources, _, ⟨hcount.symm, hread⟩, it.index, r, ⟨hindex.trans hcount.symm,
        rfl⟩, rfl, rfl⟩

end Decoder
end DartKernel
