import DartKernel.Proofs.ComponentLayout
import DartKernel.Proofs.Locality

namespace DartKernel

namespace Scan

variable {element : Scan α} {count : Nat} {w m : Window} {xs : List α}

theorem many_succ_eq_ok : many element (count + 1) w = .ok xs m ↔ ∃ x v xs',
    element w = .ok x v ∧ many element count v = .ok xs' m ∧ xs = x :: xs' := by
  simp only [many_succ, bind_eq_ok, pure_eq_ok]
  constructor
  · rintro ⟨x, v, hx, xs', _, hxs, rfl, rfl⟩
    exact ⟨x, v, xs', hx, hxs, rfl⟩
  · rintro ⟨x, v, xs', hx, hxs, rfl⟩
    exact ⟨x, v, hx, xs', m, hxs, rfl, rfl⟩

theorem list_eq_ok : list element w = .ok xs m ↔
    ∃ count v, uint w = .ok count v ∧ many element count.toNat v = .ok xs m := bind_eq_ok

theorem length_of_many (h : many element count w = .ok xs m) : xs.length = count := by
  induction count generalizing w xs with
  | zero =>
    cases h
    rfl
  | succ count ih =>
    obtain ⟨x, v, xs', -, hxs, rfl⟩ := many_succ_eq_ok.mp h
    exact congrArg (· + 1) (ih hxs)

end Scan

namespace SourceInfo
open Decoder

/-- What a source is stored as, up to its first `count` distances: the bytes of both texts and how
far each line start is from the one before. -/
def scanFirst (count : Nat) : Scan (List UInt8 × List UInt8 × List UInt32) := do
  let uri ← Scan.byteList
  let source ← Scan.byteList
  let _ ← Scan.uint
  return (uri, source, ← Scan.many Scan.uint count)

def scanStored : Scan (List UInt8 × List UInt8 × List UInt32) := do
  let uri ← Scan.byteList
  let source ← Scan.byteList
  return (uri, source, ← Scan.list Scan.uint)

def lineStart (distances : List UInt32) (line : Nat) : Nat :=
  ((distances.take (line + 1)).map UInt32.toNat).sum

variable {uri : String} {distance previous : UInt32} {distances done : List UInt32} {w m : Window}

@[simp] theorem lineStart_zero : lineStart (distance :: distances) 0 = distance.toNat := by
  simp [lineStart]

@[simp] theorem lineStart_succ (line : Nat) : lineStart (distance :: distances) (line + 1) =
    distance.toNat + lineStart distances line := by
  simp [lineStart]

/-- A line start is read as the sum with the one before it, if that is a word. -/
theorem run_lineStartsOnto_succ {count : Nat} {next : UInt32} {v : Window}
    (h : Scan.uint w = .ok distance v) (hnext : next.toNat = previous.toNat + distance.toNat) :
    TableDecoder.run (lineStartsOnto uri (count + 1) previous done) w =
      TableDecoder.run (lineStartsOnto uri count next (next :: done)) v := by
  have hword : next.toNat.toUInt32 = next := by simp
  rw [lineStartsOnto, TableDecoder.run, run_bind, Scan.bind_eq, run_uint, h]
  dsimp only
  rw [← hnext, if_pos next.toNat_lt, hword]
  rfl

theorem run_lineStartsOnto_over {count : Nat} {v : Window} (h : Scan.uint w = .ok distance v)
    (hover : UInt32.size ≤ previous.toNat + distance.toNat) :
    TableDecoder.run (lineStartsOnto uri (count + 1) previous done) w =
      .error (.format (.lineStartsOverflow uri)) v := by
  rw [lineStartsOnto, TableDecoder.run, run_bind, Scan.bind_eq, run_uint, h]
  dsimp only
  rw [if_neg (Nat.not_lt.mpr hover)]
  rfl

/-- Line starts that are words are read as what they are. -/
theorem run_lineStartsOnto (h : Scan.many Scan.uint distances.length w = .ok distances m)
    (hfits : ∀ line < distances.length, previous.toNat + lineStart distances line < UInt32.size) :
    ∃ starts, TableDecoder.run (lineStartsOnto uri distances.length previous done) w =
        .ok (done.reverse ++ starts) m ∧ starts.length = distances.length ∧
      ∀ line start, starts[line]? = some start →
        start.toNat = previous.toNat + lineStart distances line := by
  induction distances generalizing previous done w with
  | nil =>
    cases h
    exact ⟨[], by rw [List.append_nil]; rfl, rfl, nofun⟩
  | cons distance distances ih =>
    obtain ⟨_, v, _, hdistance, hrest, hcons⟩ := Scan.many_succ_eq_ok.mp h
    cases hcons
    have hfirst : previous.toNat + distance.toNat < UInt32.size := hfits 0 (Nat.succ_pos _)
    obtain ⟨next, hnext⟩ : ∃ next : UInt32, next.toNat = previous.toNat + distance.toNat :=
      ⟨_, UInt32.toNat_ofNat_of_lt' hfirst⟩
    -- The sums of the other distances count from here, so they start with one distance less.
    obtain ⟨starts, hrun, hlength, hstarts⟩ := @ih next (next :: done) v hrest (by
      intro line hline
      have hsum := hfits (line + 1) (Nat.succ_lt_succ hline)
      rw [lineStart_succ] at hsum
      omega)
    refine ⟨next :: starts, ?_, congrArg (· + 1) hlength, ?_⟩
    · rw [List.length_cons, run_lineStartsOnto_succ hdistance hnext, hrun]
      simp
    · intro line start hstart
      cases line with
      | zero =>
        obtain rfl := Option.some.inj hstart
        rw [hnext, lineStart_zero]
      | succ line => rw [hstarts line start hstart, hnext, lineStart_succ, Nat.add_assoc]

/-- The first line start that is no word is refused as soon as its distance is read. -/
theorem run_lineStartsOnto_overflow {line : Nat}
    (h : Scan.many Scan.uint distances.length w = .ok distances m) (hline : line < distances.length)
    (hfits : ∀ before < line, previous.toNat + lineStart distances before < UInt32.size)
    (hover : UInt32.size ≤ previous.toNat + lineStart distances line) :
    ∃ v, Scan.many Scan.uint (line + 1) w = .ok (distances.take (line + 1)) v ∧
      TableDecoder.run (lineStartsOnto uri distances.length previous done) w =
        .error (.format (.lineStartsOverflow uri)) v := by
  induction distances generalizing previous done w line with
  | nil => exact absurd hline (Nat.not_lt_zero _)
  | cons distance distances ih =>
    obtain ⟨_, v, _, hdistance, hrest, hcons⟩ := Scan.many_succ_eq_ok.mp h
    cases hcons
    cases line with
    | zero =>
      refine ⟨v, ?_, run_lineStartsOnto_over hdistance hover⟩
      exact Scan.many_succ_eq_ok.mpr ⟨_, v, [], hdistance, rfl, rfl⟩
    | succ line =>
      have hfirst : previous.toNat + distance.toNat < UInt32.size := hfits 0 (Nat.succ_pos _)
      obtain ⟨next, hnext⟩ : ∃ next : UInt32, next.toNat = previous.toNat + distance.toNat :=
        ⟨_, UInt32.toNat_ofNat_of_lt' hfirst⟩
      rw [lineStart_succ, ← Nat.add_assoc, ← hnext] at hover
      obtain ⟨v', hread, hrun⟩ := @ih next (next :: done) v line hrest
        (Nat.lt_of_succ_lt_succ hline) (by
        intro before hbefore
        have hsum := hfits (before + 1) (Nat.succ_lt_succ hbefore)
        rw [lineStart_succ] at hsum
        omega) hover
      refine ⟨v', ?_, (run_lineStartsOnto_succ hdistance hnext).trans hrun⟩
      exact Scan.many_succ_eq_ok.mpr ⟨_, v, _, hdistance, hread, rfl⟩

/-- A source is read piece by piece, each text checked before what follows it. -/
theorem run_decoder : SourceInfo.decoder.run = (do
    let uri ← Scan.byteList
    let uri ← Scan.ofExcept (utf8 .sourceUri uri)
    let source ← Scan.byteList
    let source ← Scan.ofExcept (utf8 .sourceText source)
    let count ← Scan.uint
    let lineStarts ← TableDecoder.run (lineStartsOnto uri count.toNat 0 [])
    return { uri, source, lineStarts }) := by
  simp only [decoder, TableDecoder.run, run_bind, run_text, run_uint, bind_assoc]
  rfl

structure StoredIn (uri source : List UInt8) (count : UInt32) (distances : List UInt32)
    (w middle counted start m : Window) : Prop where
  uri : Scan.byteList w = .ok uri middle
  source : Scan.byteList middle = .ok source counted
  counts : Scan.uint counted = .ok count start
  length : count.toNat = distances.length
  distances : Scan.many Scan.uint distances.length start = .ok distances m

theorem exists_storedIn {uri source : List UInt8}
    (h : scanStored w = .ok (uri, source, distances) m) : ∃ count middle counted start,
      StoredIn uri source count distances w middle counted start m := by
  simp only [scanStored, Scan.list, Scan.bind_eq_ok, Scan.pure_eq_ok] at h
  obtain ⟨_, middle, huri, _, counted, hsource, _, _, ⟨count, start, hcount, hmany⟩, heq, rfl⟩ := h
  cases heq
  have hlength : distances.length = count.toNat := Scan.length_of_many hmany
  exact ⟨count, middle, counted, start, huri, hsource, hcount, hlength.symm, hlength ▸ hmany⟩

variable {count : UInt32} {middle counted start : Window}

theorem StoredIn.run_decoder {uri source : String}
    (h : StoredIn (textBytes uri) (textBytes source) count distances w middle counted start m) :
    SourceInfo.decoder.run w = (do
      let lineStarts ← TableDecoder.run (lineStartsOnto uri count.toNat 0 [])
      return { uri, source, lineStarts } : Scan SourceInfo) start := by
  have huri : utf8 .sourceUri (textBytes uri) = .ok uri := utf8_eq_ok_iff.mpr rfl
  have hsource : utf8 .sourceText (textBytes source) = .ok source := utf8_eq_ok_iff.mpr rfl
  rw [SourceInfo.run_decoder, Scan.bind_eq, h.uri]
  dsimp only
  rw [huri]
  change (Scan.byteList >>= _) middle = _
  rw [Scan.bind_eq, h.source]
  dsimp only
  rw [hsource]
  change (Scan.uint >>= _) counted = _
  rw [Scan.bind_eq, h.counts]

/-- The texts of a source that is read are those that are stored. -/
theorem StoredIn.texts {uri source : List UInt8} {info : SourceInfo} {w' : Window}
    (h : StoredIn uri source count distances w middle counted start m)
    (hrun : SourceInfo.decoder.run w = .ok info w') :
    textBytes info.uri = uri ∧ textBytes info.source = source := by
  rw [SourceInfo.run_decoder] at hrun
  simp only [Scan.bind_eq_ok, Scan.ofExcept_eq_ok, Scan.pure_eq_ok, utf8_eq_ok_iff, h.uri] at hrun
  obtain ⟨_, _, huri, _, _, ⟨rfl, rfl⟩, source', _, hsource, _, _, ⟨rfl, -⟩, _, _, -, _, _, -, rfl,
    -⟩ := hrun
  cases huri
  rw [h.source] at hsource
  cases hsource
  exact ⟨rfl, rfl⟩

/-- Line starts are read when both texts are UTF-8 and all sums of the distances are words; the line
starts are these sums. -/
theorem StoredIn.run_eq_ok {uri source : String}
    (h : StoredIn (textBytes uri) (textBytes source) count distances w middle counted start m)
    (hfits : ∀ line < distances.length, lineStart distances line < UInt32.size) :
    ∃ starts, SourceInfo.decoder.run w = .ok ⟨uri, source, starts⟩ m ∧
      starts.length = distances.length ∧
      ∀ line start, starts[line]? = some start → start.toNat = lineStart distances line := by
  obtain ⟨starts, hrun, hlength, hstarts⟩ :=
    @run_lineStartsOnto uri 0 distances [] start m h.distances (by simpa using hfits)
  refine ⟨starts, ?_, hlength, by simpa using hstarts⟩
  rw [h.run_decoder, h.length, Scan.bind_eq, hrun]
  rfl

theorem StoredIn.run_eq_error {uri source : String} {line : Nat}
    (h : StoredIn (textBytes uri) (textBytes source) count distances w middle counted start m)
    (hline : line < distances.length)
    (hfits : ∀ before < line, lineStart distances before < UInt32.size)
    (hover : UInt32.size ≤ lineStart distances line) :
    ∃ v, scanFirst (line + 1) w =
        .ok (textBytes uri, textBytes source, distances.take (line + 1)) v ∧
      SourceInfo.decoder.run w = .error (.format (.lineStartsOverflow uri)) v := by
  obtain ⟨v, hread, hrun⟩ := @run_lineStartsOnto_overflow uri 0 distances [] start m line
    h.distances hline (by simpa using hfits) (by simpa using hover)
  refine ⟨v, ?_, ?_⟩
  · simp only [scanFirst, Scan.bind_eq_ok, Scan.pure_eq_ok]
    exact ⟨_, middle, h.uri, _, counted, h.source, _, start, h.counts, _, v, hread, rfl, rfl⟩
  · rw [h.run_decoder, h.length, Scan.bind_eq, hrun]

/-- Of some sums that are no words, one is the first. -/
theorem exists_first_overflow
    (h : ∃ line < distances.length, UInt32.size ≤ lineStart distances line) :
    ∃ line < distances.length, (∀ before < line, lineStart distances before < UInt32.size) ∧
      UInt32.size ≤ lineStart distances line := by
  classical
  obtain ⟨hline, hover⟩ := Nat.find_spec h
  refine ⟨Nat.find h, hline, ?_, hover⟩
  intro before hbefore
  have hnot := Nat.find_min h hbefore
  exact Nat.lt_of_not_le fun hle => hnot ⟨hbefore.trans hline, hle⟩

/-- Where the texts are UTF-8, sums that are no words are refused at the first of them. -/
theorem StoredIn.overflows {uri source : String}
    (h : StoredIn (textBytes uri) (textBytes source) count distances w middle counted start m)
    (hover : ∃ line < distances.length, UInt32.size ≤ lineStart distances line) :
    ∃ line < distances.length, ∃ v,
      (∀ before < line, lineStart distances before < UInt32.size) ∧
      UInt32.size ≤ lineStart distances line ∧
      scanFirst (line + 1) w =
        .ok (textBytes uri, textBytes source, distances.take (line + 1)) v ∧
      SourceInfo.decoder.run w = .error (.format (.lineStartsOverflow uri)) v := by
  obtain ⟨line, hline, hfits, hover⟩ := exists_first_overflow hover
  obtain ⟨v, hread, hrun⟩ := h.run_eq_error hline hfits hover
  exact ⟨line, hline, v, hfits, hover, hread, hrun⟩

/-- What is read has the texts and the line starts that are stored, all of which are words. -/
theorem StoredIn.of_run {uri source : List UInt8} {info : SourceInfo} {w' : Window}
    (h : StoredIn uri source count distances w middle counted start m)
    (hrun : SourceInfo.decoder.run w = .ok info w') :
    (∀ line < distances.length, lineStart distances line < UInt32.size) ∧
      w' = m ∧ textBytes info.uri = uri ∧ textBytes info.source = source ∧
      info.lineStarts.length = distances.length ∧
      ∀ line start, info.lineStarts[line]? = some start →
        start.toNat = lineStart distances line := by
  obtain ⟨rfl, rfl⟩ := h.texts hrun
  -- Had one of the sums been no word, the source would have been refused.
  have hfits : ∀ line < distances.length, lineStart distances line < UInt32.size := by
    by_contra hnot
    push Not at hnot
    obtain ⟨line, -, v, -, -, -, herror⟩ := h.overflows hnot
    rw [hrun] at herror
    cases herror
  obtain ⟨starts, hok, hlength, hstarts⟩ := h.run_eq_ok hfits
  rw [hrun, EStateM.Result.ok.injEq] at hok
  obtain ⟨hinfo, rfl⟩ := hok
  obtain rfl : info.lineStarts = starts := congrArg SourceInfo.lineStarts hinfo
  exact ⟨hfits, rfl, rfl, rfl, hlength, hstarts⟩

theorem fits_of_run {info : SourceInfo} (h : SourceInfo.decoder.run w = .ok info m) :
    (TableLayout.sourceInfo info).Fits TableLayout.trees := by
  obtain ⟨n, -, -, htokens⟩ := tokens_of_run (TableLayout.written _) h
  exact Token.fits_of_many htokens

/-- A source that can be written: its line starts do not decrease, and the sizes of its texts, the
number of its lines and the distances between them have a tier that holds them. -/
structure Encodable (it : SourceInfo) : Prop where
  sorted : it.lineStarts.Pairwise (· ≤ ·)
  uri : (textBytes it.uri).length < Uint.limit
  source : (textBytes it.source).length < Uint.limit
  count : it.lineStarts.length < Uint.limit
  distances : ∀ distance ∈ TableLayout.distances 0 it.lineStarts, distance < Uint.limit

theorem fits_iff (it : SourceInfo) :
    (TableLayout.sourceInfo it).Fits TableLayout.trees ↔ it.Encodable := by
  simp only [TableLayout.sourceInfo, Layout.text, Layout.byteList, Layout.fits_append,
    Layout.fits_uint, Layout.fits_bytes, Layout.fits_require, Layout.fits_list, length_distances,
    and_true]
  constructor
  · rintro ⟨⟨⟨huri, hsource⟩, hsorted⟩, hcount, hdistances⟩
    exact ⟨hsorted, huri, hsource, hcount, hdistances⟩
  · intro h
    exact ⟨⟨⟨h.uri, h.source⟩, h.sorted⟩, h.count, h.distances⟩

end SourceInfo

namespace SourceTable
open Decoder

variable {table : SourceTable}

theorem fits_sources (hsources : ∀ info ∈ table.sources, info.Encodable)
    (hindex : table.index.length = table.size) (hsize : table.size < UInt32.size) :
    (TableLayout.sources table).Fits TableLayout.trees := by
  simp only [TableLayout.sources, Layout.word, Layout.words, Layout.fits_append, Layout.fits_bytes,
    Layout.fits_require, Layout.fits_flatMap, and_true]
  exact ⟨⟨hindex, hsize⟩, fun info hinfo => info.fits_iff.mpr (hsources info hinfo)⟩

/-- A table that is written is read back, and where its last bytes are missing it is refused for
want of bytes. -/
theorem run_write (hfits : (TableLayout.sources table).Fits TableLayout.trees) :
    let bytes := (TableLayout.sources table).write TableLayout.trees
    (∀ (u : Window) rest, u.rest = bytes ++ rest →
      SourceTable.decoder.run u = .ok table (u.advance bytes.length)) ∧
    ∀ u : Window, u.rest <+: bytes → u.rest ≠ bytes → ∃ position wanted u',
      SourceTable.decoder.run u = .error (u.outOfBounds position wanted) u' := by
  intro bytes
  have hread : ∀ (u : Window) rest, u.rest = bytes ++ rest →
      SourceTable.decoder.run u = .ok table (u.advance bytes.length) :=
    fun u rest hu => run_of_fits (TableLayout.written _) hfits hu
  refine ⟨hread, ?_⟩
  intro u hcut hne
  -- A reading of bytes that stop short is compared with one of exactly all of them.
  have hshows := Window.shows_ofBytes bytes
  have hwhole := hread _ [] (hshows.rest.trans (List.append_nil bytes).symm)
  have hleft : ((Window.ofBytes ⟨bytes.toArray⟩).advance bytes.length).rest = [] := by
    rw [Window.rest_advance, hshows.rest, List.drop_length]
  have hsplit : (Window.ofBytes ⟨bytes.toArray⟩).rest =
      bytes ++ ((Window.ofBytes ⟨bytes.toArray⟩).advance bytes.length).rest := by
    rw [hleft, List.append_nil, hshows.rest]
  exact run_cutsOff (TableLayout.written _) SourceTable.decoder _ _ _ _ _ hwhole hsplit
    ⟨hcut, hne⟩

/-- Line starts are the running sums of the distances that are stored for them. They are read
exactly when both texts are UTF-8 and all the sums are words; else, where the texts are UTF-8, the
first sum that is no word is refused as soon as its distance is read. And a table of sources is read
back from the bytes that it is written as, which all have to be there. -/
theorem running_sums :
    (∀ (w m : Window) uri source distances,
      SourceInfo.scanStored w = .ok (uri, source, distances) m →
      ((∃ info w', SourceInfo.decoder.run w = .ok info w') ↔
        (∃ text, textBytes text = uri) ∧ (∃ text, textBytes text = source) ∧
        ∀ line < distances.length, SourceInfo.lineStart distances line < UInt32.size) ∧
      (∀ info w', SourceInfo.decoder.run w = .ok info w' →
        w' = m ∧ textBytes info.uri = uri ∧ textBytes info.source = source ∧
        info.lineStarts.length = distances.length ∧
        (∀ line start, info.lineStarts[line]? = some start →
          start.toNat = SourceInfo.lineStart distances line) ∧
        info.lineStarts.Pairwise (· ≤ ·)) ∧
      ∀ text, textBytes text = uri → (∃ text, textBytes text = source) →
        (∃ line < distances.length, UInt32.size ≤ SourceInfo.lineStart distances line) →
        ∃ line < distances.length, ∃ v,
          (∀ before < line, SourceInfo.lineStart distances before < UInt32.size) ∧
          UInt32.size ≤ SourceInfo.lineStart distances line ∧
          SourceInfo.scanFirst (line + 1) w = .ok (uri, source, distances.take (line + 1)) v ∧
          SourceInfo.decoder.run w = .error (.format (.lineStartsOverflow text)) v) ∧
    ∀ table : SourceTable, (∀ info ∈ table.sources, info.Encodable) →
      table.index.length = table.size → table.size < UInt32.size →
      let bytes := (TableLayout.sources table).write TableLayout.trees
      (∀ (u : Window) rest, u.rest = bytes ++ rest →
        SourceTable.decoder.run u = .ok table (u.advance bytes.length)) ∧
      ∀ u : Window, u.rest <+: bytes → u.rest ≠ bytes → ∃ position wanted u',
        SourceTable.decoder.run u = .error (u.outOfBounds position wanted) u' := by
  refine ⟨?_, fun table hsources hindex hsize => run_write (fits_sources hsources hindex hsize)⟩
  intro w m uri source distances h
  obtain ⟨count, middle, counted, start, hstored⟩ := SourceInfo.exists_storedIn h
  refine ⟨?_, ?_, ?_⟩
  · constructor
    · rintro ⟨info, w', hrun⟩
      obtain ⟨hfits, -, huri, hsource, -⟩ := hstored.of_run hrun
      exact ⟨⟨_, huri⟩, ⟨_, hsource⟩, hfits⟩
    · rintro ⟨⟨uri, rfl⟩, ⟨source, rfl⟩, hfits⟩
      obtain ⟨starts, hrun, -⟩ := hstored.run_eq_ok hfits
      exact ⟨_, m, hrun⟩
  · intro info w' hrun
    obtain ⟨-, hw', huri, hsource, hlength, hstarts⟩ := hstored.of_run hrun
    have hsorted := (info.fits_iff.mp (SourceInfo.fits_of_run hrun)).sorted
    exact ⟨hw', huri, hsource, hlength, hstarts, hsorted⟩
  · rintro text rfl ⟨source, rfl⟩ hover
    exact hstored.overflows hover

/-- Four distances of the largest size and five more are no word; and a table of one source, whole
and without its last byte. -/
theorem running_sums_over :
    (∃ line < 5, ∃ v,
      SourceInfo.scanFirst (line + 1) (.ofBytes ⟨#[1, 97, 0, 5, 255, 255, 255, 255, 255, 255, 255,
        255, 255, 255, 255, 255, 255, 255, 255, 255, 5]⟩) = .ok ([97], [], [0x3FFFFFFF, 0x3FFFFFFF,
          0x3FFFFFFF, 0x3FFFFFFF, 5].take (line + 1)) v ∧
      SourceInfo.decoder.run (.ofBytes ⟨#[1, 97, 0, 5, 255, 255, 255, 255, 255, 255, 255, 255, 255,
        255, 255, 255, 255, 255, 255, 255, 5]⟩) = .error (.format (.lineStartsOverflow "a")) v) ∧
    (∃ w', SourceTable.decoder.run (.ofBytes ⟨#[0, 0, 0, 1, 1, 97, 0, 2, 1, 2, 0, 0, 0, 7]⟩) =
      .ok ⟨[⟨"a", "", [1, 3]⟩], [7]⟩ w') ∧
    ∃ position wanted w',
      SourceTable.decoder.run (.ofBytes ⟨#[0, 0, 0, 1, 1, 97, 0, 2, 1, 2, 0, 0, 0]⟩) =
        .error (.outOfBounds position wanted 13 0) w' := by
  obtain ⟨hsources, htables⟩ := running_sums
  have hvalue : SourceInfo.scanStored.value (.ofBytes ⟨#[1, 97, 0, 5, 255, 255, 255, 255, 255, 255,
      255, 255, 255, 255, 255, 255, 255, 255, 255, 255, 5]⟩) = .ok ([97], [], [0x3FFFFFFF,
        0x3FFFFFFF, 0x3FFFFFFF, 0x3FFFFFFF, 5]) := by decide +kernel
  obtain ⟨m, hscan⟩ := Scan.value_eq_ok.mp hvalue
  have hover : UInt32.size ≤
      SourceInfo.lineStart [0x3FFFFFFF, 0x3FFFFFFF, 0x3FFFFFFF, 0x3FFFFFFF, 5] 4 := by decide
  obtain ⟨-, -, hoverflow⟩ := hsources _ _ _ _ _ hscan
  obtain ⟨line, hline, v, -, -, hread, hrun⟩ :=
    hoverflow "a" (by decide) ⟨"", by decide⟩ ⟨4, by decide, hover⟩
  have hinfo : SourceInfo.Encodable ⟨"a", "", [1, 3]⟩ := by
    constructor <;> decide
  have hwritten : (TableLayout.sources ⟨[⟨"a", "", [1, 3]⟩], [7]⟩).write TableLayout.trees =
      [0, 0, 0, 1, 1, 97, 0, 2, 1, 2, 0, 0, 0, 7] := by decide +kernel
  obtain ⟨hwhole, hcut⟩ := htables ⟨[⟨"a", "", [1, 3]⟩], [7]⟩
    (fun info h => List.mem_singleton.mp h ▸ hinfo) rfl (by decide)
  rw [hwritten] at hwhole hcut
  refine ⟨⟨line, hline, v, hread, hrun⟩, ⟨_, hwhole _ [] (by decide +kernel)⟩, ?_⟩
  exact hcut (.ofBytes ⟨#[0, 0, 0, 1, 1, 97, 0, 2, 1, 2, 0, 0, 0]⟩) (by decide +kernel)
    (by decide +kernel)

end SourceTable
end DartKernel
