import DartKernel.Proofs.DeclarationRoundTrip

namespace DartKernel

/-- Where the bytes of a table stand, the table is read. -/
theorem TableDecoder.value_run {decoder : TableDecoder α} {layout : α → TableLayout}
    [Decoder.Laid (fun sort _ => sort.elim) decoder layout] {a : α}
    (hfits : (layout a).Fits TableLayout.trees) {w : Window} {rest : List UInt8}
    (hw : w.rest = (layout a).write TableLayout.trees ++ rest) :
    (TableDecoder.run decoder).value w = .ok a :=
  Scan.value_eq_ok.mpr ⟨_, Decoder.run_of_fits (TableLayout.written _) hfits hw⟩

namespace ComponentDescription

variable (it : ComponentDescription) (options : DecodeOptions)

/-- The view of a laid out component. -/
def view : View where
  file := Window.ofBytes ⟨(it.write options).toArray⟩
  header := it.header
  directory := it.directory options
  session := it.session options

variable {it options}

theorem file_shows : (it.view options).file.Shows 0 (it.write options) :=
  Window.shows_ofBytes _

variable (it options) in
def sections : List (List UInt8) :=
  [it.headerBytes, it.libraryBytes options, it.sourceBytes, it.nameBytes, it.payloads,
    it.mappingBytes, it.stringBytes, it.constantBytes options,
    wordsBytes (TableLayout.directoryWords (it.directory options))]

variable {i start stop : Nat} {part : List UInt8}

/-- What stands before a section, the section, and what stands after it. -/
theorem write_eq_section (h : (it.sections options)[i]? = some part) :
    it.write options = ((it.sections options).take i).flatten ++ part
      ++ ((it.sections options).drop (i + 1)).flatten := by
  have hwrite : it.write options = (it.sections options).flatten := by
    simp [write, sectionBytes, sections]
  obtain ⟨hi, rfl⟩ := List.getElem?_eq_some_iff.mp h
  rw [hwrite, List.append_assoc, ← List.flatten_cons, ← List.drop_eq_getElem_cons hi,
    ← List.flatten_append, List.take_append_drop]

theorem length_section_le (h : (it.sections options)[i]? = some part) :
    part.length ≤ (it.write options).length := by
  rw [write_eq_section h, List.length_append, List.length_append]
  omega

/-- A section and all that follows it is cut out at the offset of the section. -/
theorem sliceFrom_section (hlt : (it.write options).length < UInt32.size)
    (h : (it.sections options)[i]? = some part)
    (hstart : start = ((it.sections options).take i).flatten.length) :
    ∃ v rest, (it.view options).file.sliceFrom start.toUInt32.toNat = .ok v ∧
      v.Shows start (part ++ rest) := by
  have hwrite := write_eq_section h
  rw [List.append_assoc] at hwrite
  have hfile : (it.view options).file.Shows 0 _ := hwrite ▸ file_shows
  have hfits : start < UInt32.size := by
    rw [hwrite, List.length_append] at hlt
    omega
  obtain ⟨v, hv, hshows⟩ := hfile.sliceFrom
  rw [Nat.zero_add] at hshows
  refine ⟨v, _, ?_, hstart ▸ hshows⟩
  rw [Nat.toUInt32, UInt32.toNat_ofNat_of_lt' hfits, hstart]
  exact hv

/-- A section is cut out between its offset and the next one. -/
theorem sliceAbsolute_section (hlt : (it.write options).length < UInt32.size)
    (h : (it.sections options)[i]? = some part)
    (hstart : start = ((it.sections options).take i).flatten.length)
    (hstop : stop = start + part.length) :
    ∃ v, (it.view options).file.sliceAbsolute start.toUInt32 stop.toUInt32 = .ok v ∧
      v.Shows start part := by
  have hwrite := write_eq_section h
  have hfile : (it.view options).file.Shows 0 _ := hwrite ▸ file_shows
  rw [hwrite, List.length_append, List.length_append] at hlt
  have hfirst : start.toUInt32.toNat = 0 + ((it.sections options).take i).flatten.length := by
    rw [Nat.toUInt32, UInt32.toNat_ofNat_of_lt' (by omega), hstart, Nat.zero_add]
  have hlast : stop.toUInt32.toNat =
      0 + ((it.sections options).take i).flatten.length + part.length := by
    rw [Nat.toUInt32, UInt32.toNat_ofNat_of_lt' (by omega), hstop, hstart, Nat.zero_add]
  obtain ⟨v, hv, hshows⟩ := hfile.sliceAbsolute hfirst hlast
  rw [Nat.zero_add] at hshows
  exact ⟨v, hv, hstart ▸ hshows⟩

theorem length_directoryWords :
    (TableLayout.directoryWords (it.directory options)).length = it.libraries.length + 10 := by
  simp [TableLayout.directoryWords, directory]

theorem length_sectionBytes :
    (it.sectionBytes options).length = it.directoryStart options := by
  simp only [sectionBytes, List.length_append, directoryStart, constantStart, stringStart,
    mappingStart, payloadStart, nameStart, sourceStart]

theorem length_write : (it.write options).length =
    it.directoryStart options + 4 * (it.libraries.length + 10) := by
  rw [write, List.length_append, length_sectionBytes, length_wordsBytes, length_directoryWords]

/-- The last two words of the file are the last two of the directory. -/
theorem wordsAt?_trailer :
    (it.view options).file.wordsAt? ((it.view options).file.length - 8) 2 =
      some [(it.directory options).libraryCount, (it.directory options).fileSize] := by
  obtain ⟨front, hfront⟩ : ∃ front, TableLayout.directoryWords (it.directory options) =
      front ++ [(it.directory options).libraryCount, (it.directory options).fileSize] :=
    ⟨_, rfl⟩
  have hfile : (it.view options).file.Shows 0 (it.write options) := file_shows
  have hsplit : (it.view options).file.Shows 0 ((it.sectionBytes options ++ wordsBytes front)
      ++ wordsBytes [(it.directory options).libraryCount, (it.directory options).fileSize]
      ++ []) := by
    rw [write, hfront] at hfile
    simpa only [wordsBytes_append, List.append_assoc, List.append_nil] using hfile
  have hlast : (it.sectionBytes options ++ wordsBytes front).length =
      (it.view options).file.length - 8 := by
    rw [hsplit.length]
    simp only [List.length_append, length_wordsBytes, List.length_cons, List.length_nil]
    omega
  have hwords := hsplit.wordsAt?
  rw [hlast] at hwords
  exact hwords

/-- The directory is read where its words stand. -/
theorem value_directory {w : Window} (hlt : it.libraries.length < UInt32.size)
    (hw : w.rest = wordsBytes (TableLayout.directoryWords (it.directory options))) :
    (TableDecoder.run (Directory.decoder (it.directory options).libraryCount
      (it.directory options).fileSize)).value w = .ok (it.directory options) := by
  have hcount : (it.directory options).libraryCount.toNat = it.libraries.length :=
    UInt32.toNat_ofNat_of_lt' hlt
  have hfits : (TableLayout.directory (it.directory options).libraryCount
      (it.directory options).fileSize (it.directory options)).Fits TableLayout.trees := by
    rw [TableLayout.directory, Layout.fits_append, Layout.fits_require, hcount]
    exact ⟨⟨rfl, rfl, length_bounds⟩, Layout.fits_bytes⟩
  have hwrite : (TableLayout.directory (it.directory options).libraryCount
      (it.directory options).fileSize (it.directory options)).write TableLayout.trees =
      wordsBytes (TableLayout.directoryWords (it.directory options)) := by
    rw [TableLayout.directory, Layout.write_append, Layout.write_require, List.nil_append]
    exact Layout.write_bytes _
  apply TableDecoder.value_run hfits
  rw [hwrite, hw, List.append_nil]

/-- The directory is found from the end of the file. -/
theorem ofFile_eq (hlt : (it.write options).length < UInt32.size) :
    Directory.ofFile (it.view options).file = .ok (it.directory options) := by
  have hfile : (it.view options).file.Shows 0 (it.write options) := file_shows
  have hlen := hfile.length
  rw [length_write] at hlen hlt
  have hcount : (it.directory options).libraryCount.toNat = it.libraries.length :=
    UInt32.toNat_ofNat_of_lt' (by omega)
  have hsize : (it.directory options).fileSize.toNat =
      it.directoryStart options + 4 * (it.libraries.length + 10) :=
    UInt32.toNat_ofNat_of_lt' hlt
  have hstart : (it.directory options).fileSize.toNat -
      Directory.size (it.directory options).libraryCount = (it.sectionBytes options).length := by
    rw [hsize, Directory.size, hcount, length_sectionBytes]
    omega
  obtain ⟨v, hv, hshows⟩ := hfile.sliceFrom
  unfold Directory.ofFile
  dsimp only
  rw [if_neg (by omega), wordsAt?_trailer]
  dsimp only
  rw [if_neg (by rw [Directory.size, hcount]; omega), hstart]
  exact bind_eq_ok.mpr ⟨v, hv, value_directory (by omega) hshows.rest⟩

/-- A table is read at the offset of its section. -/
theorem value_table {decoder : TableDecoder α} {layout : α → TableLayout}
    [Decoder.Laid (fun sort _ => sort.elim) decoder layout] {a : α}
    (hlt : (it.write options).length < UInt32.size)
    (hfits : (layout a).Fits TableLayout.trees)
    (h : (it.sections options)[i]? = some ((layout a).write TableLayout.trees))
    (hstart : start = ((it.sections options).take i).flatten.length) :
    ∃ v, (it.view options).file.sliceFrom start.toUInt32.toNat = .ok v ∧
      (TableDecoder.run decoder).value v = .ok a := by
  obtain ⟨v, rest, hv, hshows⟩ := sliceFrom_section hlt h hstart
  exact ⟨v, hv, TableDecoder.value_run hfits hshows.rest⟩

theorem strings_eq (hit : it.WellFormed options) :
    ∃ v, (it.view options).file.sliceFrom (it.directory options).stringTable.toNat = .ok v ∧
      (TableDecoder.run StringTable.decoder).value v = .ok (.ofList it.strings) := by
  apply value_table hit.size hit.strings (i := 6) rfl
  simp [sections, stringStart, mappingStart, payloadStart, nameStart, sourceStart, Nat.add_assoc]

theorem names_eq (hit : it.WellFormed options) :
    ∃ v, (it.view options).file.sliceFrom (it.directory options).canonicalNames.toNat = .ok v ∧
      (TableDecoder.run CanonicalNames.decoder).value v = .ok (.ofList it.names) := by
  apply value_table hit.size hit.names (i := 3) rfl
  simp [sections, nameStart, sourceStart, Nat.add_assoc]

theorem openFile_eq (hit : it.WellFormed options) :
    View.openFile ⟨(it.write options).toArray⟩ options = .ok (it.view options) := by
  have hheader : (TableDecoder.run Header.decoder).value (it.view options).file =
      .ok it.header := by
    apply TableDecoder.value_run hit.header
    rw [file_shows.rest, write_eq_section (i := 0) rfl]
    rfl
  obtain ⟨v, hv, hstrings⟩ := strings_eq hit
  obtain ⟨u, hu, hnames⟩ := names_eq hit
  refine bind_eq_ok.mpr ⟨it.header, hheader, ?_⟩
  refine bind_eq_ok.mpr ⟨it.directory options, ofFile_eq hit.size, ?_⟩
  refine bind_eq_ok.mpr ⟨v, hv, bind_eq_ok.mpr ⟨_, hstrings, ?_⟩⟩
  exact bind_eq_ok.mpr ⟨u, hu, bind_eq_ok.mpr ⟨_, hnames, rfl⟩⟩

theorem sources_eq (hit : it.WellFormed options) :
    (it.view options).sources = .ok it.sourceTable := by
  have hindex : it.sourceTable.index.length = it.sourceTable.size := by
    simp [sourceTable, SourceTable.size]
  have hlen : 4 * it.sourceTable.size ≤ (it.write options).length := by
    have hle : it.sourceBytes.length ≤ (it.write options).length :=
      length_section_le (i := 2) rfl
    rw [sourceBytes, TableLayout.sources, Layout.write_append, List.length_append,
      Layout.words, Layout.write_bytes, length_wordsBytes, hindex] at hle
    omega
  have hlt := hit.size
  have hfits : (TableLayout.sources it.sourceTable).Fits TableLayout.trees := by
    simp only [TableLayout.sources, Layout.fits_append, Layout.fits_require, Layout.fits_flatMap]
    refine ⟨⟨⟨⟨hindex, by omega⟩, Layout.fits_bytes⟩, ?_⟩, Layout.fits_bytes⟩
    intro info hinfo
    obtain ⟨source, hsource, rfl⟩ := List.mem_map.mp hinfo
    exact hit.sources source hsource
  apply bind_eq_ok.mpr
  apply value_table hit.size hfits (i := 2) rfl
  simp [sections, sourceStart]

theorem constants_eq (hit : it.WellFormed options) :
    (it.view options).constants = .ok it.constants := by
  have hstart : it.constantStart options = ((it.sections options).take 7).flatten.length := by
    simp [sections, constantStart, stringStart, mappingStart, payloadStart, nameStart, sourceStart,
      Nat.add_assoc]
  obtain ⟨v, rest, hv, hshows⟩ := sliceFrom_section hit.size (i := 7) rfl hstart
  exact bind_eq_ok.mpr ⟨v, hv, NodeDecoder.value_scan hit.constants hshows.rest⟩

theorem mappings_eq (hit : it.WellFormed options) :
    (it.view options).mappings = .ok it.mappings := by
  have hstart : it.mappingStart options = ((it.sections options).take 5).flatten.length := by
    simp [sections, mappingStart, payloadStart, nameStart, sourceStart, Nat.add_assoc]
  obtain ⟨v, hv, hshows⟩ := sliceAbsolute_section hit.size (i := 5) rfl hstart rfl
  have hlt := hit.size
  have hle : it.mappingBytes.length ≤ (it.write options).length := length_section_le (i := 5) rfl
  rw [← hshows.length] at hle
  exact bind_eq_ok.mpr ⟨v, hv, MetadataMapping.ofSection_eq hshows.bytes (by omega)⟩

theorem payloads_eq (hit : it.WellFormed options) :
    ∃ v, (it.view options).payloads = .ok v ∧ v.bytes = it.payloads := by
  have hstart : it.payloadStart options = ((it.sections options).take 4).flatten.length := by
    simp [sections, payloadStart, nameStart, sourceStart, Nat.add_assoc]
  obtain ⟨v, hv, hshows⟩ := sliceAbsolute_section hit.size (i := 4) rfl hstart rfl
  exact ⟨v, hv, hshows.bytes⟩

theorem libraries_eq (hit : it.WellFormed options) :
    (List.range (it.view options).libraryCount).mapM (it.view options).library =
      .ok (it.placedLibraries options) := by
  have hlt := hit.size
  have hlen := file_shows.length (w := (it.view options).file)
  have hcount : (it.view options).libraryCount = it.libraries.length := by
    rw [length_write] at hlt
    exact UInt32.toNat_ofNat_of_lt' (by omega)
  have hfile : (it.view options).file.Shows 0 (it.headerBytes
      ++ stretch (fun start library => library.write (it.session options) start)
        (0 + it.headerBytes.length) it.libraries
      ++ (it.sourceBytes ++ it.nameBytes ++ it.payloads ++ it.mappingBytes ++ it.stringBytes
        ++ it.constantBytes options
        ++ wordsBytes (TableLayout.directoryWords (it.directory options)))) := by
    have hshows : (it.view options).file.Shows 0 (it.write options) := file_shows
    rw [Nat.zero_add]
    simpa only [write, sectionBytes, libraryBytes, List.append_assoc] using hshows
  have hfits : 0 + (it.view options).file.length < UInt32.size := by omega
  rw [hcount]
  apply mapM_place
  intro i part hi
  rw [← Nat.zero_add it.headerBytes.length] at hi
  obtain ⟨a, b, v, ha, hb, hv, hshows, hle⟩ := hfile.sliceAbsolute_place hfits hi
  have hrange : (it.directory options).libraryRange? i = some (a, b) := by
    rw [Nat.zero_add] at ha hb
    unfold Directory.libraryRange?
    rw [directory, ha, hb]
    rfl
  have hwindow : (it.view options).libraryWindow i = .ok v := by
    unfold View.libraryWindow
    rw [view, hrange]
    exact hv
  have hmem : part.2 ∈ it.libraries := snd_mem_of_mem_place (List.mem_of_getElem? hi)
  exact bind_eq_ok.mpr ⟨v, hwindow, LibraryDescription.value_scan (hit.libraries part.2 hmem)
    hshows (by omega)⟩

/-- The metadata is keyed by the texts of its tags. -/
theorem metadata_eq (hit : it.WellFormed options) (payloads : Window) :
    ∃ keyed, Metadata.ofMappings payloads it.mappings (.ofList it.strings) =
        .ok ⟨payloads, keyed⟩ ∧ keyed.map Prod.snd = it.mappings ∧
      ∀ entry ∈ keyed, StringTable.text (.ofList it.strings) entry.2.tag = .ok entry.1 := by
  obtain ⟨texts, htexts⟩ := mapM_succeeds.mpr hit.tags
  have hforall := mapM_eq_ok.mp htexts
  have hmap : List.Forall₂ (· = ·) (it.mappings.map fun mapping =>
      StringTable.text (.ofList it.strings) mapping.tag) (texts.map Except.ok) := by
    rw [List.forall₂_map_left_iff, List.forall₂_map_right_iff]
    exact hforall
  rw [List.forall₂_eq_eq_eq] at hmap
  have hnodup : (texts.map (Except.ok : String → Except Fault String)).Nodup :=
    hmap ▸ List.pairwise_map.mpr hit.tagsDiffer
  have hkeyed := Metadata.keyOnto_eq_ok_iff.mpr
    ⟨texts, hforall, hnodup.of_map, fun _ _ => List.lookup_nil, rfl⟩
  rw [List.nil_append] at hkeyed
  refine ⟨texts.zip it.mappings, bind_eq_ok.mpr ⟨_, hkeyed, rfl⟩, ?_, ?_⟩
  · exact List.map_snd_zip (Nat.le_of_eq hforall.length_eq)
  · intro entry hentry
    exact (List.forall₂_iff_zip.mp hforall.flip).2 hentry

end ComponentDescription

namespace Component

end Component

namespace ComponentDescription

def sampleProcedure : Procedure :=
  ⟨⟨1⟩, ⟨0⟩, ⟨none⟩, ⟨some 7⟩, ⟨none⟩, .method, ⟨0⟩, ⟨⟨1⟩, none⟩, [], none, none, none⟩

def sampleClass : Class :=
  ⟨⟨1⟩, ⟨0⟩, ⟨none⟩, ⟨none⟩, ⟨none⟩, ⟨3⟩, ⟨1⟩, [], [], none, none, [], [], [], [sampleProcedure],
    [], none⟩

/-- A library with a procedure and two classes, the first of which carries an index. -/
def sampleLibrary : LibraryDescription where
  head := ⟨⟨0⟩, ⟨1⟩, ⟨1⟩, ⟨0⟩, [], [], [], [], []⟩
  classes := [⟨sampleClass, true⟩, ⟨sampleClass, false⟩]
  fields := []
  procedures := [sampleProcedure]

def sample : ComponentDescription where
  version := 17
  problems := ["none"]
  strings := ["main"]
  names := [⟨⟨0⟩, ⟨1⟩⟩]
  sources := [(⟨"main.dart", "", [0, 5]⟩, 0)]
  payloads := [1, 2]
  mappings := [⟨⟨1⟩, [(3, 0)]⟩]
  constants := [.null]
  mainMethod := ⟨1⟩
  libraries := [sampleLibrary]

theorem sampleProcedure_fits : (NodeLayout.procedure (sample.session {}) sampleProcedure).Fits
    (NodeLayout.treeTokens (sample.session {})) := by
  have hname : Name.Follows (sample.session {}).strings ⟨⟨1⟩, none⟩ :=
    ⟨some "main", rfl, by simp; decide⟩
  simp [NodeLayout.procedure, NodeLayout.ref, NodeLayout.offset, NodeLayout.flags, Layout.option,
    NodeLayout.name, Layout.fits_token_cons, Token.Fits, sampleProcedure, FileOffset.biased,
    Uint.limit, Uint.Tier.limit]
  exact hname

theorem sampleClass_fits (indexed : Bool) :
    ClassDescription.WellFormed (sample.session {}) ⟨sampleClass, indexed⟩ := by
  simp [ClassDescription.WellFormed, NodeLayout.classBody, NodeLayout.classHead,
    ClassDescription.bare, sampleClass, NodeLayout.ref, NodeLayout.offset, NodeLayout.flags,
    Layout.option, FileOffset.biased, Uint.limit, Uint.Tier.limit, sampleProcedure_fits]

theorem sample_wellFormed : sample.WellFormed {} where
  header := by
    have hproblems : sample.header.version.hasProblems = true := by decide
    rw [TableLayout.header, if_pos hproblems]
    simp [sample, header, Layout.text, Layout.byteList, Layout.word]
    decide
  strings := by
    simp [TableLayout.strings, sample]
    decide
  names := by
    simp [TableLayout.canonicalNames, TableLayout.canonicalName, sample]
    decide
  sources := by
    simp [sample, TableLayout.sourceInfo, Layout.text, Layout.byteList]
    decide
  tags := by
    intro mapping hmapping
    obtain rfl := List.mem_singleton.mp hmapping
    exact ⟨"main", rfl⟩
  tagsDiffer := List.pairwise_singleton ..
  constants := by
    simp [sample, NodeLayout.constant, NodeLayout.constantFields, Uint.limit, Uint.Tier.limit]
  libraries := by
    intro library hlibrary
    obtain rfl := List.mem_singleton.mp hlibrary
    constructor
    · simp [sampleLibrary, NodeLayout.libraryHead, NodeLayout.ref, NodeLayout.flags, Uint.limit,
        Uint.Tier.limit]
    · simp [sampleLibrary, sampleClass_fits]
    · simp [sampleLibrary, Uint.limit, Uint.Tier.limit]
    · simp [sampleLibrary, sampleProcedure_fits]
  size := by decide +kernel

end ComponentDescription

end DartKernel
