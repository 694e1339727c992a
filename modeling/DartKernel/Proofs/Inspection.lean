import DartKernel.CommandLine
import DartKernel.Proofs.DisjointRanges
import DartKernel.Proofs.JsonText

namespace DartKernel

def Session.withParallel (s : Session) (parallel : Bool) : Session :=
  { s with options.parallel := parallel }

def View.withParallel (view : View) (parallel : Bool) : View :=
  { view with session := view.session.withParallel parallel }

def Component.withParallel (component : Component) (parallel : Bool) : Component :=
  { component with session := component.session.withParallel parallel }

theorem View.openFile_withParallel (content : ByteArray) (options : DecodeOptions)
    (parallel : Bool) : openFile content { options with parallel } =
      (·.withParallel parallel) <$> openFile content options := by
  simp only [openFile, map_bind]
  rfl

theorem Component.ofView_withParallel (view : View) (parallel : Bool) :
    ofView (view.withParallel parallel) = (·.withParallel parallel) <$> ofView view := by
  simp only [ofView, map_bind]
  rfl

theorem Component.load_withParallel (content : ByteArray) (options : DecodeOptions)
    (parallel : Bool) : load content { options with parallel } =
      (·.withParallel parallel) <$> load content options := by
  unfold load
  rw [View.openFile_withParallel]
  cases View.openFile content options with
  | error fault => rfl
  | ok view => exact ofView_withParallel view parallel

theorem Failure.exists_render (failure : Failure) :
    ∃ rest, failure.render = "Error: " ++ rest := by
  obtain ⟨context, cause⟩ := failure
  cases cause with
  | none =>
    simp only [render, String.append_assoc]
    exact ⟨_, rfl⟩
  | some cause =>
    simp only [render, String.append_assoc]
    exact ⟨_, rfl⟩

namespace Request

variable {r : Request} {content : ByteArray} {i : Nat}

theorem options_parallel (r : Request) (parallel : Bool) :
    options { r with parallel } = { r.options with parallel } := rfl

theorem componentOutput_parallel (r : Request) (content : ByteArray) (parallel : Bool) :
    componentOutput { r with parallel } content = r.componentOutput content := by
  unfold componentOutput
  rw [options_parallel, Component.load_withParallel]
  cases Component.load content r.options with
  | error fault => rfl
  | ok component => rfl

theorem libraryOutput_parallel (r : Request) (content : ByteArray) (i : Nat) (parallel : Bool) :
    libraryOutput { r with parallel } content i = r.libraryOutput content i := by
  unfold libraryOutput
  rw [options_parallel, View.openFile_withParallel]
  cases View.openFile content r.options with
  | error fault => rfl
  | ok view => rfl

/-- Whether libraries are read side by side does not show. -/
theorem run_parallel (r : Request) (content : Except String ByteArray) (parallel : Bool) :
    run { r with parallel } content = r.run content := by
  have houtput : output { r with parallel } content = r.output content := by
    unfold output
    cases content with
    | error cause => rfl
    | ok bytes =>
      cases hlibrary : r.library with
      | none => simpa only [hlibrary] using componentOutput_parallel r bytes parallel
      | some i => simpa only [hlibrary] using libraryOutput_parallel r bytes i parallel
  rw [run, houtput, run]

theorem run_of_output {content : Except String ByteArray} {text : String}
    (h : r.output content = .ok text) :
    r.run content = { code := 0, stdout := text, stderr := "" } := by
  rw [run, h]

theorem output_of_code {content : Except String ByteArray} (h : (r.run content).code = 0) :
    r.output content = .ok (r.run content).stdout := by
  unfold run at h ⊢
  cases houtput : r.output content with
  | ok text => rfl
  | error failure => simp [houtput] at h

/-- A run prints its output and nothing else, or its failure and nothing else. -/
theorem run_ends (r : Request) (content : Except String ByteArray) :
    ((r.run content).code = 0 ∧ (r.run content).stderr = "") ∨
      (r.run content).code = 1 ∧ (r.run content).stdout = "" ∧
        ∃ rest, (r.run content).stderr = "Error: " ++ rest := by
  unfold run
  cases r.output content with
  | ok text => exact .inl ⟨rfl, rfl⟩
  | error failure => exact .inr ⟨rfl, rfl, failure.exists_render⟩

def whole (r : Request) : Request := { r with library := none }

def only (r : Request) (i : Nat) : Request := { r with library := some i }

theorem within_eq_ok {context : String} {result : Except Fault α} {a : α} :
    within context result = .ok a ↔ result = .ok a := by
  cases result with
  | error fault => simp [within, Except.mapError]
  | ok a => simp [within, Except.mapError]

theorem plain_eq_ok {result : Except Fault α} {a : α} :
    plain result = .ok a ↔ result = .ok a := by
  cases result with
  | error fault => simp [plain, Except.mapError]
  | ok a => simp [plain, Except.mapError]

theorem componentOutput_eq_ok_iff {text : String} : r.componentOutput content = .ok text ↔
    ∃ component summary, Component.load content r.options = .ok component ∧
      ComponentSummary.ofComponent component = .ok summary ∧
      r.emit summary.lines summary.json = text := by
  simp only [componentOutput, bind_eq_ok, within_eq_ok, plain_eq_ok, pure, Except.pure,
    Except.ok.injEq, exists_and_left]

theorem libraryOutput_eq_ok_iff {text : String} : r.libraryOutput content i = .ok text ↔
    ∃ view library summary, View.openFile content r.options = .ok view ∧ i < view.libraryCount ∧
      view.library i = .ok library ∧
      LibrarySummary.ofLibrary view.session library = .ok summary ∧
      r.emit summary.lines summary.json = text := by
  unfold libraryOutput
  rw [bind_eq_ok]
  refine ⟨fun h => ?_, fun h => ?_⟩
  · obtain ⟨view, hopen, h⟩ := h
    by_cases hcount : view.libraryCount ≤ i
    · simp only [if_pos hcount] at h
      cases h
    · simp only [if_neg hcount, bind_eq_ok, within_eq_ok, plain_eq_ok, pure, Except.pure,
        Except.ok.injEq] at h hopen
      obtain ⟨library, hlibrary, summary, hsummary, htext⟩ := h
      exact ⟨view, library, summary, hopen, Nat.lt_of_not_le hcount, hlibrary, hsummary, htext⟩
  · obtain ⟨view, library, summary, hopen, hcount, hlibrary, hsummary, htext⟩ := h
    refine ⟨view, within_eq_ok.mpr hopen, ?_⟩
    simp only [if_neg (Nat.not_le_of_lt hcount), bind_eq_ok, within_eq_ok, plain_eq_ok, pure,
      Except.pure, Except.ok.injEq]
    exact ⟨library, hlibrary, summary, hsummary, htext⟩

/-- The libraries of a summary are summarized one by one. -/
theorem libraries_of_summary {component : Component} {summary : ComponentSummary}
    (h : ComponentSummary.ofComponent component = .ok summary) :
    summary.libraries.length = component.libraries.length ∧
      ∀ i (hi : i < component.libraries.length) (hi' : i < summary.libraries.length),
        LibrarySummary.ofLibrary component.session component.libraries[i] =
          .ok summary.libraries[i] := by
  simp only [ComponentSummary.ofComponent, bind_eq_ok] at h
  obtain ⟨main, -, libraries, hlibraries, h⟩ := h
  cases h
  obtain ⟨hlength, hat⟩ := List.forall₂_iff_get.mp (mapM_eq_ok.mp hlibraries)
  exact ⟨hlength.symm, fun i hi hi' => hat i hi hi'⟩

/-- Where the whole run goes through, its libraries are those of the view, and the run on each of
them prints its summary. -/
theorem outputs_of_whole {text : String} (h : r.componentOutput content = .ok text) :
    ∃ view component summary, View.openFile content r.options = .ok view ∧
      Component.load content r.options = .ok component ∧
      ComponentSummary.ofComponent component = .ok summary ∧
      r.emit summary.lines summary.json = text ∧
      summary.libraries.length = view.libraryCount ∧
      ∀ i (hi : i < summary.libraries.length), r.libraryOutput content i =
        .ok (r.emit summary.libraries[i].lines summary.libraries[i].json) := by
  obtain ⟨component, summary, hload, hsummary, htext⟩ := componentOutput_eq_ok_iff.mp h
  obtain ⟨view, hopen, hview⟩ := bind_eq_ok.mp hload
  have hmatches := Component.ofView_matches hview
  obtain ⟨hlength, hlibraries⟩ := libraries_of_summary hsummary
  refine ⟨view, component, summary, hopen, hload, hsummary, htext,
    hlength.trans hmatches.libraryCount, ?_⟩
  intro i hi
  have hi' : i < component.libraries.length := hlength ▸ hi
  have hlibrary := hlibraries i hi' hi
  rw [hmatches.session] at hlibrary
  exact libraryOutput_eq_ok_iff.mpr ⟨view, _, _, hopen, hmatches.libraryCount ▸ hi',
    hmatches.library i hi', hlibrary, rfl⟩

end Request

def Json.field? (name : String) : Json → Option Json
  | .object fields => fields.lookup name
  | _ => none

def Json.Prints (value : Json) (text : String) : Prop := value.pretty ++ "\n" = text

/-- At most one value is printed as a text. -/
theorem Json.Prints.unique {v w : Json} {text : String} (hv : v.Prints text)
    (hw : w.Prints text) : v = w := by
  apply pretty_injective
  have h := congrArg String.toList (hv.trans hw.symm)
  rw [String.toList_append, String.toList_append] at h
  exact String.toList_inj.mp (List.append_cancel_right h)

namespace Request

/-- How the run on a whole component goes together with the runs on its libraries. -/
structure Agrees (r : Request) (content : ByteArray) (view : View) : Prop where
  /-- Where the whole run goes through, the run on every library does. -/
  each : (r.whole.run (.ok content)).code = 0 →
    ∀ i < view.libraryCount, ((r.only i).run (.ok content)).code = 0
  lines : r.json = false → (r.whole.run (.ok content)).code = 0 →
    ∃ component summary, Component.load content r.options = .ok component ∧
      ComponentSummary.ofComponent component = .ok summary ∧
      (r.whole.run (.ok content)).stdout =
        String.join (summary.headLines.map (· ++ "\n")) ++ String.join
          ((List.range view.libraryCount).map fun i => ((r.only i).run (.ok content)).stdout)
  /-- The value of the whole has a list of libraries, and the value printed of a library alone is
  the one at its place in the list. -/
  json : r.json = true → (r.whole.run (.ok content)).code = 0 →
    (∃ value : Json, value.Prints (r.whole.run (.ok content)).stdout) ∧
      ∀ value : Json, value.Prints (r.whole.run (.ok content)).stdout →
        ∃ items, value.field? "libraries" = some (.list items) ∧
          items.length = view.libraryCount ∧ ∀ i < view.libraryCount, ∀ part : Json,
            part.Prints ((r.only i).run (.ok content)).stdout ↔ items[i]? = some part
  fails : ∀ i < view.libraryCount, ((r.only i).run (.ok content)).code = 1 →
    (r.whole.run (.ok content)).code = 1
  outOfRange : ∀ i, view.libraryCount ≤ i → ((r.only i).run (.ok content)).code = 1

variable {r : Request} {content : ByteArray} {view : View}

theorem code_eq_one {content : Except String ByteArray} (h : (r.run content).code ≠ 0) :
    (r.run content).code = 1 := by
  rcases r.run_ends content with hend | hend
  · exact absurd hend.1 h
  · exact hend.1

theorem run_whole {text : String} (h : r.componentOutput content = .ok text) :
    r.whole.run (.ok content) = { code := 0, stdout := text, stderr := "" } :=
  run_of_output (r := r.whole) h

theorem run_only {i : Nat} {text : String} (h : r.libraryOutput content i = .ok text) :
    (r.only i).run (.ok content) = { code := 0, stdout := text, stderr := "" } :=
  run_of_output (r := r.only i) h

/-- Where the whole run goes through, all that it and the runs on its libraries print. -/
theorem runs_of_whole (hopen : View.openFile content r.options = .ok view)
    (h : (r.whole.run (.ok content)).code = 0) :
    ∃ component summary, Component.load content r.options = .ok component ∧
      ComponentSummary.ofComponent component = .ok summary ∧
      (r.whole.run (.ok content)).stdout = r.emit summary.lines summary.json ∧
      summary.libraries.length = view.libraryCount ∧
      ∀ i (hi : i < summary.libraries.length), (r.only i).run (.ok content) =
        { code := 0, stdout := r.emit summary.libraries[i].lines summary.libraries[i].json,
          stderr := "" } := by
  obtain ⟨view', component, summary, hopen', hload, hsummary, htext, hlength, hlibraries⟩ :=
    outputs_of_whole (r := r) (output_of_code h)
  rw [hopen, Except.ok.injEq] at hopen'
  subst hopen'
  exact ⟨component, summary, hload, hsummary, htext.symm, hlength,
    fun i hi => run_only (hlibraries i hi)⟩

/-- The outputs of the runs on the libraries, in order. -/
theorem map_stdout_only {summary : ComponentSummary} {count : Nat}
    (hlength : summary.libraries.length = count)
    (hlibraries : ∀ i (hi : i < summary.libraries.length), (r.only i).run (.ok content) =
      { code := 0, stdout := r.emit summary.libraries[i].lines summary.libraries[i].json,
        stderr := "" }) :
    (List.range count).map (fun i => ((r.only i).run (.ok content)).stdout) =
      summary.libraries.map fun it => r.emit it.lines it.json := by
  apply List.ext_getElem
  · rw [List.length_map, List.length_map, List.length_range, hlength]
  · intro i _ hi
    rw [List.length_map] at hi
    rw [List.getElem_map, List.getElem_map, List.getElem_range, hlibraries i hi]

/-- The lines of a component are printed library by library. -/
theorem emit_lines (hjson : r.json = false) (summary : ComponentSummary) :
    r.emit summary.lines summary.json =
      String.join (summary.headLines.map (· ++ "\n")) ++
        String.join (summary.libraries.map fun it => r.emit it.lines it.json) := by
  have hlibraries : String.join ((summary.libraries.flatMap LibrarySummary.lines).map (· ++ "\n")) =
      String.join (summary.libraries.map fun it => r.emit it.lines it.json) := by
    induction summary.libraries with
    | nil => rfl
    | cons it libraries ih =>
      rw [List.flatMap_cons, List.map_append, String.join_append, ih, List.map_cons,
        String.join_cons]
      simp [emit, hjson]
  rw [← hlibraries, ← String.join_append, ← List.map_append]
  simp [emit, hjson, ComponentSummary.lines]

theorem agrees_of_openFile (hopen : View.openFile content r.options = .ok view) :
    r.Agrees content view := by
  have heach (h : (r.whole.run (.ok content)).code = 0) (i : Nat) (hi : i < view.libraryCount) :
      ((r.only i).run (.ok content)).code = 0 := by
    obtain ⟨component, summary, -, -, -, hlength, hlibraries⟩ := runs_of_whole hopen h
    rw [hlibraries i (hlength ▸ hi)]
  constructor
  case each => exact heach
  case lines =>
    intro hjson h
    obtain ⟨component, summary, hload, hsummary, hstdout, hlength, hlibraries⟩ :=
      runs_of_whole hopen h
    refine ⟨component, summary, hload, hsummary, ?_⟩
    rw [hstdout, map_stdout_only hlength hlibraries, emit_lines hjson]
  case json =>
    intro hjson h
    obtain ⟨component, summary, -, -, hstdout, hlength, hlibraries⟩ := runs_of_whole hopen h
    have hprints (lines : List String) (value : Json) : value.Prints (r.emit lines value) := by
      simp [Json.Prints, emit, hjson]
    refine ⟨⟨summary.json, hstdout ▸ hprints ..⟩, ?_⟩
    intro value hvalue
    rw [hstdout] at hvalue
    obtain rfl := hvalue.unique (hprints ..)
    refine ⟨summary.libraries.map LibrarySummary.json, rfl, by rw [List.length_map, hlength], ?_⟩
    intro i hi part
    have hi' : i < summary.libraries.length := hlength ▸ hi
    rw [hlibraries i hi', List.getElem?_map, List.getElem?_eq_getElem hi', Option.map_some,
      Option.some.injEq]
    refine ⟨fun hpart => (hprints ..).unique hpart, ?_⟩
    rintro rfl
    exact hprints ..
  case fails =>
    intro i hi h
    apply code_eq_one
    intro hwhole
    rw [heach hwhole i hi] at h
    cases h
  case outOfRange =>
    intro i hi
    apply code_eq_one
    intro h
    obtain ⟨view', _, _, hopen', hcount, -⟩ :=
      libraryOutput_eq_ok_iff.mp (output_of_code (r := r.only i) h)
    cases hopen.symm.trans hopen'
    omega

/-- Without a view there is no whole run that goes through. -/
theorem whole_of_openFile_error {fault : Fault}
    (hopen : View.openFile content r.options = .error fault) :
    (r.whole.run (.ok content)).code = 1 := by
  apply code_eq_one
  intro h
  obtain ⟨view, _, _, hopen', -⟩ := outputs_of_whole (r := r) (output_of_code h)
  cases hopen.symm.trans hopen'

/-- The run on one library agrees with the run on the whole component, for any options and whether
or not the output is JSON. Every run ends with its output or with its failure alone, and the wish to
read side by side changes nothing. -/
theorem whole_agrees :
    (∀ (r : Request) (content : ByteArray),
      (∀ view, View.openFile content r.options = .ok view → r.Agrees content view) ∧
      ∀ fault, View.openFile content r.options = .error fault →
        (r.whole.run (.ok content)).code = 1) ∧
    ∀ (r : Request) (content : Except String ByteArray),
      (((r.run content).code = 0 ∧ (r.run content).stderr = "") ∨
        (r.run content).code = 1 ∧ (r.run content).stdout = "" ∧
          ∃ rest, (r.run content).stderr = "Error: " ++ rest) ∧
      ∀ parallel, run { r with parallel } content = r.run content := by
  refine ⟨fun r content => ⟨fun view => agrees_of_openFile, fun fault => ?_⟩, fun r content => ?_⟩
  · exact whole_of_openFile_error
  · exact ⟨r.run_ends content, r.run_parallel content⟩

/-- A component of two libraries, as a whole and library by library. -/
theorem whole_agrees_twin :
    let r : Request := { input := "twin.dill", json := true }
    ∃ view, View.openFile Component.twinFile r.options = .ok view ∧
      r.Agrees Component.twinFile view ∧ (r.whole.run (.ok Component.twinFile)).code = 0 ∧
      ((r.only 1).run (.ok Component.twinFile)).code = 0 ∧
      ((r.only 2).run (.ok Component.twinFile)).code = 1 := by
  intro r
  have hfile : (Component.load Component.twinFile {}).toOption.any (fun component =>
      (ComponentSummary.ofComponent component).toOption.any fun _ =>
        component.directory.libraryCount = 2) = true := by
    decide +kernel
  simp only [toOption_any_iff, decide_eq_true_eq] at hfile
  obtain ⟨component, hload, summary, hsummary, hcount⟩ := hfile
  have houtput : r.componentOutput Component.twinFile =
      .ok (r.emit summary.lines summary.json) :=
    componentOutput_eq_ok_iff.mpr ⟨component, summary, hload, hsummary, rfl⟩
  have hwhole : (r.whole.run (.ok Component.twinFile)).code = 0 := by rw [run_whole houtput]
  obtain ⟨view, hopen, hview⟩ := bind_eq_ok.mp hload
  have hlibraries : view.libraryCount = 2 := by
    rw [View.libraryCount, ← (Component.ofView_matches hview).directory, hcount]
    rfl
  have hagrees : r.Agrees Component.twinFile view :=
    (whole_agrees.1 r Component.twinFile).1 view hopen
  exact ⟨view, hopen, hagrees, hwhole, hagrees.each hwhole 1 (by omega),
    hagrees.outOfRange 2 (by omega)⟩

end Request
end DartKernel
