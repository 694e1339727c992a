import DartKernel.Component.Load
import DartKernel.Proofs.Carving

namespace DartKernel

/-- Every part of a view can be read. -/
structure View.Readable (view : View) : Prop where
  sources : ∃ sources, view.sources = .ok sources
  constants : ∃ constants, view.constants = .ok constants
  libraries : ∀ i < view.libraryCount, ∃ library, view.library i = .ok library
  metadata : ∃ mappings payloads metadata, view.mappings = .ok mappings ∧
    view.payloads = .ok payloads ∧
    Metadata.ofMappings payloads mappings view.session.strings = .ok metadata

namespace Component

/-- The parts of a component are those that a view gives one by one. -/
structure Matches (component : Component) (view : View) : Prop where
  header : component.header = view.header
  directory : component.directory = view.directory
  strings : component.session.strings = view.session.strings
  names : component.session.names = view.session.names
  session : component.session = view.session
  sources : view.sources = .ok component.sources
  metadata : ∃ mappings, view.mappings = .ok mappings ∧
    view.payloads = .ok component.metadata.payloads ∧
    Metadata.ofMappings component.metadata.payloads mappings view.session.strings =
      .ok component.metadata
  constants : view.constants = .ok component.constants
  libraryCount : component.libraries.length = view.libraryCount
  library : ∀ i (hi : i < component.libraries.length),
    view.library i = .ok component.libraries[i]
  libraryIndex : ∀ i (hi : i < component.libraries.length),
    view.libraryIndex i = .ok component.libraries[i].index
  classCount : ∀ library ∈ component.libraries,
    library.classes.length = library.index.classCount
  classAt : ∀ i (hi : i < component.libraries.length) j
    (hj : j < component.libraries[i].classes.length),
    view.classAt i j = .ok component.libraries[i].classes[j]
  procedureCount : ∀ library ∈ component.libraries,
    library.procedures.length = library.index.procedureCount
  procedureAt : ∀ i (hi : i < component.libraries.length) k
    (hk : k < component.libraries[i].procedures.length),
    view.procedureAt i k = .ok component.libraries[i].procedures[k]

theorem ofView_succeeds {view : View} :
    (∃ component, ofView view = .ok component) ↔ view.Readable := by
  unfold ofView
  simp only [bind_eq_ok]
  constructor
  · intro h
    obtain ⟨_, mappings, hm, sources, hs, constants, hc, libraries, hl, payloads, hp, metadata, hd,
      -⟩ := h
    refine ⟨⟨sources, hs⟩, ⟨constants, hc⟩, ?_, mappings, payloads, metadata, hm, hp, hd⟩
    intro i hi
    exact mapM_succeeds.mp ⟨libraries, hl⟩ i (List.mem_range.mpr hi)
  · intro h
    obtain ⟨⟨sources, hs⟩, ⟨constants, hc⟩, hl, mappings, payloads, metadata, hm, hp, hd⟩ := h
    obtain ⟨libraries, hl⟩ : ∃ libraries,
        (List.range view.libraryCount).mapM view.library = .ok libraries :=
      mapM_succeeds.mpr fun i hi => hl i (List.mem_range.mp hi)
    exact ⟨_, mappings, hm, sources, hs, constants, hc, libraries, hl, payloads, hp, metadata, hd,
      rfl⟩

/-- What a view reads of a library alone is in the library as a whole. -/
theorem library_parts {view : View} {i : Nat} {library : Library}
    (h : view.library i = .ok library) : view.libraryIndex i = .ok library.index ∧
      (library.classes.length = library.index.classCount ∧
        ∀ j (hj : j < library.classes.length), view.classAt i j = .ok library.classes[j]) ∧
      (library.procedures.length = library.index.procedureCount ∧
        ∀ k (hk : k < library.procedures.length),
          view.procedureAt i k = .ok library.procedures[k]) := by
  obtain ⟨w, hw, hscan⟩ := bind_eq_ok.mp h
  obtain ⟨hindex, -, hclasses, -, hprocedures⟩ := Library.value_scan_iff.mp hscan
  obtain ⟨hclassCount, hclasses⟩ := mapM_range_eq_ok.mp hclasses
  obtain ⟨hprocedureCount, hprocedures⟩ := mapM_range_eq_ok.mp hprocedures
  refine ⟨bind_eq_ok.mpr ⟨w, hw, hindex⟩, ⟨hclassCount, ?_⟩, hprocedureCount, ?_⟩
  · intro j hj
    exact bind_eq_ok.mpr ⟨w, hw, bind_eq_ok.mpr ⟨_, hindex, hclasses j hj⟩⟩
  · intro k hk
    exact bind_eq_ok.mpr ⟨w, hw, bind_eq_ok.mpr ⟨_, hindex, hprocedures k hk⟩⟩

theorem ofView_matches {view : View} {component : Component}
    (h : ofView view = .ok component) : component.Matches view := by
  unfold ofView at h
  simp only [bind_eq_ok] at h
  obtain ⟨mappings, hm, sources, hs, constants, hc, libraries, hl, payloads, hp, metadata, hd, h⟩ :=
    h
  cases h
  obtain ⟨hcount, hlibrary⟩ := mapM_range_eq_ok.mp hl
  have hpayloads : metadata.payloads = payloads := by
    obtain ⟨keyed, -, hk⟩ := bind_eq_ok.mp hd
    cases hk
    rfl
  have hmem {library : Library} (hin : library ∈ libraries) :
      ∃ i, view.library i = .ok library := by
    obtain ⟨i, hi, rfl⟩ := List.getElem_of_mem hin
    exact ⟨i, hlibrary i hi⟩
  constructor
  case header | directory | strings | names | session => rfl
  case sources => exact hs
  case constants => exact hc
  case metadata =>
    subst hpayloads
    exact ⟨mappings, hm, hp, hd⟩
  case libraryCount => exact hcount
  case library => exact hlibrary
  case libraryIndex =>
    intro i hi
    exact (library_parts (hlibrary i hi)).1
  case classCount =>
    intro library hin
    obtain ⟨i, hi⟩ := hmem hin
    exact (library_parts hi).2.1.1
  case classAt =>
    intro i hi j hj
    exact (library_parts (hlibrary i hi)).2.1.2 j hj
  case procedureCount =>
    intro library hin
    obtain ⟨i, hi⟩ := hmem hin
    exact (library_parts hi).2.2.1
  case procedureAt =>
    intro i hi k hk
    exact (library_parts (hlibrary i hi)).2.2.2 k hk

/-- Reading in full succeeds exactly when a view opens and every part of it can be read, and it
gives the parts that the view gives. -/
theorem load_iff_view (content : ByteArray) (options : DecodeOptions) :
    ((∃ component, load content options = .ok component) ↔
      ∃ view, View.openFile content options = .ok view ∧ view.Readable) ∧
    ∀ component, load content options = .ok component →
      ∃ view, View.openFile content options = .ok view ∧ component.Matches view := by
  constructor
  · constructor
    · intro h
      rcases h with ⟨component, h⟩
      obtain ⟨view, hopen, hview⟩ := bind_eq_ok.mp h
      exact ⟨view, hopen, ofView_succeeds.mp ⟨component, hview⟩⟩
    · intro h
      rcases h with ⟨view, hopen, hview⟩
      obtain ⟨component, hcomponent⟩ := ofView_succeeds.mpr hview
      exact ⟨component, bind_eq_ok.mpr ⟨view, hopen, hcomponent⟩⟩
  · intro component h
    obtain ⟨view, hopen, hview⟩ := bind_eq_ok.mp h
    exact ⟨view, hopen, ofView_matches hview⟩

end Component
end DartKernel
