import DartKernel.Proofs.Addressing
import DartKernel.Proofs.PartialLoading
import DartKernel.Proofs.StringTiles

namespace DartKernel

namespace Diagnostic

variable {d e : Diagnostic} {reports : List Diagnostic}

/-- The reports that none of the same kind comes before, in the order in which they are made. -/
def firsts (reports : List Diagnostic) : List Diagnostic :=
  (reports.zipIdx.filter fun made => !(reports.take made.2).any made.1.sameKind).map Prod.fst

theorem sameKind_congr (h : d.sameKind e) : d.sameKind = e.sameKind := by
  funext other
  rw [sameKind, sameKind, beq_iff_eq.mp h]

/-- One more report changes nothing about those before it. -/
theorem firsts_concat (reports : List Diagnostic) (d : Diagnostic) :
    firsts (reports ++ [d]) = firsts reports ++ if reports.any d.sameKind then [] else [d] := by
  have hbefore : reports.zipIdx.filter
        (fun made => !((reports ++ [d]).take made.2).any made.1.sameKind) =
      reports.zipIdx.filter fun made => !(reports.take made.2).any made.1.sameKind := by
    apply List.filter_congr
    intro made hmade
    rw [List.take_append_of_le_length (List.snd_lt_of_mem_zipIdx hmade).le]
  rw [firsts, List.zipIdx_append, List.filter_append, List.map_append, hbefore, firsts]
  congr 1
  cases h : reports.any d.sameKind <;> simp [h]

/-- Every kind that is reported is kept. -/
theorem any_firsts (reports : List Diagnostic) (d : Diagnostic) :
    (firsts reports).any d.sameKind = reports.any d.sameKind := by
  induction reports using List.reverseRecOn with
  | nil => rfl
  | append_singleton reports e ih =>
    rw [firsts_concat, List.any_append, List.any_append, ih]
    by_cases hkept : reports.any e.sameKind
    · rw [if_pos hkept]
      cases hsame : d.sameKind e with
      | false => simp [hsame]
      | true => simp [sameKind_congr hsame, hkept]
    · rw [if_neg hkept]

/-- Reporting keeps the first diagnostic of each kind. -/
theorem foldl_report (reports : List Diagnostic) : reports.foldl report [] = firsts reports := by
  induction reports using List.reverseRecOn with
  | nil => rfl
  | append_singleton reports d ih =>
    rw [List.foldl_append, ih, firsts_concat, List.foldl_cons, List.foldl_nil, report, any_firsts]
    split <;> simp

/-- Kinds that are kept already are not kept again. -/
theorem foldl_report_of_kept {kept : List Diagnostic} (h : ∀ d ∈ reports, kept.any d.sameKind) :
    reports.foldl report kept = kept := by
  induction reports with
  | nil => rfl
  | cons d reports ih =>
    obtain ⟨hd, hreports⟩ := List.forall_mem_cons.mp h
    rw [List.foldl_cons, report, if_pos hd, ih hreports]

/-- Of reports that are all of one new kind, the first one is kept. -/
theorem foldl_report_of_new {kept : List Diagnostic}
    (hkind : ∀ d ∈ reports, ∀ e ∈ reports, d.sameKind e)
    (hnew : ∀ d ∈ reports, ¬ kept.any d.sameKind) :
    reports.foldl report kept = kept ++ reports.head?.toList := by
  cases reports with
  | nil => simp
  | cons d reports =>
    have hkept : ∀ e ∈ reports, (kept ++ [d]).any e.sameKind := by
      intro e he
      simp [hkind e (.tail _ he) d (.head _)]
    rw [List.foldl_cons, report, if_neg (hnew d (.head _)), foldl_report_of_kept hkept]
    rfl

end Diagnostic

namespace Scan

/-- A word that is read is the one at the cursor. -/
theorem word_eq_ok {w m : Window} {word : UInt32} (h : Scan.word w = .ok word m) :
    w.position + 4 ≤ w.length ∧ word = w.wordAt w.position ∧ m = w.goto (w.position + 4) := by
  by_cases hfits : w.position + 4 ≤ w.length
  · have hword := word_goto hfits
    rw [w.goto_position, h] at hword
    cases hword
    exact ⟨hfits, rfl, rfl⟩
  · have hrefused : ¬ 4 ≤ w.remaining := by
      rw [Window.remaining]
      omega
    rw [Scan.word, bind_eq, bytes_eq, if_neg hrefused] at h
    cases h

end Scan

namespace Header

variable {w w' : Window} {it : Header}

/-- A header is a magic word, a version and, since version 17, a list of problems. -/
theorem run_eq_ok (h : decoder.run w = .ok it w') : ∃ v m,
    Scan.word w = .ok magic v ∧ Scan.word v = .ok it.version.number m ∧
      if it.version.hasProblems then
        Scan.list (TableDecoder.run (Decoder.text .problems)) m = .ok it.problems w'
      else it.problems = [] := by
  rw [TableDecoder.run, decoder, Decoder.run_bind, Decoder.run_word] at h
  obtain ⟨found, v, hfound, h⟩ := Scan.bind_ok h
  split at h
  · cases h
  · rename_i hmagic
    obtain rfl := not_not.mp hmagic
    rw [Decoder.run_bind, Decoder.run_word] at h
    obtain ⟨number, m, hnumber, h⟩ := Scan.bind_ok h
    refine ⟨v, m, hfound, ?_⟩
    dsimp only at h
    split at h
    · rename_i hproblems
      rw [Decoder.run_bind, Decoder.run_list] at h
      obtain ⟨problems, _, hlist, h⟩ := Scan.bind_ok h
      cases h
      rw [if_pos hproblems]
      exact ⟨hnumber, hlist⟩
    · rename_i hproblems
      cases h
      rw [if_neg hproblems]
      exact ⟨hnumber, rfl⟩

theorem hasProblems_iff (v : FormatVersion) : v.hasProblems ↔ 17 ≤ v.number := decide_eq_true_iff

theorem isKnown_iff (v : FormatVersion) : v.isKnown ↔ 16 ≤ v.number := decide_eq_true_iff

/-- A header reports one condition at most. -/
theorem diagnostics_eq (it : Header) : it.diagnostics =
    if it.version.number < 16 then [.unknownFormatVersion it.version.number]
    else if 17 ≤ it.version.number ∧ it.problems ≠ [] then [.problems it.problems.length]
    else [] := by
  simp only [diagnostics, hasProblems_iff, isKnown_iff, List.isEmpty_iff]
  by_cases hproblems : 17 ≤ it.version.number
  · have hlater : ¬ it.version.number < 16 :=
      UInt32.not_lt.mpr (UInt32.le_trans (by decide) hproblems)
    rw [if_pos hproblems, if_neg hlater]
    by_cases hnil : it.problems = [] <;> simp [hnil, hproblems]
  · rw [if_neg hproblems]
    by_cases hknown : 16 ≤ it.version.number
    · simp [hknown, hproblems, UInt32.not_lt.mpr hknown]
    · rw [if_neg hknown, if_pos (UInt32.not_le.mp hknown)]

/-- What a header gives reason to is of one kind, so reporting it drops nothing. -/
theorem foldl_report_diagnostics (it : Header) :
    it.diagnostics.foldl Diagnostic.report [] = it.diagnostics := by
  rw [diagnostics_eq]
  split
  · rfl
  · split <;> rfl

/-- The version stands at the fourth byte, and the number of problems at the eighth. -/
theorem eq_ok_of_start (hstart : w.position = 0) (h : decoder.run w = .ok it w') :
    it.version.number = w.wordAt 4 ∧ (it.version.hasProblems → ∃ count m,
      Scan.uint (w.goto 8) = .ok count m ∧ it.problems.length = count.toNat) := by
  obtain ⟨v, m, hmagic, hversion, hproblems⟩ := run_eq_ok h
  obtain ⟨hfits, -, rfl⟩ := Scan.word_eq_ok hmagic
  rw [hstart, Nat.zero_add] at hfits hversion
  have hposition : (w.goto 4).position = 4 := Nat.min_eq_left hfits
  obtain ⟨-, hnumber, rfl⟩ := Scan.word_eq_ok hversion
  rw [hposition] at hnumber hproblems
  refine ⟨hnumber, ?_⟩
  intro hhas
  rw [if_pos hhas] at hproblems
  obtain ⟨count, m, hcount, hmany⟩ := Scan.list_eq_ok.mp hproblems
  exact ⟨count, m, hcount, Scan.length_of_many hmany⟩

end Header

theorem View.header_of_openFile {content : ByteArray} {options : DecodeOptions} {view : View}
    (h : openFile content options = .ok view) :
    ∃ w', Header.decoder.run (.ofBytes content) = .ok view.header w' := by
  unfold openFile at h
  simp only [bind_eq_ok] at h
  obtain ⟨header, hheader, _, -, _, -, _, -, _, -, _, -, _, -, _, -, h⟩ := h
  cases h
  exact Scan.value_eq_ok.mp hheader

namespace Component

def reports (component : Component) : List Diagnostic :=
  component.header.diagnostics ++
    (component.constants.filter Constant.isDeprecated).map (.deprecatedConstant ·.tag)

/-- Reports of constants add the first of them to what the header reports. -/
theorem foldl_report_constants (header : Header) (constants : List Constant) :
    (constants.map (.deprecatedConstant ·.tag)).foldl Diagnostic.report header.diagnostics =
      header.diagnostics ++ constants.head?.toList.map (.deprecatedConstant ·.tag) := by
  rw [Diagnostic.foldl_report_of_new, List.head?_map]
  · cases constants.head? <;> rfl
  · intro d hd e he
    obtain ⟨it, -, rfl⟩ := List.mem_map.mp hd
    obtain ⟨other, -, rfl⟩ := List.mem_map.mp he
    rfl
  · intro d hd
    obtain ⟨it, -, rfl⟩ := List.mem_map.mp hd
    rw [header.diagnostics_eq]
    split
    · nofun
    · split <;> nofun

theorem diagnostics_of_ofView {view : View} {component : Component}
    (h : ofView view = .ok component) : component.diagnostics =
      ((component.constants.filter Constant.isDeprecated).map
        (.deprecatedConstant ·.tag)).foldl Diagnostic.report component.header.diagnostics := by
  unfold ofView at h
  simp only [bind_eq_ok] at h
  obtain ⟨_, -, _, -, _, -, _, -, _, -, _, -, h⟩ := h
  cases h
  exact List.foldl_map.symm

end Component

/-- Of all reports the first of each kind is kept, in order. So a view whose file can be opened has
one diagnostic, the version, if that is below 16, one with the number of problems if the version is
17 or later and there are any, and else none; and a component that is read in full has those of its
view and then the tag of the first deprecated constant, if there is one. -/
theorem diagnostics_are_firsts :
    (∀ reports : List Diagnostic, reports.foldl Diagnostic.report [] = Diagnostic.firsts reports) ∧
    (∀ (content : ByteArray) (options : DecodeOptions) (view : View) (version : UInt32),
      View.openFile content options = .ok view → (Window.ofBytes content).wordAt 4 = version →
      (version < 16 → view.diagnostics = [.unknownFormatVersion version]) ∧
      (version = 16 → view.diagnostics = []) ∧
      (17 ≤ version → ∃ count m, Scan.uint ((Window.ofBytes content).goto 8) = .ok count m ∧
        view.header.problems.length = count.toNat ∧
        view.diagnostics = if count = 0 then [] else [.problems count.toNat])) ∧
    ∀ (content : ByteArray) (options : DecodeOptions) (component : Component),
      Component.load content options = .ok component →
      ∃ view, View.openFile content options = .ok view ∧
        view.constants = .ok component.constants ∧
        component.diagnostics = Diagnostic.firsts component.reports ∧
        component.diagnostics = view.diagnostics ++
          (component.constants.find? Constant.isDeprecated).toList.map
            (.deprecatedConstant ·.tag) := by
  refine ⟨Diagnostic.foldl_report, ?_, ?_⟩
  · intro content options view version h hword
    obtain ⟨w', hheader⟩ := View.header_of_openFile h
    obtain ⟨hversion, hproblems⟩ := Header.eq_ok_of_start rfl hheader
    rw [hword] at hversion
    simp only [View.diagnostics, Header.diagnostics_eq, hversion]
    refine ⟨?_, ?_, ?_⟩
    · intro hlt
      rw [if_pos hlt]
    · rintro rfl
      rfl
    · intro hle
      have hlater : ¬ version < 16 := UInt32.not_lt.mpr (UInt32.le_trans (by decide) hle)
      obtain ⟨count, m, hcount, hlength⟩ :=
        hproblems ((Header.hasProblems_iff _).mpr (hversion ▸ hle))
      have hnone : view.header.problems = [] ↔ count = 0 := by
        rw [← List.length_eq_zero_iff, hlength, ← UInt32.toNat_inj, UInt32.toNat_zero]
      refine ⟨count, m, hcount, hlength, ?_⟩
      rw [if_neg hlater]
      by_cases hzero : count = 0 <;> simp [hnone, hzero, hlength, hle]
  · intro content options component h
    obtain ⟨view, hopen, hview⟩ := bind_eq_ok.mp h
    have hmatches := Component.ofView_matches hview
    refine ⟨view, hopen, hmatches.constants, ?_, ?_⟩
    · rw [← Diagnostic.foldl_report, Component.reports, List.foldl_append,
        Header.foldl_report_diagnostics, Component.diagnostics_of_ofView hview]
    · rw [Component.diagnostics_of_ofView hview, Component.foldl_report_constants,
        List.head?_filter, hmatches.header]
      rfl

/-- A component of version 5 with three constants, the second and the third of them deprecated. -/
def deprecatedFile : ByteArray :=
  ⟨(wordsBytes [Header.magic, 5, 0]
    ++ [3, 0, ConstantKind.environmentInt.tag, 0, 0, ConstantKind.environmentBool.tag, 0, 0]
    ++ [1, 0] ++ [0] ++ wordsBytes [8, 22, 20, 20, 20, 12, 0, 23, 0, 63]).toArray⟩

/-- The version is reported first, and the tag of the second constant after it. -/
theorem diagnostics_are_firsts_deprecated :
    ∃ view component, View.openFile deprecatedFile {} = .ok view ∧
      Component.load deprecatedFile {} = .ok component ∧
      view.diagnostics = [.unknownFormatVersion 5] ∧
      component.diagnostics = [.unknownFormatVersion 5, .deprecatedConstant 13] := by
  obtain ⟨-, hview, hcomponent⟩ := diagnostics_are_firsts
  have hfirst : (Component.load deprecatedFile {}).toOption.any (fun component =>
      (component.constants.find? Constant.isDeprecated).map Constant.tag = some 13) = true := by
    decide +kernel
  cases hload : Component.load deprecatedFile {} with
  | error fault => simp [hload, Except.toOption] at hfirst
  | ok component =>
    simp only [hload, Except.toOption, Option.any_some, decide_eq_true_eq] at hfirst
    obtain ⟨view, hopen, -, -, hdiagnostics⟩ := hcomponent _ _ component hload
    obtain ⟨hunknown, -, -⟩ := hview _ _ view 5 hopen (by decide +kernel)
    obtain ⟨it, hit, htag⟩ := Option.map_eq_some_iff.mp hfirst
    refine ⟨view, component, hopen, rfl, hunknown (by decide), ?_⟩
    rw [hdiagnostics, hunknown (by decide), hit]
    simp [htag]

end DartKernel
