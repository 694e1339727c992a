import DartKernel.Proofs.Nesting
import DartKernel.Proofs.PrivateNames

namespace DartKernel

namespace NodeDecoder
open Decoder

/-- The tags of integer literals, the first one for those that are packed. -/
def literalTags : List UInt8 :=
  [ExpressionKind.positiveIntLiteral.tag, ExpressionKind.negativeIntLiteral.tag,
    ExpressionKind.bigIntLiteral.tag, (ExpressionKind.smallIntLiteral 0).tag]

def foldedIntLiteral : NodeDecoder Expression := do
  let tag ← peek
  if Tag.masked tag ∈ literalTags then expression else fail (.constantPayload tag)

/-- Folded tags tell the literals apart just as the kinds do that the tags stand for. -/
theorem masked_mem_literalTags_iff (tag : UInt8) : Tag.masked tag ∈ literalTags ↔
    (TaggedFamily.ofTag? tag : Option ExpressionKind).any ExpressionKind.isIntLiteral = true := by
  have hall : ∀ tag : Fin 256, Tag.masked (.ofFin tag) ∈ literalTags ↔
      (ExpressionKind.ofByte? (.ofFin tag)).any ExpressionKind.isIntLiteral = true := by
    decide +kernel
  rw [← ExpressionKind.ofByte?_eq]
  exact hall tag.toFin

theorem intLiteral_eq_folded : intLiteral = foldedIntLiteral := by
  simp only [intLiteral, foldedIntLiteral, masked_mem_literalTags_iff]

variable {session : Session} {w w' : Window} {e : Expression} {it : Constant}

/-- Where an expression can be read, it is taken for a literal exactly when it is one. -/
theorem scan_intLiteral (h : expression.scan session.conventions w = .ok e w') :
    intLiteral.scan session.conventions w =
      if e.isIntLiteral then .ok e w' else .error (.constantPayload e.tag) w := by
  have htag : w.rest.head? = some e.tag := head?_of_tree h
  obtain ⟨rest, hrest⟩ := List.head?_eq_some_iff.mp htag
  rw [scan, intLiteral, run_bind, run_peek, Scan.bind_eq, Scan.peek_eq_ok hrest]
  simp only [intLiteral_tag_iff]
  by_cases hliteral : e.isIntLiteral
  · rw [if_pos hliteral, if_pos hliteral]
    exact h
  · rw [if_neg hliteral, if_neg hliteral]
    rfl

theorem scan_intLiteral_eq_ok : intLiteral.scan session.conventions w = .ok e w' ↔
    e.isIntLiteral ∧ expression.scan session.conventions w = .ok e w' := by
  constructor
  · intro h
    -- Looking ahead moves nothing, so what was read is the expression at the cursor.
    have hexpression : expression.scan session.conventions w = .ok e w' := by
      rw [scan, intLiteral, run_bind, run_peek] at h
      obtain ⟨tag, m, hpeek, hrun⟩ := Scan.bind_ok h
      obtain ⟨rfl, -⟩ := Scan.peek_ok hpeek
      dsimp only at hrun
      split at hrun
      · exact hrun
      · cases hrun
    have hliteral := scan_intLiteral hexpression
    rw [h] at hliteral
    split at hliteral
    · exact ⟨by assumption, hexpression⟩
    · cases hliteral
  · rintro ⟨hliteral, h⟩
    rw [scan_intLiteral h, if_pos hliteral]

/-- A constant with the tag of integers goes on with a literal. -/
theorem scan_constant_of_int (h : w.rest.head? = some ConstantKind.int.tag) :
    constant.scan session.conventions w =
      (do return .int (← intLiteral.scan session.conventions) : Scan Constant) (w.advance 1) := by
  obtain ⟨rest, hrest⟩ := List.head?_eq_some_iff.mp h
  have hkind : (TaggedFamily.ofTag? ConstantKind.int.tag : Option ConstantKind) = some .int :=
    TaggedFamily.ofTag?_eq_some_iff.mpr rfl
  rw [scan, constant, run_bind, run_byte, Scan.bind_eq, Scan.byte_eq_ok hrest]
  simp only [tagged, hkind]
  exact congrFun (run_bind intLiteral fun e => pure (Constant.int e)) _

end NodeDecoder

/-- The literals are the four forms of an integer. -/
theorem Expression.isIntLiteral_iff {e : Expression} : e.isIntLiteral ↔
    (∃ biased, e = .smallIntLiteral biased) ∨ (∃ value, e = .positiveIntLiteral value) ∨
      (∃ absolute, e = .negativeIntLiteral absolute) ∨ ∃ digits, e = .bigIntLiteral digits := by
  cases e <;> simp [Expression.isIntLiteral, Expression.kind, ExpressionKind.isIntLiteral]

/-- A literal has a value unless it is left as text. -/
theorem Expression.intValue?_eq_none_iff {e : Expression} (h : e.isIntLiteral) :
    e.intValue? = none ↔ ∃ digits, e = .bigIntLiteral digits := by
  rcases isIntLiteral_iff.mp h with ⟨_, rfl⟩ | ⟨_, rfl⟩ | ⟨_, rfl⟩ | ⟨_, rfl⟩ <;> simp [intValue?]

/-- The value of a literal that can be written has at most thirty bits. -/
theorem Expression.intValue?_bounds {session : Session} {e : Expression} {n : Int}
    (hfits : (NodeLayout.expression e).Fits (NodeLayout.treeTokens session))
    (h : e.intValue? = some n) : -2 ^ 30 < n ∧ n < 2 ^ 30 := by
  have hfields : (NodeLayout.expressionFields session e).Fits (NodeLayout.treeTokens session) := by
    intro token htoken
    apply hfits
    rw [NodeLayout.expression, NodeLayout.tokens_tree]
    exact .tail _ (.tail _ htoken)
  cases e with
  | smallIntLiteral biased =>
    obtain rfl := Option.some.inj h
    omega
  | positiveIntLiteral value =>
    obtain rfl := Option.some.inj h
    have hlt : value.toNat < 2 ^ 30 := Layout.fits_uint.mp hfields
    omega
  | negativeIntLiteral absolute =>
    obtain rfl := Option.some.inj h
    have hlt : absolute.toNat < 2 ^ 30 := Layout.fits_uint.mp hfields
    omega
  | _ => cases h

/-- The integer constants of a component are literals that fit. -/
theorem Component.fits_of_int {content : ByteArray} {options : DecodeOptions}
    {component : Component} {e : Expression} (h : load content options = .ok component)
    (he : .int e ∈ component.constants) : e.isIntLiteral ∧
      (NodeLayout.expression e).Fits (NodeLayout.treeTokens component.session) := by
  obtain ⟨view, -, hview⟩ := bind_eq_ok.mp h
  have hmatches := ofView_matches hview
  have hread : view.Reads (.constant (.int e)) := .constant hmatches.constants he
  have hfits := hread.fits
  simp only [Node.Fits, Node.layout, NodeLayout.constant, NodeLayout.constantFields,
    Layout.fits_tagged, Layout.fits_append, Layout.fits_require] at hfits
  rw [hmatches.session]
  exact hfits

/-- An integer constant is read exactly when an integer literal stands behind its tag, and ends
where the literal does. Any other expression there is refused by its tag, with the cursor in front
of it. So the integer constants of a component hold literals; their values have at most thirty bits,
and only those that are left as text have none. -/
theorem int_constants_hold_literals :
    NodeDecoder.intLiteral = NodeDecoder.foldedIntLiteral ∧
    (∀ (session : Session) (w : Window), w.bytes[w.position]? = some ConstantKind.int.tag →
      (∀ it w', NodeDecoder.constant.scan session.conventions w = .ok it w' ↔
        ∃ e, it = .int e ∧ e.isIntLiteral ∧
          NodeDecoder.expression.scan session.conventions (w.advance 1) = .ok e w') ∧
      (w.advance 1).position = w.position + 1 ∧
      ∀ e w', NodeDecoder.expression.scan session.conventions (w.advance 1) = .ok e w' →
        ¬ e.isIntLiteral →
        NodeDecoder.constant.scan session.conventions w =
          .error (.constantPayload e.tag) (w.advance 1)) ∧
    ∀ (content : ByteArray) (options : DecodeOptions) (component : Component),
      Component.load content options = .ok component → ∀ e, .int e ∈ component.constants →
      e.isIntLiteral ∧ (e.intValue? = none ↔ ∃ digits, e = .bigIntLiteral digits) ∧
        ∀ n, e.intValue? = some n → -2 ^ 30 < n ∧ n < 2 ^ 30 := by
  refine ⟨NodeDecoder.intLiteral_eq_folded, ?_, ?_⟩
  · intro session w htag
    rw [w.getElem?_bytes_position] at htag
    have hpos : 1 ≤ w.remaining := by
      obtain ⟨rest, hrest⟩ := List.head?_eq_some_iff.mp htag
      rw [← w.length_rest, hrest]
      exact Nat.succ_pos _
    refine ⟨?_, Window.position_advance_of_le hpos, ?_⟩
    · intro it w'
      simp only [NodeDecoder.scan_constant_of_int htag, Scan.bind_eq_ok, Scan.pure_eq_ok,
        NodeDecoder.scan_intLiteral_eq_ok]
      constructor
      · rintro ⟨e, _, ⟨hliteral, he⟩, rfl, rfl⟩
        exact ⟨e, rfl, hliteral, he⟩
      · rintro ⟨e, rfl, hliteral, he⟩
        exact ⟨e, w', ⟨hliteral, he⟩, rfl, rfl⟩
    · intro e w' he hliteral
      rw [NodeDecoder.scan_constant_of_int htag, Scan.bind_eq, NodeDecoder.scan_intLiteral he,
        if_neg hliteral]
  · intro content options component h e he
    obtain ⟨hliteral, hfits⟩ := Component.fits_of_int h he
    exact ⟨hliteral, Expression.intValue?_eq_none_iff hliteral,
      fun n => Expression.intValue?_bounds hfits⟩

/-- A component of two constants, an integer in its tag and one that is left as text. -/
def literalFile : ByteArray :=
  ⟨(wordsBytes [Header.magic, 16, 0] ++ [2, 2, 150, 2, 57, 0] ++ [1, 0] ++ [0]
    ++ wordsBytes [8, 20, 18, 18, 18, 12, 0, 21, 0, 61]).toArray⟩

/-- A literal in its tag, a negation that is no literal, and a pool that holds a three. -/
theorem int_constants_hold_literals_three :
    let session : Session := ⟨.ofList [], .ofList [], {}, .baseline⟩
    let w := Window.ofBytes ⟨#[2, 150]⟩
    let v := Window.ofBytes ⟨#[2, 33, 43]⟩
    NodeDecoder.constant.scan session.conventions w =
        .ok (.int (.smallIntLiteral 6)) (w.advance 2) ∧
      NodeDecoder.constant.scan session.conventions v =
        .error (.constantPayload 33) (v.advance 1) ∧
      ∃ component, Component.load literalFile {} = .ok component ∧
        ∃ e, .int e ∈ component.constants ∧ e.intValue? = some 3 ∧ e.isIntLiteral := by
  intro session w v
  obtain ⟨-, hguard, hloaded⟩ := int_constants_hold_literals
  obtain ⟨hread, -, -⟩ := hguard session w rfl
  obtain ⟨-, -, hrefused⟩ := hguard session v rfl
  refine ⟨(hread _ _).mpr ⟨_, rfl, rfl, rfl⟩, hrefused (.not .nullLiteral) _ rfl nofun, ?_⟩
  have hpool : (Component.load literalFile {}).toOption.any (fun component =>
      component.constants.any fun
        | .int e => e.intValue? == some 3
        | _ => false) = true := by
    decide +kernel
  cases hload : Component.load literalFile {} with
  | error fault => simp [hload, Except.toOption] at hpool
  | ok component =>
    simp only [hload, Except.toOption, Option.any_some, List.any_eq_true] at hpool
    obtain ⟨it, hmem, hvalue⟩ := hpool
    cases it with
    | int e =>
      obtain ⟨hliteral, -⟩ := hloaded _ _ component hload e hmem
      exact ⟨component, rfl, e, hmem, beq_iff_eq.mp hvalue, hliteral⟩
    | _ => cases hvalue

end DartKernel
