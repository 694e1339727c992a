import DartKernel.Proofs.NodeAgreement

namespace DartKernel

noncomputable def NodeSort.size : (sort : NodeSort) → sort.Tree → Nat
  | .expression, e => sizeOf e
  | .statement, s => sizeOf s
  | .type, t => sizeOf t

theorem sizeOf_lt_of_mem_option [SizeOf α] {x : α} {x? : Option α} (h : x ∈ x?) :
    sizeOf x < sizeOf x? := by
  cases h
  simp

namespace NodeLayout
open Layout

def Below (bound : Nat) (layout : NodeLayout) : Prop :=
  ∀ sort t, Item.tree sort t ∈ layout → sort.size t < bound

variable {bound : Nat} {session : Session}

@[simp] theorem below_nil : Below bound [] := nofun

@[simp] theorem below_append {l l' : NodeLayout} :
    Below bound (l ++ l') ↔ Below bound l ∧ Below bound l' := by
  constructor
  · intro h
    exact ⟨fun sort t ht => h sort t (List.mem_append_left _ ht),
      fun sort t ht => h sort t (List.mem_append_right _ ht)⟩
  · intro h sort t ht
    obtain ⟨h, h'⟩ := h
    rcases List.mem_append.mp ht with ht | ht
    · exact h sort t ht
    · exact h' sort t ht

@[simp] theorem below_token {token : Token} {l : NodeLayout} :
    Below bound (.token token :: l) ↔ Below bound l := by
  simp [Below]

@[simp] theorem below_tree {sort : NodeSort} {t : sort.Tree} :
    Below bound (tree sort t) ↔ sort.size t < bound := by
  constructor
  · intro h
    exact h sort t (List.mem_singleton_self _)
  · intro h sort' t' ht
    cases List.mem_singleton.mp ht
    exact h

@[simp] theorem below_expression {e : Expression} :
    Below bound (expression e) ↔ sizeOf e < bound := below_tree

@[simp] theorem below_statement {s : Statement} :
    Below bound (statement s) ↔ sizeOf s < bound := below_tree

@[simp] theorem below_type {t : DartType} : Below bound (type t) ↔ sizeOf t < bound := below_tree

@[simp] theorem below_node {l : NodeLayout} : Below bound (node l) ↔ Below bound l := below_token

@[simp] theorem below_tagged {b : UInt8} {l : NodeLayout} :
    Below bound (tagged b l) ↔ Below bound l := below_token.trans below_token

@[simp] theorem below_uint {n : Nat} : Below bound (uint n) := below_token.mpr below_nil

@[simp] theorem below_byte {b : UInt8} : Below bound (byte b) := below_token.mpr below_nil

@[simp] theorem below_boolean {value : Bool} : Below bound (boolean value) :=
  below_token.mpr below_nil

@[simp] theorem below_ref {target : Target} {r : Ref target} : Below bound (ref r) := below_uint

@[simp] theorem below_offset {o : FileOffset} : Below bound (offset o) := below_uint

@[simp] theorem below_flags {φ : Type} {f : Flags φ} : Below bound (flags f) := below_byte

@[simp] theorem below_double {d : Double} : Below bound (double d) := below_token.mpr below_nil

@[simp] theorem below_name {n : Name} : Below bound (name session n) := by
  cases h : n.library <;> simp [name, h]

@[simp] theorem below_list {element : α → NodeLayout} {xs : List α} :
    Below bound (list element xs) ↔ ∀ x ∈ xs, Below bound (element x) := by
  simp only [list, below_append, below_uint, true_and]
  constructor
  · intro h x hx sort t ht
    exact h sort t (List.mem_flatMap.mpr ⟨x, hx, ht⟩)
  · intro h sort t ht
    obtain ⟨x, hx, ht⟩ := List.mem_flatMap.mp ht
    exact h x hx sort t ht

@[simp] theorem below_option {element : α → NodeLayout} {x? : Option α} :
    Below bound (option element x?) ↔ ∀ x ∈ x?, Below bound (element x) := by
  cases x? <;> simp [option]

theorem below_typeParameter {it : TypeParameter} (h : sizeOf it ≤ bound) :
    Below bound (typeParameter it) := by
  cases it
  simp [typeParameter] at h ⊢
  grind [→ List.sizeOf_lt_of_mem, → sizeOf_lt_of_mem_option]

theorem below_variableDeclaration {it : VariableDeclaration} (h : sizeOf it ≤ bound) :
    Below bound (variableDeclaration it) := by
  cases it
  simp [variableDeclaration] at h ⊢
  grind [→ List.sizeOf_lt_of_mem, → sizeOf_lt_of_mem_option]

theorem below_functionNode {it : FunctionNode} (h : sizeOf it ≤ bound) :
    Below bound (functionNode it) := by
  cases it
  simp [functionNode] at h ⊢
  grind [→ List.sizeOf_lt_of_mem, → sizeOf_lt_of_mem_option, below_typeParameter,
    below_variableDeclaration]

theorem below_namedExpression {it : NamedExpression} (h : sizeOf it ≤ bound) :
    Below bound (namedExpression it) := by
  cases it
  simp [namedExpression] at h ⊢
  omega

theorem below_arguments {it : Arguments} (h : sizeOf it ≤ bound) :
    Below bound (arguments it) := by
  cases it
  simp [arguments] at h ⊢
  grind [→ List.sizeOf_lt_of_mem, below_namedExpression]

theorem below_mapEntry {it : MapEntry} (h : sizeOf it ≤ bound) : Below bound (mapEntry it) := by
  cases it
  simp [mapEntry] at h ⊢
  omega

theorem below_namedType {it : NamedType} (h : sizeOf it ≤ bound) :
    Below bound (namedType it) := by
  cases it
  simp [namedType] at h ⊢
  omega

theorem below_interfaceType {it : InterfaceType} (h : sizeOf it ≤ bound) :
    Below bound (interfaceType it) := by
  cases it
  simp [interfaceType] at h ⊢
  grind [→ List.sizeOf_lt_of_mem]

theorem below_functionType {it : FunctionType} (h : sizeOf it ≤ bound) :
    Below bound (functionType it) := by
  cases it
  simp [functionType] at h ⊢
  grind [→ List.sizeOf_lt_of_mem, below_typeParameter, below_namedType]

theorem below_aliasType {it : AliasType} (h : sizeOf it ≤ bound) :
    Below bound (aliasType it) := by
  cases it
  simp [aliasType] at h ⊢
  grind [→ List.sizeOf_lt_of_mem]

theorem below_assertStatement {it : AssertStatement} (h : sizeOf it ≤ bound) :
    Below bound (assertStatement it) := by
  cases it
  simp [assertStatement] at h ⊢
  grind [→ sizeOf_lt_of_mem_option]

theorem below_switchCase {it : SwitchCase} (h : sizeOf it ≤ bound) :
    Below bound (switchCase it) := by
  cases it
  simp [switchCase] at h ⊢
  grind [→ List.sizeOf_lt_of_mem]

theorem below_catchClause {it : Catch} (h : sizeOf it ≤ bound) :
    Below bound (catchClause it) := by
  cases it
  simp [catchClause] at h ⊢
  grind [→ sizeOf_lt_of_mem_option, below_variableDeclaration]

theorem below_typeFields (t : DartType) : Below (sizeOf t) (typeFields t) := by
  cases t <;> simp [typeFields]
  all_goals grind [→ List.sizeOf_lt_of_mem, → sizeOf_lt_of_mem_option, below_interfaceType,
    below_functionType, below_aliasType]

theorem below_statementFields (it : Statement) : Below (sizeOf it) (statementFields it) := by
  cases it <;> simp [statementFields]
  all_goals grind [→ List.sizeOf_lt_of_mem, → sizeOf_lt_of_mem_option, below_assertStatement,
    below_variableDeclaration, below_functionNode, below_switchCase, below_catchClause]

theorem below_expressionFields (e : Expression) :
    Below (sizeOf e) (expressionFields session e) := by
  cases e <;> simp [expressionFields]
  all_goals grind [→ List.sizeOf_lt_of_mem, → sizeOf_lt_of_mem_option, below_typeParameter,
    below_variableDeclaration, below_functionNode, below_arguments, below_mapEntry]

/-- The trees in a node are smaller than the node. -/
theorem below_treeNode (sort : NodeSort) (t : sort.Tree) :
    Below (sort.size t) (treeNode session sort t) := by
  rw [treeNode, below_tagged]
  cases sort with
  | expression => exact below_expressionFields t
  | statement => exact below_statementFields t
  | type => exact below_typeFields t

def treeTokens (session : Session) (sort : NodeSort) (t : sort.Tree) : List Token :=
  (treeNode session sort t).attach.flatMap fun
    | ⟨.token it, _⟩ => [it]
    | ⟨.tree sort' t', _⟩ => treeTokens session sort' t'
termination_by sort.size t
decreasing_by
  rename_i h
  exact below_treeNode sort t _ _ h

/-- A tree is written as a tag byte and its fields. -/
theorem treeTokens_eq (session : Session) (sort : NodeSort) (t : sort.Tree) :
    treeTokens session sort t = .node :: .byte (tagOf sort t) ::
      (fieldsOf session sort t).tokens (treeTokens session) := by
  have hnode : treeTokens session sort t =
      (treeNode session sort t).tokens (treeTokens session) := by
    rw [treeTokens, Layout.tokens]
    conv_rhs => rw [← List.attach_map_subtype_val (treeNode session sort t), List.flatMap_map]
    congr
    funext item
    obtain ⟨item, h⟩ := item
    cases item <;> rfl
  rw [hnode]
  simp [treeNode, tagged, node, Layout.tokens, Item.tokens]

theorem tokens_tree (session : Session) (sort : NodeSort) (t : sort.Tree) :
    (tree sort t : NodeLayout).tokens (treeTokens session) =
      .node :: .byte (tagOf sort t) :: (fieldsOf session sort t).tokens (treeTokens session) := by
  rw [← treeTokens_eq]
  simp [tree, Layout.tokens, Item.tokens]

/-- Trees are read as they are written. -/
theorem written (session : Session) :
    Decoder.Written (grammar session.conventions) (treeTokens session) := by
  intro spelling depth
  induction depth with
  | zero =>
    intro sort t s r hs
    obtain rfl : s = [] := List.length_eq_zero_iff.mp (Nat.le_zero.mp hs)
    rw [treeTokens_eq]
    constructor
    · exact False.elim
    · intro h
      rcases h with ⟨_, rfl, _, h, _⟩
      cases h
  | succ depth ih =>
    intro sort t s r hs
    rw [NodeDecoder.treeReads_succ, treeNode, reading_tagged, treeTokens_eq]
    constructor
    · intro h
      rcases h with ⟨m, hm, h⟩
      have hlen : m.length ≤ depth := by simpa [hm] using hs
      exact ⟨s, rfl, m, hm, (reading_iff_tokens ih _ hlen).mp h⟩
    · intro h
      rcases h with ⟨_, rfl, m, hm, h⟩
      have hm : _ = _ :: m := hm
      have hlen : m.length ≤ depth := by simpa [hm] using hs
      exact ⟨m, hm, (reading_iff_tokens ih _ hlen).mpr h⟩

end NodeLayout

/-- What was read fits its layout. -/
theorem NodeDecoder.fits_of_scan {session : Session} {decoder : NodeDecoder α}
    {layout : α → NodeLayout} [Decoder.Laid (grammar session.conventions) decoder layout]
    {w w' : Window} {a : α} (h : decoder.scan session.conventions w = .ok a w') :
    (layout a).Fits (NodeLayout.treeTokens session) := by
  obtain ⟨n, -, -, htokens⟩ := Decoder.tokens_of_run (NodeLayout.written session) h
  exact Token.fits_of_many htokens

end DartKernel
