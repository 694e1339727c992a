import DartKernel.Node.Measure
import DartKernel.Proofs.NodeFaults
import DartKernel.Proofs.PrivateNames
import Mathlib.Algebra.Order.BigOperators.Group.List
import Mathlib.Data.List.MinMax

namespace DartKernel

/-- The fewest bytes that a token takes. -/
def Token.least : Token → Nat
  | .node | .name .. | .require _ => 0
  | .byte _ | .flag .. | .uint _ => 1
  | .bytes content => content.length

theorem Token.least_le {token : Token} {s r : List UInt8} (h : Token.reading .any s token r) :
    token.least + r.length ≤ s.length := by
  cases token with
  | uint n =>
    obtain ⟨bytes, hn, rfl⟩ := h
    have hpos := List.length_pos_iff.mpr (Uint.Spells.ne_nil hn)
    rw [least, List.length_append]
    omega
  | _ => exact length_write_le h

theorem Token.sum_least_le {tokens : List Token} {s r : List UInt8}
    (h : Reading.many (Token.reading .any) s tokens r) :
    (tokens.map least).sum + r.length ≤ s.length := by
  induction tokens generalizing s with
  | nil =>
    obtain rfl : r = s := h
    simp
  | cons token tokens ih =>
    obtain ⟨m, ht, hts⟩ := h
    have hm := ih hts
    have hs := least_le ht
    rw [List.map_cons, List.sum_cons]
    omega

namespace NodeLayout
open Layout

variable {session : Session}

def least (session : Session) (layout : NodeLayout) : Nat :=
  ((layout.tokens (treeTokens session)).map Token.least).sum

theorem least_token (token : Token) : least session [.token token] = token.least := by
  simp [least, tokens, Item.tokens]

@[simp] theorem least_nil : least session [] = 0 := rfl

@[simp] theorem least_append (l l' : NodeLayout) :
    least session (l ++ l') = least session l + least session l' := by
  simp [least, tokens]

@[simp] theorem least_flatMap (element : α → NodeLayout) (xs : List α) :
    least session (xs.flatMap element) = (xs.map fun x => least session (element x)).sum := by
  induction xs with
  | nil => rfl
  | cons x xs ih => simp [ih]

@[simp] theorem least_node (l : NodeLayout) : least session (node l) = least session l := by
  simp [least, node, tokens, Item.tokens, Token.least]

@[simp] theorem least_tagged (b : UInt8) (l : NodeLayout) :
    least session (tagged b l) = least session l + 1 := by
  simp [least, tagged, node, tokens, Item.tokens, Token.least, Nat.add_comm]

@[simp] theorem least_byte (b : UInt8) : least session (byte b) = 1 := least_token _

@[simp] theorem least_uint (n : Nat) : least session (uint n) = 1 := least_token _

@[simp] theorem least_boolean (value : Bool) : least session (boolean value) = 1 := least_token _

@[simp] theorem least_lowBit (value : Bool) : least session (lowBit value) = 1 := least_token _

@[simp] theorem least_require (condition : Prop) : least session (require condition) = 0 :=
  least_token _

@[simp] theorem least_ref {target : Target} (r : Ref target) : least session (ref r) = 1 :=
  least_uint _

@[simp] theorem least_offset (o : FileOffset) : least session (offset o) = 1 := least_uint _

@[simp] theorem least_flags {φ : Type} (f : Flags φ) : least session (flags f) = 1 := least_byte _

@[simp] theorem least_list (element : α → NodeLayout) (xs : List α) :
    least session (list element xs) = (xs.map fun x => least session (element x)).sum + 1 := by
  simp [list, Nat.add_comm]

@[simp] theorem least_option (element : α → NodeLayout) (x? : Option α) :
    least session (option element x?) =
      (x?.toList.map fun x => least session (element x)).sum + 1 := by
  cases x? <;> simp [option, Nat.add_comm]

theorem least_tree (sort : NodeSort) (t : sort.Tree) :
    least session (tree sort t) = least session (fieldsOf session sort t) + 1 := by
  rw [least, tokens_tree]
  simp [least, Token.least, Nat.add_comm]

end NodeLayout

namespace Node
open NodeLayout

def least (session : Session) (node : Node) : Nat := NodeLayout.least session (node.layout session)

variable (session : Session)

theorem least_ofType (it : DartType) :
    ((ofType it).map (Node.least session)).sum ≤ NodeLayout.least session (typeFields it) := by
  cases it <;> simp [ofType, typeFields, interfaceType, aliasType, Node.least, Node.layout,
    Function.comp_def]
  all_goals omega

theorem least_ofStatement (it : Statement) :
    ((ofStatement it).map (Node.least session)).sum ≤
      NodeLayout.least session (statementFields it) := by
  cases it <;> simp [ofStatement, statementFields, Node.least, Node.layout, Function.comp_def]
  all_goals omega

theorem least_ofExpression (it : Expression) :
    ((ofExpression it).map (Node.least session)).sum ≤
      NodeLayout.least session (expressionFields session it) := by
  cases it <;> simp [ofExpression, expressionFields, mapEntry, Node.least, Node.layout,
    Function.comp_def, List.sum_map_add]
  all_goals omega

theorem least_ofConstant (it : Constant) :
    ((ofConstant it).map (Node.least session)).sum + 1 ≤
      NodeLayout.least session (NodeLayout.constant it) := by
  cases it <;> simp [ofConstant, NodeLayout.constant, constantFields, Node.least, Node.layout,
    Function.comp_def]
  all_goals omega

theorem least_ofInitializer (it : Initializer) :
    ((ofInitializer it).map (Node.least session)).sum + 1 ≤
      NodeLayout.least session (NodeLayout.initializer session it) := by
  cases it with
  | assertion isSynthetic it =>
    -- The assert is written as a statement, whose fields are those of the assert.
    have hassert : NodeLayout.least session (NodeLayout.statement (.assertion it)) =
        NodeLayout.least session (assertStatement it) + 1 := least_tree ..
    simp [ofInitializer, NodeLayout.initializer, initializerFields, Node.least, Node.layout,
      hassert]
    omega
  | _ =>
    simp [ofInitializer, NodeLayout.initializer, initializerFields, Node.least, Node.layout]
    all_goals omega

/-- A node pays for itself, and for the named arguments that are nodes without being trees. -/
theorem least_children (node : Node) :
    max 1 node.own + (node.children.map (Node.least session)).sum ≤ node.least session := by
  cases node with
  | expression it =>
    have htree : Node.least session (.expression it) = _ := least_tree ..
    rw [htree, own, Nat.max_self, Nat.add_comm]
    exact Nat.succ_le_succ (least_ofExpression session it)
  | statement it =>
    have htree : Node.least session (.statement it) = _ := least_tree ..
    rw [htree, own, Nat.max_self, Nat.add_comm]
    exact Nat.succ_le_succ (least_ofStatement session it)
  | type it =>
    have htree : Node.least session (.type it) = _ := least_tree ..
    rw [htree, own, Nat.max_self, Nat.add_comm]
    exact Nat.succ_le_succ (least_ofType session it)
  | constant it =>
    rw [own, Nat.max_self, Nat.add_comm]
    exact least_ofConstant session it
  | initializer it =>
    rw [own, Nat.max_self, Nat.add_comm]
    exact least_ofInitializer session it
  | arguments it =>
    simp [own, children, Node.least, Node.layout, NodeLayout.arguments, namedExpression,
      Function.comp_def, List.sum_map_add]
    omega
  | functionType it =>
    simp [own, children, Node.least, Node.layout, NodeLayout.functionType, namedType,
      Function.comp_def, List.sum_map_add]
    omega
  | switchCase it =>
    simp [own, children, Node.least, Node.layout, NodeLayout.switchCase, Function.comp_def,
      List.sum_map_add]
    omega
  | library it =>
    simp [own, children, Node.least, Node.layout, libraryHead, Function.comp_def]
    omega
  | _ it =>
    simp [own, children, Node.least, Node.layout, NodeLayout.typeParameter, variableDeclaration,
      functionNode, assertStatement, NodeLayout.catchClause, NodeLayout.field,
      NodeLayout.constructor, NodeLayout.procedure, NodeLayout.redirectingFactory,
      NodeLayout.dependency, NodeLayout.part, NodeLayout.typeAlias, classBody, classHead,
      Function.comp_def]
    omega

theorem least_pos (node : Node) : 0 < node.least session := by
  have hnode := node.least_children session
  omega

variable {session} {node : Node}

/-- A node below takes its bytes out of those of the node. -/
theorem least_le_of_mem_children {child : Node} (h : child ∈ node.children) :
    child.least session ≤ node.least session := by
  have hnode := node.least_children session
  have hchild := List.le_sum_of_mem (List.mem_map_of_mem h : child.least session ∈ _)
  omega

theorem Contains.least_le {inner : Node} (session : Session) (h : node.Contains inner) :
    inner.least session ≤ node.least session := by
  induction h with
  | self => exact Nat.le_refl _
  | within hchild _ ih => exact Nat.le_trans ih (least_le_of_mem_children hchild)

theorem count_le (node : Node) : node.count ≤ node.least session := by
  induction node using Node.induction with
  | step node ih =>
    have hnode := node.least_children session
    have hbelow : (node.children.map count).sum ≤ (node.children.map (least session)).sum :=
      List.sum_le_sum ih
    rw [count, fold_eq]
    change node.own + (node.children.map count).sum ≤ _
    omega

theorem depth_le (node : Node) : node.depth ≤ node.least session := by
  induction node using Node.induction with
  | step node ih =>
    have hnode := node.least_children session
    have hbelow : (node.children.map depth).foldr max 0 ≤
        (node.children.map (least session)).sum := by
      apply List.max_le_of_forall_le
      intro levels hlevels
      obtain ⟨child, hchild, rfl⟩ := List.mem_map.mp hlevels
      exact Nat.le_trans (ih child hchild) (List.le_sum_of_mem (List.mem_map_of_mem hchild))
    rw [depth, fold_eq]
    change (node.children.map depth).foldr max 0 + 1 ≤ _
    omega

theorem length_le_sum_map {f : α → Nat} (xs : List α) (h : ∀ x, 0 < f x) :
    xs.length ≤ (xs.map f).sum := by
  have hsum := List.length_le_sum_of_one_le (xs.map f) (List.forall_mem_map.mpr fun x _ => h x)
  rwa [List.length_map] at hsum

theorem length_children_le (session : Session) (node : Node) :
    node.children.length ≤ node.least session := by
  have hnode := node.least_children session
  have hbelow := length_le_sum_map node.children (least_pos session)
  omega

theorem listsOfType_le (it : DartType) :
    ∀ length ∈ listsOfType it, length ≤ (ofType it).length := by
  cases it <;> simp [listsOfType, ofType]

theorem listsOfStatement_le (it : Statement) :
    ∀ length ∈ listsOfStatement it, length ≤ (ofStatement it).length := by
  cases it <;> simp [listsOfStatement, ofStatement]
  omega

theorem listsOfExpression_le (it : Expression) :
    ∀ length ∈ listsOfExpression it, length ≤ (ofExpression it).length := by
  cases it <;> simp [listsOfExpression, ofExpression]
  omega

/-- Constants hold lists of references, which are no nodes. -/
theorem listsOfConstant_le (it : Constant) : ∀ length ∈ listsOfConstant it,
    length ≤ NodeLayout.least session (NodeLayout.constant it) := by
  have hchildren := length_children_le session (.constant it)
  cases it <;> simp [listsOfConstant, children, ofConstant, Node.least, Node.layout,
    NodeLayout.constant, constantFields] at hchildren ⊢
  all_goals omega

theorem listsOfDependency_le (it : LibraryDependency) : ∀ length ∈ lists (.dependency it),
    length ≤ NodeLayout.least session (NodeLayout.dependency it) := by
  have hchildren := length_children_le session (.dependency it)
  have hnames : ∀ combinator ∈ it.combinators,
      combinator.names.length ≤ (it.combinators.map fun c => c.names.length).sum :=
    fun _ h => List.le_sum_of_mem (List.mem_map_of_mem h)
  simp [lists, children, Node.least, Node.layout, NodeLayout.dependency, combinator] at hchildren ⊢
  refine ⟨hchildren, by omega, ?_⟩
  intro combinator hcombinator
  have hlength := hnames combinator hcombinator
  omega

/-- Every list in a node takes at least as many bytes as it has elements. -/
theorem lists_le (session : Session) (node : Node) :
    ∀ length ∈ node.lists, length ≤ node.least session := by
  have hchildren := node.length_children_le session
  cases node with
  | expression it =>
    exact fun length h => Nat.le_trans (listsOfExpression_le it length h) hchildren
  | statement it =>
    exact fun length h => Nat.le_trans (listsOfStatement_le it length h) hchildren
  | type it => exact fun length h => Nat.le_trans (listsOfType_le it length h) hchildren
  | constant it => exact listsOfConstant_le it
  | dependency it => exact listsOfDependency_le it
  | library it =>
    have hexports : it.additionalExports.length ≤ Node.least session (.library it) := by
      simp [Node.least, Node.layout, libraryHead]
      omega
    simp [children] at hchildren
    simp [lists]
    omega
  | assertion it => simp [lists]
  | catchClause it => simp [lists]
  | initializer it => simp [lists]
  | _ it =>
    simp [children] at hchildren
    simp [lists]
    omega

end Node

namespace Fragment

/-- A named expression is a node around its value. -/
def own : Fragment → Nat
  | .namedExpression => 1
  | _ => 0

def count (fragment : Fragment) (v : fragment.Value) : Nat :=
  fragment.own + ((fragment.nodes v).map Node.count).sum

def depth (fragment : Fragment) (v : fragment.Value) : Nat :=
  fragment.own + ((fragment.nodes v).map Node.depth).foldr max 0

/-- The lengths of the lists in a fragment that are in none of its nodes. -/
def lists : (fragment : Fragment) → fragment.Value → List Nat
  | .combinator, it => [it.names.length]
  | _, _ => []

/-- There is a list of this length in a fragment, at any depth. -/
def HasList (fragment : Fragment) (v : fragment.Value) (length : Nat) : Prop :=
  length ∈ fragment.lists v ∨
    ∃ node ∈ fragment.nodes v, ∃ inner, node.Contains inner ∧ length ∈ inner.lists

/-- A number of bytes bounds all that is in a fragment. -/
structure Within (fragment : Fragment) (v : fragment.Value) (bytes : Nat) : Prop where
  pos : 0 < bytes
  count : fragment.count v ≤ bytes
  depth : fragment.depth v ≤ bytes
  lists : ∀ length, fragment.HasList v length → length ≤ bytes

variable (session : Session) {fragment : Fragment} {v : fragment.Value} {bytes : Nat}

theorem Within.mono {bytes' : Nat} (h : fragment.Within v bytes) (hle : bytes ≤ bytes') :
    fragment.Within v bytes' where
  pos := Nat.lt_of_lt_of_le h.pos hle
  count := Nat.le_trans h.count hle
  depth := Nat.le_trans h.depth hle
  lists length hlength := Nat.le_trans (h.lists length hlength) hle

/-- What is enough for the nodes of a fragment, and for what is in none of them, is enough. -/
theorem within_of_nodes (hpos : 0 < bytes)
    (hnodes : fragment.own + ((fragment.nodes v).map (Node.least session)).sum ≤ bytes)
    (hlists : ∀ length ∈ fragment.lists v, length ≤ bytes) : fragment.Within v bytes := by
  have hnode : ∀ node ∈ fragment.nodes v,
      node.least session ≤ ((fragment.nodes v).map (Node.least session)).sum :=
    fun _ h => List.le_sum_of_mem (List.mem_map_of_mem h)
  refine ⟨hpos, ?_, ?_, ?_⟩
  · have hcount : ((fragment.nodes v).map Node.count).sum ≤
        ((fragment.nodes v).map (Node.least session)).sum :=
      List.sum_le_sum fun node _ => node.count_le
    exact Nat.le_trans (Nat.add_le_add_left hcount _) hnodes
  · have hdepth : ((fragment.nodes v).map Node.depth).foldr max 0 ≤
        ((fragment.nodes v).map (Node.least session)).sum := by
      apply List.max_le_of_forall_le
      intro levels hlevels
      obtain ⟨node, hmem, rfl⟩ := List.mem_map.mp hlevels
      exact Nat.le_trans node.depth_le (hnode node hmem)
    exact Nat.le_trans (Nat.add_le_add_left hdepth _) hnodes
  · intro length hlength
    rcases hlength with hown | ⟨node, hmem, inner, hinner, hlength⟩
    · exact hlists length hown
    · have hlist := inner.lists_le session length hlength
      have hbelow := hinner.least_le session
      have hmem := hnode node hmem
      omega

/-- A fragment that is a node and nothing else is bounded by what the node takes. -/
theorem within_of_node {node : Node} (hown : fragment.own = 0) (hnodes : fragment.nodes v = [node])
    (hlists : fragment.lists v = []) (hlayout : fragment.layout session v = node.layout session) :
    fragment.Within v (NodeLayout.least session (fragment.layout session v)) := by
  rw [hlayout]
  apply within_of_nodes session (node.least_pos session)
  · simp [hown, hnodes, Node.least]
  · simp [hlists]

/-- The bytes that a fragment takes at least bound all that is in it. -/
theorem within_least (fragment : Fragment) (v : fragment.Value) :
    fragment.Within v (NodeLayout.least session (fragment.layout session v)) := by
  cases fragment with
  | combinator =>
    apply within_of_nodes session
    · simp [layout, NodeLayout.combinator]
    · simp [own, nodes]
    · simp [lists, layout, NodeLayout.combinator]
      omega
  | namedExpression =>
    apply within_of_nodes session
    · simp [layout, NodeLayout.namedExpression]
    · simp [own, nodes, layout, NodeLayout.namedExpression, Node.least, Node.layout]
    · simp [lists]
  | member => cases v <;> exact within_of_node session rfl rfl rfl rfl
  | _ => exact within_of_node session rfl rfl rfl rfl

end Fragment

namespace NodeDecoder
open Decoder

variable {session : Session} {decoder : NodeDecoder α} {layout : α → NodeLayout}
  [Laid (grammar session.conventions) decoder layout] {w w' : Window}

/-- The cursor moves past at least as many bytes as the layout of the answer takes. -/
theorem least_le_of_scan {a : α} (h : decoder.scan session.conventions w = .ok a w') :
    ∃ n ≤ w.remaining, w' = w.advance n ∧ NodeLayout.least session (layout a) ≤ n := by
  obtain ⟨n, hn, hw', htokens⟩ := tokens_of_run (NodeLayout.written session) h
  refine ⟨n, hn, hw', ?_⟩
  have hleast : NodeLayout.least session (layout a) + _ ≤ _ := Token.sum_least_le htokens
  rw [List.length_drop, w.length_rest] at hleast
  omega

/-- No more elements are read than there are bytes, when every element takes one. -/
theorem count_le_of_scan_many (hpos : ∀ a, 0 < NodeLayout.least session (layout a)) {count : Nat}
    {xs : List α} (h : run (grammar session.conventions) (many decoder count) w = .ok xs w') :
    count ≤ w.remaining := by
  obtain ⟨n, -, -, hreads⟩ := run_ok h
  obtain ⟨hxs, helements⟩ := (reads_many ..).mp hreads
  have hlayout : Layout.reading _ _ _ (xs.flatMap layout) _ := (reading_many_iff xs).mp helements
  have htokens := (Layout.reading_iff_tokens (NodeLayout.written session .any _) _
    (Nat.le_of_eq w.length_rest)).mp hlayout
  have hleast : NodeLayout.least session (xs.flatMap layout) + _ ≤ _ := Token.sum_least_le htokens
  rw [NodeLayout.least_flatMap, w.length_rest] at hleast
  have hlength := Node.length_le_sum_map xs hpos
  omega

/-- A list is not read where fewer bytes are left than it has elements by its own count. -/
theorem scan_list_eq_error (hpos : ∀ a, 0 < NodeLayout.least session (layout a)) {count : UInt32}
    {m : Window} (hcount : Scan.uint w = .ok count m) (hlt : m.remaining < count.toNat) :
    ∃ fault w', NodeDecoder.scan session.conventions (Decoder.list decoder) w =
      .error fault w' := by
  have hreply : reply (grammar session.conventions) .uint w = .ok count m := hcount
  have hlist : NodeDecoder.scan session.conventions (Decoder.list decoder) w =
      run (grammar session.conventions) (many decoder count.toNat) m := by
    change run _ (ask .uint fun n => many decoder n.toNat) w = _
    rw [run_ask, Scan.bind_eq, hreply]
  rw [hlist]
  cases h : run (grammar session.conventions) (many decoder count.toNat) m with
  | ok xs w' => exact absurd (count_le_of_scan_many hpos h) (by omega)
  | error fault w' => exact ⟨fault, w', rfl⟩

end NodeDecoder

namespace Fragment

variable (session : Session) (fragment : Fragment) (w : Window)

/-- Reading pays a byte for every node. All that was read is bounded by the bytes that the cursor
moved past, a read that fails leaves the cursor between where it was and the end of the window, and
a list is refused that has more elements by its own count than bytes are left for them. -/
theorem scan_pays :
    (∀ v w', fragment.scan session w = .ok v w' →
      ∃ n ≤ w.remaining, w' = w.advance n ∧ w'.position = w.position + n ∧ fragment.Within v n) ∧
    (∀ fault w', fragment.scan session w = .error fault w' →
      w.position ≤ w'.position ∧ w'.position ≤ w.length) ∧
    ∀ count m, Scan.uint w = .ok count m → m.remaining < count.toNat →
      ∃ fault w', NodeDecoder.scan session.conventions
        (Decoder.list (fragment.decoder session.conventions)) w = .error fault w' := by
  refine ⟨?_, ?_, ?_⟩
  · intro v w' h
    obtain ⟨n, hn, rfl, hleast⟩ := NodeDecoder.least_le_of_scan h
    have hwithin := (within_least session fragment v).mono hleast
    exact ⟨n, hn, rfl, Window.position_advance_of_le hn, hwithin⟩
  · intro fault w' h
    obtain ⟨-, n, hn, rfl⟩ := Blame.exists_holds h
    have hcursor := w.cursor
    rw [Window.position_advance_of_le hn]
    simp only [Window.remaining] at hn
    omega
  · intro count m hcount hlt
    exact NodeDecoder.scan_list_eq_error (fun v => (within_least session fragment v).pos) hcount hlt

/-- A list that claims the most elements that an integer can say, before a negated integer and a
negation that is cut off. -/
theorem scan_pays_hostile :
    let session : Session := ⟨.ofList [], .ofList [], {}, .baseline⟩
    let w := Window.ofBytes ⟨#[255, 255, 255, 255, 33, 55, 7, 33]⟩
    let it : Expression := .not (.positiveIntLiteral 7)
    (Fragment.expression.scan session (w.advance 4) = .ok it (w.advance 7) ∧
      Fragment.expression.Within it 3) ∧
    (∃ fault w', Fragment.expression.scan session (w.advance 7) = .error fault w' ∧
      7 ≤ w'.position ∧ w'.position ≤ 8) ∧
    ∃ fault w', NodeDecoder.scan session.conventions (Decoder.list NodeDecoder.expression) w =
      .error fault w' := by
  intro session w it
  refine ⟨?_, ?_, ?_⟩
  · have h : Fragment.expression.scan session (w.advance 4) = .ok it (w.advance 7) := rfl
    obtain ⟨n, -, -, hposition, hwithin⟩ := (scan_pays session .expression (w.advance 4)).1 _ _ h
    obtain rfl : n = 3 := Nat.add_left_cancel hposition.symm
    exact ⟨h, hwithin⟩
  · have h : Fragment.expression.scan session (w.advance 7) =
        .error ((w.advance 8).outOfBounds 8 1) (w.advance 8) := rfl
    exact ⟨_, _, h, (scan_pays session .expression (w.advance 7)).2.1 _ _ h⟩
  · have hcount : Scan.uint w = .ok 1073741823 (w.advance 4) := by
      unfold w
      rfl
    have hremaining : (w.advance 4).remaining = 4 := rfl
    exact (scan_pays session .expression w).2.2 _ _ hcount (by simp [hremaining])

end Fragment
end DartKernel
