import DartKernel.Node.Mentions
import DartKernel.Proofs.NodeTokens
import DartKernel.Proofs.PartialLoading

namespace DartKernel

namespace NodeLayout
open Layout

def Names (session : Session) (layout : NodeLayout) (name : Name) : Prop :=
  .name session.strings name ∈ layout.tokens (treeTokens session)

variable {session : Session} {n : Name}

theorem names_singleton {token : Token} (h : ∀ strings it, token ≠ .name strings it) :
    ¬ Names session [.token token] n := by
  simp [Names, tokens, Item.tokens, (h _ _).symm]

@[simp] theorem names_nil : ¬ Names session [] n := nofun

@[simp] theorem names_append {l l' : NodeLayout} :
    Names session (l ++ l') n ↔ Names session l n ∨ Names session l' n := by
  simp [Names, tokens]

@[simp] theorem names_flatMap {element : α → NodeLayout} {xs : List α} :
    Names session (xs.flatMap element) n ↔ ∃ x ∈ xs, Names session (element x) n := by
  induction xs with
  | nil => simp
  | cons x xs ih => simp [ih]

@[simp] theorem names_node {l : NodeLayout} : Names session (node l) n ↔ Names session l n := by
  simp [Names, node, tokens, Item.tokens]

@[simp] theorem names_byte {b : UInt8} : ¬ Names session (byte b) n := names_singleton nofun

@[simp] theorem names_tagged {b : UInt8} {l : NodeLayout} :
    Names session (tagged b l) n ↔ Names session l n := by
  simp [Names, tagged, node, tokens, Item.tokens]

@[simp] theorem names_uint {k : Nat} : ¬ Names session (uint k) n := names_singleton nofun

@[simp] theorem names_boolean {value : Bool} : ¬ Names session (boolean value) n :=
  names_singleton nofun

@[simp] theorem names_lowBit {value : Bool} : ¬ Names session (lowBit value) n :=
  names_singleton nofun

@[simp] theorem names_require {condition : Prop} : ¬ Names session (require condition) n :=
  names_singleton nofun

@[simp] theorem names_ref {target : Target} {r : Ref target} : ¬ Names session (ref r) n :=
  names_uint

@[simp] theorem names_offset {o : FileOffset} : ¬ Names session (offset o) n := names_uint

@[simp] theorem names_flags {φ : Type} {f : Flags φ} : ¬ Names session (flags f) n := names_byte

@[simp] theorem names_double {d : Double} : ¬ Names session (double d) n := names_singleton nofun

@[simp] theorem names_name {it : Name} : Names session (name session it) n ↔ n = it := by
  cases h : it.library <;> simp [Names, name, h, tokens, Item.tokens, ref, uint]

@[simp] theorem names_list {element : α → NodeLayout} {xs : List α} :
    Names session (list element xs) n ↔ ∃ x ∈ xs, Names session (element x) n := by
  simp [list]

@[simp] theorem names_option {element : α → NodeLayout} {x? : Option α} :
    Names session (option element x?) n ↔ ∃ x ∈ x?, Names session (element x) n := by
  cases x? <;> simp [option]

/-- The names of a tree are those of its fields. -/
theorem names_tree {sort : NodeSort} {t : sort.Tree} :
    Names session (tree sort t) n ↔ Names session (fieldsOf session sort t) n := by
  rw [Names, tokens_tree]
  simp [Names]

end NodeLayout

namespace Node
open Layout

/-- What is written for a node. For a library these are its parts, one after another. -/
def layout (session : Session) : Node → NodeLayout
  | .expression it => NodeLayout.expression it
  | .statement it => NodeLayout.statement it
  | .type it => NodeLayout.type it
  | .typeParameter it => NodeLayout.typeParameter it
  | .binding it => NodeLayout.variableDeclaration it
  | .function it => NodeLayout.functionNode it
  | .arguments it => NodeLayout.arguments it
  | .functionType it => NodeLayout.functionType it
  | .assertion it => NodeLayout.assertStatement it
  | .switchCase it => NodeLayout.switchCase it
  | .catchClause it => NodeLayout.catchClause it
  | .constant it => NodeLayout.constant it
  | .initializer it => NodeLayout.initializer session it
  | .field it => NodeLayout.field session it
  | .constructor it => NodeLayout.constructor session it
  | .procedure it => NodeLayout.procedure session it
  | .redirectingFactory it => NodeLayout.redirectingFactory session it
  | .dependency it => NodeLayout.dependency it
  | .part it => NodeLayout.part it
  | .typeAlias it => NodeLayout.typeAlias it
  | .classes it => NodeLayout.classBody session { it with procedureOffsets := none }
  | .library it =>
    NodeLayout.libraryHead it.toLibraryHead
      ++ it.classes.flatMap
        (fun c => NodeLayout.classBody session { c with procedureOffsets := none })
      ++ it.fields.flatMap (NodeLayout.field session)
      ++ it.procedures.flatMap (NodeLayout.procedure session)

variable {session : Session} {node : Node} {name : Name}

def Names (session : Session) (node : Node) (name : Name) : Prop :=
  NodeLayout.Names session (node.layout session) name

theorem names_ofType {it : DartType} :
    NodeLayout.Names session (NodeLayout.typeFields it) name ↔
      ∃ child ∈ ofType it, child.Names session name := by
  cases it <;> simp [ofType, NodeLayout.typeFields, NodeLayout.interfaceType,
    NodeLayout.aliasType, Names, layout, or_and_right, exists_or]

theorem names_ofStatement {it : Statement} :
    NodeLayout.Names session (NodeLayout.statementFields it) name ↔
      ∃ child ∈ ofStatement it, child.Names session name := by
  cases it <;>
    simp [ofStatement, NodeLayout.statementFields, Names, layout, or_and_right, exists_or]
  all_goals grind

theorem names_ofExpression {it : Expression} :
    NodeLayout.Names session (NodeLayout.expressionFields session it) name ↔
      name ∈ (Node.expression it).name? ∨ ∃ child ∈ ofExpression it, child.Names session name := by
  cases it <;> simp [ofExpression, name?, NodeLayout.expressionFields, NodeLayout.mapEntry, Names,
    layout, or_and_right, exists_or]
  all_goals grind

theorem names_ofConstant {it : Constant} : NodeLayout.Names session (NodeLayout.constant it) name ↔
    ∃ child ∈ ofConstant it, child.Names session name := by
  cases it <;> simp [ofConstant, NodeLayout.constant, NodeLayout.constantFields, Names, layout,
    or_and_right, exists_or]

theorem names_ofInitializer {it : Initializer} :
    NodeLayout.Names session (NodeLayout.initializer session it) name ↔
      ∃ child ∈ ofInitializer it, child.Names session name := by
  cases it with
  | assertion isSynthetic it =>
    -- The assert is written as a statement, whose fields are those of the assert.
    have hassert : NodeLayout.Names session (NodeLayout.statement (.assertion it)) name ↔
        NodeLayout.Names session (NodeLayout.assertStatement it) name := NodeLayout.names_tree
    cases h : session.assertHasSynthetic <;>
      simp [ofInitializer, NodeLayout.initializer, NodeLayout.initializerFields, Names, layout, h,
        hassert]
  | _ =>
    simp [ofInitializer, NodeLayout.initializer, NodeLayout.initializerFields, Names, layout]

theorem names_of_unnamed {p : Prop} (h : node.name? = none) : (name ∈ node.name? ∨ p) ↔ p := by
  simp [h]

/-- The names of a node are its own and those of the nodes right below it. -/
theorem names_iff : node.Names session name ↔
    name ∈ node.name? ∨ ∃ child ∈ node.children, child.Names session name := by
  cases node with
  | expression it => exact NodeLayout.names_tree.trans names_ofExpression
  | statement it =>
    rw [names_of_unnamed rfl]
    exact NodeLayout.names_tree.trans names_ofStatement
  | type it =>
    rw [names_of_unnamed rfl]
    exact NodeLayout.names_tree.trans names_ofType
  | constant it =>
    rw [names_of_unnamed rfl]
    exact names_ofConstant
  | initializer it =>
    rw [names_of_unnamed rfl]
    exact names_ofInitializer
  | typeParameter it =>
    simp [name?, children, NodeLayout.typeParameter, Names, layout, or_and_right, exists_or]
  | binding it =>
    simp [name?, children, NodeLayout.variableDeclaration, Names, layout, or_and_right, exists_or]
  | function it =>
    simp [name?, children, NodeLayout.functionNode, Names, layout, or_and_right, exists_or]
  | arguments it =>
    simp [name?, children, NodeLayout.arguments, NodeLayout.namedExpression, Names, layout,
      or_and_right, exists_or]
  | functionType it =>
    simp [name?, children, NodeLayout.functionType, NodeLayout.namedType, Names, layout,
      or_and_right, exists_or]
  | assertion it =>
    simp [name?, children, NodeLayout.assertStatement, Names, layout, or_and_right, exists_or]
  | switchCase it =>
    simp [name?, children, NodeLayout.switchCase, Names, layout, or_and_right, exists_or]
  | catchClause it =>
    simp [name?, children, NodeLayout.catchClause, Names, layout, or_and_right, exists_or]
  | field it =>
    simp [name?, children, NodeLayout.field, Names, layout, or_and_right, exists_or]
    grind
  | constructor it =>
    simp [name?, children, NodeLayout.constructor, Names, layout, or_and_right, exists_or]
    grind
  | procedure it =>
    simp [name?, children, NodeLayout.procedure, Names, layout, or_and_right, exists_or]
    grind
  | redirectingFactory it =>
    simp [name?, children, NodeLayout.redirectingFactory, Names, layout, or_and_right, exists_or]
    grind
  | dependency it =>
    simp [name?, children, NodeLayout.dependency, NodeLayout.combinator, Names, layout]
  | part it =>
    simp [name?, children, NodeLayout.part, Names, layout]
  | typeAlias it =>
    simp [name?, children, NodeLayout.typeAlias, Names, layout, or_and_right, exists_or]
  | classes it =>
    simp [name?, children, NodeLayout.classBody, NodeLayout.classHead, Names, layout,
      or_and_right, exists_or]
  | library it =>
    simp [name?, children, NodeLayout.libraryHead, Names, layout, or_and_right, exists_or]

/-- A name that occurs in a node at any depth is written in the node. -/
theorem Mentions.names (h : node.Mentions name) : node.Names session name := by
  induction h with
  | own hname => exact names_iff.mpr (.inl hname)
  | within hchild _ ih => exact names_iff.mpr (.inr ⟨_, hchild, ih⟩)

def Fits (session : Session) (node : Node) : Prop :=
  (node.layout session).Fits (NodeLayout.treeTokens session)

theorem Fits.follows (h : node.Fits session) (hname : node.Mentions name) :
    name.Follows session.strings := h _ hname.names

end Node

/-- The text of a name is null or in the string table, and the name has a library exactly when the
text starts with an underscore. So the full text of the name is there, unless the library that the
name is private to has none. -/
structure Name.Obeys (session : Session) (name : Name) : Prop where
  text : name.text.isNull ∨ name.text.raw.toNat ≤ session.strings.size
  library : name.library.isSome ↔
    ∃ text, session.string name.text = .ok (some text) ∧ text.front? = some '_'
  fault : ∀ fault, session.memberText name = .error fault → ∃ library,
    name.library = some library ∧ session.resolve library.canonicalName = .error fault
  isPublic : name.library = none → ∃ text, session.memberText name = .ok text

/-- A reference that a table answers is null or one of its numbers, which start at one. -/
theorem StringTable.get_eq_ok {strings : StringTable} {r : StringRef} {text? : Option String}
    (h : strings.get r = .ok text?) : r.isNull ∨ r.raw.toNat ≤ strings.size := by
  by_cases h0 : r.raw = 0
  · exact Or.inl (by simp [Ref.isNull, h0])
  · refine Or.inr ?_
    simp only [get, Ref.slot?, h0, if_false] at h
    cases hentry : strings.entries[r.raw.toNat - 1]? with
    | none => simp [hentry] at h
    | some text =>
      obtain ⟨hlt, -⟩ := Array.getElem?_eq_some_iff.mp hentry
      simp only [size]
      omega

namespace Session

variable {session : Session} {name : Name} {text : String}

theorem memberText_eq_ok (htext : session.strings.text name.text = .ok text)
    (hname : name.library = none) : session.memberText name = .ok text := by
  simp [memberText, CanonicalNames.memberText, htext, hname, bind, Except.bind, pure, Except.pure]

/-- With the text at hand, only the library of a name can be missing. -/
theorem memberText_eq_error {fault : Fault} (htext : session.strings.text name.text = .ok text)
    (h : session.memberText name = .error fault) : ∃ library,
      name.library = some library ∧ session.resolve library.canonicalName = .error fault := by
  cases hname : name.library with
  | none =>
    rw [memberText_eq_ok htext hname] at h
    cases h
  | some library =>
    refine ⟨library, rfl, ?_⟩
    unfold resolve
    cases hresolve : session.names.resolve session.strings library.canonicalName with
    | error fault' =>
      simp [memberText, CanonicalNames.memberText, htext, hname, hresolve, bind, Except.bind] at h
      rw [h]
    | ok owner? =>
      cases owner? <;>
        simp [memberText, CanonicalNames.memberText, htext, hname, hresolve, bind, Except.bind,
          pure, Except.pure] at h

end Session

theorem Name.Follows.obeys {session : Session} {name : Name}
    (h : name.Follows session.strings) : name.Obeys session := by
  obtain ⟨text?, hget, hlibrary⟩ := h
  have htext : session.strings.text name.text = .ok (text?.getD "") := by
    simp [StringTable.text, hget, bind, Except.bind, pure, Except.pure]
  constructor
  case text => exact StringTable.get_eq_ok hget
  case library =>
    rw [hlibrary, Session.string, hget]
    simp
  case fault => exact fun fault hfault => Session.memberText_eq_error htext hfault
  case isPublic => exact fun hname => ⟨_, Session.memberText_eq_ok htext hname⟩

theorem NodeDecoder.fits_of_value {session : Session} {decoder : NodeDecoder α}
    {layout : α → NodeLayout} [Decoder.Laid (grammar session.conventions) decoder layout]
    {w : Window} {a : α} (h : (decoder.scan session.conventions).value w = .ok a) :
    (layout a).Fits (NodeLayout.treeTokens session) := by
  obtain ⟨w', h⟩ := Scan.value_eq_ok.mp h
  exact fits_of_scan h

namespace Library

variable {session : Session} {w : Window} {index : LibraryIndex} {i : Nat}

theorem fits_classAt {it : Class} (h : classAt session.conventions w index i = .ok it) :
    (Node.classes it).Fits session := by
  obtain ⟨_, _, v, -, -, h⟩ := declarationAt_eq_ok_iff.mp h
  obtain ⟨v', h⟩ := Scan.value_eq_ok.mp h
  obtain ⟨body, m, hbody, h⟩ := Scan.bind_ok h
  obtain ⟨offsets, m', -, h⟩ := Scan.bind_ok h
  cases h
  have hfits := NodeDecoder.fits_of_value (Scan.value_eq_ok.mpr ⟨m, hbody⟩)
  simp [NodeLayout.classBody, NodeLayout.classHead, Node.Fits, Node.layout] at hfits ⊢
  grind

theorem fits_procedureAt {it : Procedure}
    (h : procedureAt session.conventions w index i = .ok it) :
    (Node.procedure it).Fits session := by
  obtain ⟨_, _, v, -, -, h⟩ := declarationAt_eq_ok_iff.mp h
  have hfits := NodeDecoder.fits_of_value h
  exact hfits

theorem fits_of_value {it : Library} (h : (scan session.conventions).value w = .ok it) :
    (Node.library it).Fits session := by
  obtain ⟨-, hhead, hclasses, ⟨start, -, -, hfields⟩, hprocedures⟩ := value_scan_iff.mp h
  obtain ⟨-, hclasses⟩ := mapM_range_eq_ok.mp hclasses
  obtain ⟨-, hprocedures⟩ := mapM_range_eq_ok.mp hprocedures
  have hfields := (Layout.fits_list.mp (NodeDecoder.fits_of_value hfields)).2
  simp only [Node.Fits, Node.layout, Layout.fits_append, Layout.fits_flatMap]
  refine ⟨⟨⟨NodeDecoder.fits_of_value hhead, ?_⟩, hfields⟩, ?_⟩
  · intro c hc
    obtain ⟨j, hj, rfl⟩ := List.getElem_of_mem hc
    exact fits_classAt (hclasses j hj)
  · intro procedure hprocedure
    obtain ⟨j, hj, rfl⟩ := List.getElem_of_mem hprocedure
    exact fits_procedureAt (hprocedures j hj)

end Library

/-- The nodes that a view reads when it is asked for them. -/
inductive View.Reads (view : View) : Node → Prop where
  | library {i : Nat} {it : Library} : view.library i = .ok it → view.Reads (.library it)
  | classes {i j : Nat} {it : Class} : view.classAt i j = .ok it → view.Reads (.classes it)
  | procedure {i j : Nat} {it : Procedure} : view.procedureAt i j = .ok it →
      view.Reads (.procedure it)
  | member {offset : UInt32} {it : Member} : view.memberAt offset = .ok it →
      view.Reads (.ofMember it)
  | constant {all : List Constant} {it : Constant} : view.constants = .ok all → it ∈ all →
      view.Reads (.constant it)

theorem View.Reads.fits {view : View} {node : Node} (h : view.Reads node) :
    node.Fits view.session := by
  cases h with
  | library h =>
    obtain ⟨w, -, h⟩ := bind_eq_ok.mp h
    exact Library.fits_of_value h
  | classes h =>
    obtain ⟨w, -, h⟩ := bind_eq_ok.mp h
    obtain ⟨index, -, h⟩ := bind_eq_ok.mp h
    exact Library.fits_classAt h
  | procedure h =>
    obtain ⟨w, -, h⟩ := bind_eq_ok.mp h
    obtain ⟨index, -, h⟩ := bind_eq_ok.mp h
    exact Library.fits_procedureAt h
  | @member offset it h =>
    obtain ⟨w, -, h⟩ := bind_eq_ok.mp h
    have hfits := NodeDecoder.fits_of_value h
    cases it <;> exact hfits
  | constant h hmem =>
    obtain ⟨w, -, h⟩ := bind_eq_ok.mp h
    exact (Layout.fits_list.mp (NodeDecoder.fits_of_value h)).2 _ hmem

def Component.nodes (component : Component) : List Node :=
  component.constants.map .constant ++ component.libraries.map .library

/-- The nodes of a component are nodes that its view reads. -/
theorem Component.Matches.reads {component : Component} {view : View}
    (h : component.Matches view) : ∀ node ∈ component.nodes, view.Reads node := by
  intro node hnode
  rcases List.mem_append.mp hnode with hnode | hnode
  · obtain ⟨it, hit, rfl⟩ := List.mem_map.mp hnode
    exact .constant h.constants hit
  · obtain ⟨it, hit, rfl⟩ := List.mem_map.mp hnode
    obtain ⟨i, hi, rfl⟩ := List.getElem_of_mem hit
    exact .library (h.library i hi)

/-- Every member name that occurs in what is read, at any depth, obeys the rule on private names,
in a component that is read in full and in all that a view reads part by part. -/
theorem names_obey :
    (∀ (content : ByteArray) (options : DecodeOptions) (component : Component),
      Component.load content options = .ok component →
      ∀ node ∈ component.nodes, ∀ name, node.Mentions name → name.Obeys component.session) ∧
    ∀ (view : View) (node : Node), view.Reads node →
      ∀ name, node.Mentions name → name.Obeys view.session := by
  have hview (view : View) (node : Node) (h : view.Reads node) (name : Name)
      (hname : node.Mentions name) : name.Obeys view.session := (h.fits.follows hname).obeys
  refine ⟨?_, hview⟩
  intro content options component h node hnode name hname
  obtain ⟨view, -, hload⟩ := bind_eq_ok.mp h
  have hmatches := Component.ofView_matches hload
  rw [hmatches.session]
  exact hview view node (hmatches.reads node hnode) name hname

theorem Node.name?_ofMember (it : Member) : (ofMember it).name? = some it.name := by
  cases it <;> rfl

/-- A component of one library, with one field in it, of the name `_x`. -/
def privateFieldFile : ByteArray :=
  ⟨(wordsBytes [Header.magic, 16, 0] ++ List.replicate 10 0
    ++ [1, Tag.field, 0, 0, 0, 0, 0, 1, 1, 0, TypeKind.dynamic.tag, 0] ++ wordsBytes [22, 0, 34, 0]
    ++ [2, 0, 2] ++ textBytes "_x" ++ [1, 0, 1]
    ++ wordsBytes [8, 55, 50, 50, 50, 12, 0, 13, 50, 1, 102]).toArray⟩

/-- The field is private to the library of its canonical name, in the component as a whole and
where it is read by its place. -/
theorem names_obey_privateField :
    (∃ component, Component.load privateFieldFile {} = .ok component ∧
      ∃ library ∈ component.libraries, ∃ field ∈ library.fields,
        field.name = ⟨⟨1⟩, some ⟨1⟩⟩ ∧ field.name.Obeys component.session) ∧
    ∃ view member, View.openFile privateFieldFile {} = .ok view ∧ view.memberAt 23 = .ok member ∧
      member.name = ⟨⟨1⟩, some ⟨1⟩⟩ ∧ member.name.Obeys view.session := by
  have hfield : (Component.load privateFieldFile {}).toOption.any (fun component =>
      component.libraries.any fun library =>
        library.fields.any fun field => field.name = ⟨⟨1⟩, some ⟨1⟩⟩) = true := by
    decide +kernel
  have hread : ((View.openFile privateFieldFile {}).toOption.bind fun view =>
      (view.memberAt 23).toOption.map Member.name) = some ⟨⟨1⟩, some ⟨1⟩⟩ := by
    decide +kernel
  refine ⟨?_, ?_⟩
  · cases hload : Component.load privateFieldFile {} with
    | error fault => simp [hload, Except.toOption] at hfield
    | ok component =>
      simp [hload, Except.toOption] at hfield
      obtain ⟨library, hlibrary, field, hmem, hname⟩ := hfield
      have hnode : Node.library library ∈ component.nodes := by simp [Component.nodes, hlibrary]
      have hbelow : Node.field field ∈ (Node.library library).children := by
        simp [Node.children, hmem]
      refine ⟨component, rfl, library, hlibrary, field, hmem, hname, ?_⟩
      exact names_obey.1 _ _ component hload _ hnode _ (.within hbelow (.own rfl))
  · cases hview : View.openFile privateFieldFile {} with
    | error fault => simp [hview, Except.toOption] at hread
    | ok view =>
      cases hmember : view.memberAt 23 with
      | error fault => simp [hview, hmember, Except.toOption] at hread
      | ok member =>
        simp [hview, hmember, Except.toOption] at hread
        refine ⟨view, member, rfl, hmember, hread, ?_⟩
        exact names_obey.2 view _ (.member hmember) _ (.own (Node.name?_ofMember member))

end DartKernel
