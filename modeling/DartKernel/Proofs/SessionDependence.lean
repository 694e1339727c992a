import DartKernel.Node.Mentions
import DartKernel.Proofs.Carving
import DartKernel.Proofs.NodeRoundTrip

namespace DartKernel

namespace Session

/-- The string tables are equally long, and slot by slot both texts start with an underscore or
neither does. -/
structure AgreesOnPrivacy (s s' : Session) : Prop where
  size : s.strings.size = s'.strings.size
  slot : ∀ (slot : Nat) (text text' : String), s.strings.entries[slot]? = some text →
    s'.strings.entries[slot]? = some text' → (text.front? = some '_' ↔ text'.front? = some '_')

variable {s s' : Session}

theorem AgreesOnPrivacy.isPrivate_eq (h : s.AgreesOnPrivacy s') : s.isPrivate = s'.isPrivate := by
  have hsize : s.strings.entries.size = s'.strings.entries.size := h.size
  funext r
  unfold isPrivate StringTable.get
  cases hslot : r.slot? with
  | none => rfl
  | some slot =>
    by_cases hlt : slot < s.strings.entries.size
    · have htext := Array.getElem?_eq_getElem hlt
      have htext' := Array.getElem?_eq_getElem (hsize ▸ hlt)
      have hfront := h.slot slot _ _ htext htext'
      simp only [htext, htext']
      exact congrArg Except.ok (Bool.eq_iff_iff.mpr (by simpa using hfront))
    · have htext : s.strings.entries[slot]? = none := Array.getElem?_eq_none (by omega)
      have htext' : s'.strings.entries[slot]? = none := Array.getElem?_eq_none (by omega)
      simp only [htext, htext', h.size]

theorem AgreesOnPrivacy.conventions_eq (h : s.AgreesOnPrivacy s')
    (hflag : s.assertHasSynthetic = s'.assertHasSynthetic) : s.conventions = s'.conventions := by
  rw [conventions, conventions, h.isPrivate_eq, hflag]

/-- The session with the flag of assert initializers forced. -/
def withFlag (s : Session) (flag : Bool) : Session :=
  { s with options.assertSynthetic := if flag then .present else .absent }

end Session

def Conventions.withFlag (c : Conventions) (flag : Bool) : Conventions :=
  { c with assertHasSynthetic := flag }

namespace Session

variable {s s' : Session}

theorem conventions_withFlag (s : Session) (flag : Bool) :
    (s.withFlag flag).conventions = s.conventions.withFlag flag := by
  cases flag <;> rfl

/-- Apart from the flag there is nothing else in the conventions. -/
theorem AgreesOnPrivacy.withFlag_eq (h : s.AgreesOnPrivacy s') :
    s.conventions.withFlag s'.assertHasSynthetic = s'.conventions := by
  rw [Conventions.withFlag, conventions, conventions, h.isPrivate_eq]

end Session

def Node.AssertFree (node : Node) : Prop :=
  ∀ isSynthetic it, ¬ node.Contains (.initializer (.assertion isSynthetic it))

theorem Node.AssertFree.child {node child : Node} (h : node.AssertFree)
    (hchild : child ∈ node.children) : child.AssertFree := by
  intro isSynthetic it hcontains
  exact h isSynthetic it (.within hchild hcontains)

namespace NodeLayout
open Layout

variable {s : Session} {flag : Bool}

theorem initializer_withFlag {it : Initializer} (h : (Node.initializer it).AssertFree) :
    initializer (s.withFlag flag) it = initializer s it := by
  cases it with
  | assertion isSynthetic it => exact absurd .self (h isSynthetic it)
  | _ => rfl

theorem constructor_withFlag {it : Constructor} (h : (Node.constructor it).AssertFree) :
    constructor (s.withFlag flag) it = constructor s it := by
  have hinitializers : list (initializer (s.withFlag flag)) it.initializers =
      list (initializer s) it.initializers := by
    apply list_congr
    intro x hx
    exact initializer_withFlag (h.child (by simp [Node.children, hx]))
  simp only [constructor, hinitializers]
  rfl

theorem member_withFlag {it : Member} (h : (Node.ofMember it).AssertFree) :
    member (s.withFlag flag) it = member s it := by
  cases it with
  | constructor it => exact constructor_withFlag h
  | _ => rfl

theorem classBody_withFlag {it : Class}
    (h : ∀ x ∈ it.constructors, (Node.constructor x).AssertFree) :
    classBody (s.withFlag flag) it = classBody s it := by
  have hconstructors : list (constructor (s.withFlag flag)) it.constructors =
      list (constructor s) it.constructors := by
    apply list_congr
    intro x hx
    exact constructor_withFlag (h x hx)
  simp only [classBody, classHead, hconstructors]
  rfl

end NodeLayout

theorem grammar_withFlag (c : Conventions) (flag : Bool) :
    grammar (c.withFlag flag) = grammar c := rfl

/-- Where the layout of the answer does not say the flag, another flag gives the same answer. -/
theorem NodeDecoder.scan_withFlag {s : Session} {flag : Bool} {decoder decoder' : NodeDecoder α}
    {layout layout' : α → NodeLayout} [Decoder.Laid (grammar s.conventions) decoder layout]
    [hlaid : Decoder.Laid (grammar (s.withFlag flag).conventions) decoder' layout']
    {w w' : Window} {a : α} (hlayout : layout' a = layout a)
    (h : decoder.scan s.conventions w = .ok a w') :
    decoder'.scan (s.withFlag flag).conventions w = .ok a w' := by
  have hgrammar : grammar (s.withFlag flag).conventions = grammar s.conventions := by
    rw [s.conventions_withFlag, grammar_withFlag]
  rw [hgrammar] at hlaid
  rw [scan, hgrammar]
  exact Decoder.run_of_layout_eq hlayout.symm h

theorem Class.scan_withFlag {s : Session} {flag : Bool} {w w' : Window} {it : Class}
    (hfree : (Node.classes it).AssertFree) (h : scan s.conventions w = .ok it w') :
    scan (s.withFlag flag).conventions w = .ok it w' := by
  obtain ⟨body, m, hbody, h⟩ := Scan.bind_ok h
  obtain ⟨offsets, m', hoffsets, h⟩ := Scan.bind_ok h
  cases h
  have hlayout : NodeLayout.classBody (s.withFlag flag) body = NodeLayout.classBody s body := by
    apply NodeLayout.classBody_withFlag
    intro x hx
    exact hfree.child (by simp [Node.children, hx])
  have hbody' : (NodeDecoder.classBody (s.withFlag flag).conventions).scan
      (s.withFlag flag).conventions w = .ok body m := NodeDecoder.scan_withFlag hlayout hbody
  exact Scan.bind_eq_ok.mpr ⟨body, m, hbody', Scan.bind_eq_ok.mpr ⟨offsets, _, hoffsets, rfl⟩⟩

namespace Library

variable {s : Session} {flag : Bool} {w w' : Window}

theorem classAt_withFlag {index : LibraryIndex} {i : Nat} {it : Class}
    (hfree : (Node.classes it).AssertFree) (h : classAt s.conventions w index i = .ok it) :
    classAt (s.withFlag flag).conventions w index i = .ok it := by
  obtain ⟨start, stop, v, hrange, hv, hvalue⟩ := declarationAt_eq_ok_iff.mp h
  obtain ⟨v', hscan⟩ := Scan.value_eq_ok.mp hvalue
  refine declarationAt_eq_ok_iff.mpr ⟨start, stop, v, hrange, hv, ?_⟩
  exact Scan.value_eq_ok.mpr ⟨v', Class.scan_withFlag hfree hscan⟩

/-- Of a library only the classes have constructors, so only they depend on the flag. -/
theorem scan_withFlag {it : Library} (hfree : (Node.library it).AssertFree)
    (h : scan s.conventions w = .ok it w') : scan (s.withFlag flag).conventions w = .ok it w' := by
  obtain ⟨hindex, hhead, hclasses, hfields, hprocedures⟩ := scan_eq_ok_iff.mp h
  obtain ⟨hcount, hat⟩ := mapM_range_eq_ok.mp hclasses
  have hclasses' : (List.range it.index.classCount).mapM
      (classAt (s.withFlag flag).conventions w it.index) = .ok it.classes := by
    apply mapM_range_eq_ok.mpr
    refine ⟨hcount, ?_⟩
    intro i hi
    exact classAt_withFlag (hfree.child (by simp [Node.children])) (hat i hi)
  rw [s.conventions_withFlag] at hclasses' ⊢
  exact scan_eq_ok_iff.mpr ⟨hindex, hhead, hclasses', hfields, hprocedures⟩

end Library

/-- What is read with a session: nodes, the parts of nodes that are read on their own, and whole
declarations. -/
inductive NodeReader where
  | node (fragment : Fragment)
  | name | mapEntry | namedType | aliasType | assertStatement
  | classes | library
  deriving DecidableEq, Repr

namespace NodeReader

@[reducible]
def Value : NodeReader → Type
  | .node fragment => fragment.Value
  | .name => Name
  | .mapEntry => MapEntry
  | .namedType => NamedType
  | .aliasType => AliasType
  | .assertStatement => AssertStatement
  | .classes => Class
  | .library => Library

def scan (session : Session) : (reader : NodeReader) → Scan reader.Value
  | .node fragment => fragment.scan session
  | .name => (NodeDecoder.name session.conventions).scan session.conventions
  | .mapEntry => NodeDecoder.mapEntry.scan session.conventions
  | .namedType => NodeDecoder.namedType.scan session.conventions
  | .aliasType => NodeDecoder.aliasType.scan session.conventions
  | .assertStatement => NodeDecoder.assertStatement.scan session.conventions
  | .classes => Class.scan session.conventions
  | .library => Library.scan session.conventions

end NodeReader

def Fragment.nodes : (fragment : Fragment) → fragment.Value → List Node
  | .expression, it => [.expression it]
  | .statement, it => [.statement it]
  | .type, it => [.type it]
  | .constant, it => [.constant it]
  | .initializer, it => [.initializer it]
  | .member, it => [.ofMember it]
  | .functionNode, it => [.function it]
  | .variableDeclaration, it => [.binding it]
  | .typeParameter, it => [.typeParameter it]
  | .namedExpression, it => [.expression it.value]
  | .arguments, it => [.arguments it]
  | .switchCase, it => [.switchCase it]
  | .catchClause, it => [.catchClause it]
  | .field, it => [.field it]
  | .constructor, it => [.constructor it]
  | .procedure, it => [.procedure it]
  | .redirectingFactory, it => [.redirectingFactory it]
  | .combinator, _ => []
  | .dependency, it => [.dependency it]
  | .part, it => [.part it]
  | .typeAlias, it => [.typeAlias it]

namespace NodeReader

def nodes : (reader : NodeReader) → reader.Value → List Node
  | .node fragment, it => fragment.nodes it
  | .name, _ => []
  | .mapEntry, it => [.expression it.key, .expression it.value]
  | .namedType, it => [.type it.type]
  | .aliasType, it => it.typeArguments.map .type
  | .assertStatement, it => [.assertion it]
  | .classes, it => [.classes it]
  | .library, it => [.library it]

variable {s s' : Session} {flag : Bool} {w w' : Window}

theorem scan_congr (h : s.conventions = s'.conventions) (reader : NodeReader) :
    reader.scan s = reader.scan s' := by
  cases reader <;> simp only [scan, Fragment.scan, h]

theorem fragment_withFlag {fragment : Fragment} {v : fragment.Value}
    (hfree : ∀ node ∈ fragment.nodes v, node.AssertFree) (h : fragment.scan s w = .ok v w') :
    fragment.scan (s.withFlag flag) w = .ok v w' := by
  have hlayout : fragment.layout (s.withFlag flag) v = fragment.layout s v := by
    cases fragment with
    | initializer => exact NodeLayout.initializer_withFlag (hfree _ (List.mem_singleton_self _))
    | constructor => exact NodeLayout.constructor_withFlag (hfree _ (List.mem_singleton_self _))
    | member => exact NodeLayout.member_withFlag (hfree _ (List.mem_singleton_self _))
    | _ => rfl
  exact NodeDecoder.scan_withFlag hlayout h

theorem scan_withFlag {reader : NodeReader} {v : reader.Value}
    (hfree : ∀ node ∈ reader.nodes v, node.AssertFree) (h : reader.scan s w = .ok v w') :
    reader.scan (s.withFlag flag) w = .ok v w' := by
  cases reader with
  | node fragment => exact fragment_withFlag hfree h
  | classes => exact Class.scan_withFlag (hfree _ (List.mem_singleton_self _)) h
  | library => exact Library.scan_withFlag (hfree _ (List.mem_singleton_self _)) h
  | _ =>
    -- These read no initializers, so the flag is not asked for.
    rw [scan, s.conventions_withFlag]
    exact h

/-- Sessions that agree on which texts start with an underscore and on the flag read everything
alike: the answer or the fault, and the cursor. Where an answer has no assert initializer in it, the
sessions need not agree on the flag. -/
theorem scan_depends (reader : NodeReader) (h : s.AgreesOnPrivacy s') :
    (s.assertHasSynthetic = s'.assertHasSynthetic → ∀ w, reader.scan s w = reader.scan s' w) ∧
    ∀ w v w', reader.scan s w = .ok v w' → (∀ node ∈ reader.nodes v, node.AssertFree) →
      reader.scan s' w = .ok v w' := by
  refine ⟨?_, ?_⟩
  · intro hflag w
    rw [scan_congr (h.conventions_eq hflag)]
  · intro w v w' hscan hfree
    have hflag : reader.scan (s.withFlag s'.assertHasSynthetic) w = .ok v w' :=
      scan_withFlag hfree hscan
    have hconventions := (s.conventions_withFlag s'.assertHasSynthetic).trans h.withFlag_eq
    rwa [scan_congr hconventions] at hflag

/-- A private name, and an initializer that is not an assert, under sessions that have nothing but
the underscores in common. -/
theorem scan_depends_initializer :
    let s : Session := ⟨.ofList ["_a", "b"], .ofList [], {}, .baseline⟩
    let s' : Session := ⟨.ofList ["_", ""], .ofList [⟨⟨0⟩, ⟨1⟩⟩], { parallel := true }, ⟨15⟩⟩
    let name := Window.ofBytes ⟨#[24, 0, 1, 2, 3, 9]⟩
    let initializer := Window.ofBytes ⟨#[7, 1]⟩
    s.AgreesOnPrivacy s' ∧
      (NodeReader.node .expression).scan s name =
        (NodeReader.node .expression).scan (s'.withFlag true) name ∧
      s.assertHasSynthetic = true ∧ s'.assertHasSynthetic = false ∧
      (NodeReader.node .initializer).scan s' initializer =
        .ok (.invalid true) (initializer.advance 2) := by
  intro s s' name initializer
  have hagree : s.AgreesOnPrivacy s' := by
    refine ⟨rfl, ?_⟩
    intro slot text text' h h'
    rcases slot with _ | _ | slot
    · cases h
      cases h'
      decide +kernel
    · cases h
      cases h'
      decide +kernel
    · cases h
  have hfree : (Node.initializer (.invalid true)).AssertFree := by
    intro isSynthetic it hcontains
    cases hcontains with
    | within hchild => cases hchild
  refine ⟨hagree, ?_, rfl, rfl, ?_⟩
  · have hforced : s.AgreesOnPrivacy (s'.withFlag true) := ⟨hagree.size, hagree.slot⟩
    exact (scan_depends (.node .expression) hforced).1 rfl name
  · apply (scan_depends (.node .initializer) hagree).2 initializer (.invalid true) _ rfl
    intro node hnode
    cases List.mem_singleton.mp hnode
    exact hfree

end NodeReader
end DartKernel
