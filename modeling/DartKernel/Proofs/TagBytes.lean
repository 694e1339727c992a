import DartKernel.Proofs.NodeAgreement
import DartKernel.Proofs.NodeVisits

namespace DartKernel

/-- The payload and the first tag of its range add up to a byte, which is the tag. -/
theorem Expression.tagByte?_eq (e : Expression) : e.tagByte? = some e.tag := by
  have hpacked : ∀ payload : Fin 8,
      Tag.ofVariable? 128 payload.val.toUInt32 =
        some (ExpressionKind.shortVariableGet payload).tag ∧
      Tag.ofVariable? 136 payload.val.toUInt32 =
        some (ExpressionKind.shortVariableSet payload).tag ∧
      Tag.ofInteger? (.ofInt (payload.val - 3)) =
        some (ExpressionKind.smallIntLiteral payload).tag := by
    decide
  cases e with
  | shortVariableGet slot => exact (hpacked slot).1
  | shortVariableSet slot => exact (hpacked slot).2.1
  | smallIntLiteral biased => exact (hpacked biased).2.2
  | _ => rfl

namespace Node

theorem constant_not_mem_children {node : Node} {it : Constant} :
    .constant it ∉ node.children := by
  cases node with
  | expression e => cases e <;> simp [children, ofExpression]
  | statement s => cases s <;> simp [children, ofStatement]
  | type t => cases t <;> simp [children, ofType]
  | constant it => cases it <;> simp [children, ofConstant]
  | initializer it => cases it <;> simp [children, ofInitializer]
  | _ => simp [children]

/-- Constants do not nest. -/
theorem Contains.eq_constant {node : Node} {it : Constant} (h : node.Contains (.constant it)) :
    node = .constant it := by
  generalize hinner : Node.constant it = inner at h
  induction h with
  | self => rfl
  | within hchild _ ih =>
    rw [ih hinner, ← hinner] at hchild
    exact absurd hchild constant_not_mem_children

end Node

namespace NodeDecoder
open Decoder

variable {session : Session} {decoder : NodeDecoder α} {w w' : Window} {a : α}

/-- Between two windows of a run a tree is read, at a place where its tag is the byte. -/
structure ReadsTag (c : Conventions) (w w' : Window) {sort : NodeSort} (t : sort.Tree)
    (v : Window) : Prop where
  bytes : v.bytes = w.bytes
  start : w.position ≤ v.position
  stop : ∃ v', scan c (tree sort) v = .ok t v' ∧ v.position < v'.position ∧
    v'.position ≤ w'.position
  tag : w.bytes[v.position]? = some (NodeLayout.tagOf sort t)

/-- What holds of the tags in a node that a decoder has read: wherever an expression, a statement or
a type is read on the way, the byte there is its tag, and every such node that occurs in the answer
has been read somewhere on the way. Constants do not nest. -/
structure TagsRead (c : Conventions) (decoder : NodeDecoder α) (w : Window) (node : Node)
    (w' : Window) : Prop where
  read : ∀ sort v, Visits (grammar c) decoder w sort v →
    ∃ t : sort.Tree, ReadsTag c w w' t v
  found : ∀ sort (t : sort.Tree), node.Contains (.ofTree sort t) →
    ∃ v, Visits (grammar c) decoder w sort v ∧ ReadsTag c w w' t v
  constants : ∀ it, node.Contains (.constant it) → node = .constant it

theorem head?_of_constant {it : Constant} (h : constant.scan session.conventions w = .ok it w') :
    w.rest.head? = some it.tag := by
  obtain ⟨n, -, -, hreads⟩ := run_ok h
  have hlayout : Layout.reading .any _ w.rest (NodeLayout.constant it) _ :=
    (Laid.reads_iff ..).mp hreads
  obtain ⟨m, hrest, -⟩ := (Layout.reading_tagged ..).mp hlayout
  rw [hrest]
  rfl

/-- Where a run reads a tree, the byte is the tag of the tree. -/
theorem readsTag_of_visits {sort : NodeSort} {v : Window}
    (h : decoder.scan session.conventions w = .ok a w')
    (hv : Visits (grammar session.conventions) decoder w sort v) :
    ∃ t v', scan session.conventions (tree sort) v = .ok t v' ∧
      ReadsTag session.conventions w w' t v := by
  obtain ⟨t, v', ht, hmoves, hmoves'⟩ := hv.answered h
  have htag : w.bytes[v.position]? = some (NodeLayout.tagOf sort t) := by
    rw [← hmoves.bytes_eq, v.getElem?_bytes_position]
    exact head?_of_tree ht
  exact ⟨t, v', ht, hmoves.bytes_eq, hmoves.position_le,
    ⟨v', ht, position_lt_of_tree ht, hmoves'.position_le⟩, htag⟩

theorem tagsRead_of_run {node : α → Node}
    [Bears (Met session.conventions decoder w) decoder fun a => [node a]]
    (h : decoder.scan session.conventions w = .ok a w') :
    TagsRead session.conventions decoder w (node a) w' where
  read sort v hv := by
    obtain ⟨t, -, -, htag⟩ := readsTag_of_visits h hv
    exact ⟨t, htag⟩
  found sort t hin := by
    obtain ⟨v, v', hv, ht⟩ := met_of_run h (node a) (.head _) sort t hin
    obtain ⟨t', v'', ht', htag⟩ := readsTag_of_visits h hv
    obtain ⟨rfl, -⟩ := EStateM.Result.ok.inj (ht.symm.trans ht')
    exact ⟨v, hv, htag⟩
  constants _ := Node.Contains.eq_constant

end NodeDecoder

/-- The readers of the four families take a byte for the kind whose tag it is, and computing the tag
of an expression does not overflow. So an expression, a statement, a type or a constant that is read
has the byte as its tag at which its reading starts, packed tags unfolded, and so has every such
node in it with respect to where that was read. -/
theorem tags_are_bytes_read :
    (ExpressionKind.ofByte? = TaggedFamily.ofTag? ∧ StatementKind.ofByte? = TaggedFamily.ofTag? ∧
      TypeKind.ofByte? = TaggedFamily.ofTag? ∧ ConstantKind.ofByte? = TaggedFamily.ofTag?) ∧
    (∀ e : Expression, e.tagByte? = some e.tag) ∧
    ∀ (session : Session) (w w' : Window),
      (∀ (sort : NodeSort) (t : sort.Tree),
        NodeDecoder.scan session.conventions (Decoder.tree sort) w = .ok t w' →
        w.bytes[w.position]? = some (NodeLayout.tagOf sort t) ∧
          NodeDecoder.TagsRead session.conventions (Decoder.tree sort) w (.ofTree sort t) w') ∧
      ∀ it : Constant, NodeDecoder.constant.scan session.conventions w = .ok it w' →
        w.bytes[w.position]? = some it.tag ∧
          NodeDecoder.TagsRead session.conventions NodeDecoder.constant w (.constant it) w' := by
  refine ⟨⟨ExpressionKind.ofByte?_eq, StatementKind.ofByte?_eq, TypeKind.ofByte?_eq,
    ConstantKind.ofByte?_eq⟩, Expression.tagByte?_eq, ?_⟩
  intro session w w'
  rw [w.getElem?_bytes_position]
  refine ⟨?_, ?_⟩
  · intro sort t h
    exact ⟨NodeDecoder.head?_of_tree h, NodeDecoder.tagsRead_of_run h⟩
  · intro it h
    exact ⟨NodeDecoder.head?_of_constant h, NodeDecoder.tagsRead_of_run h⟩

/-- An integer in its tag that is set to a variable in its tag, and a type inside of a constant. -/
theorem tags_are_bytes_read_packed :
    let session : Session := ⟨.ofList [], .ofList [], {}, .baseline⟩
    let w := Window.ofBytes ⟨#[139, 0, 0, 150]⟩
    let u := Window.ofBytes ⟨#[11, 91]⟩
    let e : Expression := .shortVariableSet 3 ⟨none⟩ 0 (.smallIntLiteral 6)
    NodeDecoder.expression.scan session.conventions w = .ok e (w.advance 4) ∧
      w.bytes[w.position]? = some 139 ∧
      (∃ v, Decoder.Visits (grammar session.conventions) NodeDecoder.expression w .expression v ∧
        w.bytes[v.position]? = some 150) ∧
      NodeDecoder.constant.scan session.conventions u = .ok (.typeLiteral .dynamic) (u.advance 2) ∧
      ∃ v, Decoder.Visits (grammar session.conventions) NodeDecoder.constant u .type v ∧
        u.bytes[v.position]? = some 91 := by
  intro session w u e
  obtain ⟨-, -, htags⟩ := tags_are_bytes_read
  have hliteral : (Node.expression e).Contains (.expression (.smallIntLiteral 6)) :=
    .within (.head _) .self
  have htype : (Node.constant (.typeLiteral .dynamic)).Contains (.type .dynamic) :=
    .within (.head _) .self
  have hread : NodeDecoder.expression.scan session.conventions w = .ok e (w.advance 4) := rfl
  have hread' : NodeDecoder.constant.scan session.conventions u =
      .ok (.typeLiteral .dynamic) (u.advance 2) := rfl
  obtain ⟨hstart, hnodes⟩ := (htags session w _).1 .expression e hread
  obtain ⟨-, hnodes'⟩ := (htags session u _).2 _ hread'
  obtain ⟨v, hv, htag⟩ := hnodes.found .expression _ hliteral
  obtain ⟨v', hv', htag'⟩ := hnodes'.found .type _ htype
  exact ⟨hread, hstart, ⟨v, hv, htag.tag⟩, hread', v', hv', htag'.tag⟩

end DartKernel
