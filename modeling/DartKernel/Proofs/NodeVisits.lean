import DartKernel.Node.Mentions
import DartKernel.Proofs.Layout
import DartKernel.Proofs.Visits

namespace DartKernel

namespace Node

def ofTree : (sort : NodeSort) → sort.Tree → Node
  | .expression, it => .expression it
  | .statement, it => .statement it
  | .type, it => .type it

theorem ofTree_inj {sort sort' : NodeSort} {t : sort.Tree} {t' : sort'.Tree}
    (h : ofTree sort t = ofTree sort' t') :
    (⟨sort, t⟩ : Σ sort : NodeSort, sort.Tree) = ⟨sort', t'⟩ := by
  cases sort <;> cases sort' <;> cases h <;> rfl

/-- Whether a node is one of those that nest without bound. -/
def isTree : Node → Bool
  | .expression _ | .statement _ | .type _ => true
  | _ => false

/-- A property that spreads from nodes to the parts that they are right below. -/
class Spreads (Good : Node → Prop) : Prop where
  part {node : Node} : node.isTree = false → (∀ child ∈ node.children, Good child) → Good node

end Node

namespace NodeDecoder
open Decoder Node

variable {Good : Node → Prop} {α β : Type}

/-- The decoder answers something with a property, if the trees it is given are good. -/
def Yields (Good : Node → Prop) (decoder : NodeDecoder α) (p : α → Prop) : Prop :=
  ∀ s a r, decoder.Reads .any (fun sort _ t _ => Good (.ofTree sort t)) s a r → p a

/-- What the decoder answers is made of good nodes, if the trees it is given are good. -/
class Bears (Good : Node → Prop) (decoder : NodeDecoder α) (nodes : outParam (α → List Node)) :
    Prop where
  yields : Yields Good decoder fun a => ∀ node ∈ nodes a, Good node

theorem yields_pure {a : α} {p : α → Prop} (h : p a) : Yields Good (pure a) p := by
  rintro s b r ⟨rfl, -⟩
  exact h

section Combinations

variable {decoder : NodeDecoder α} {nodes : α → List Node} [hd : Bears Good decoder nodes]
include hd

theorem yields_bind {f : α → NodeDecoder β} {p : β → Prop}
    (h : ∀ a, (∀ node ∈ nodes a, Good node) → Yields Good (f a) p) :
    Yields Good (decoder >>= f) p := by
  intro s b r hb
  obtain ⟨a, m, ha, hb⟩ := (reads_bind ..).mp hb
  exact h a (hd.yields s a m ha) m b r hb

theorem yields_map {f : α → β} {p : β → Prop}
    (h : ∀ a, (∀ node ∈ nodes a, Good node) → p (f a)) : Yields Good (f <$> decoder) p := by
  intro s b r hb
  obtain ⟨a, ha, rfl⟩ := (reads_map ..).mp hb
  exact h a (hd.yields s a r ha)

theorem yields_seq {f : NodeDecoder (α → β)} {p : β → Prop}
    (h : Yields Good f fun g => ∀ a, (∀ node ∈ nodes a, Good node) → p (g a)) :
    Yields Good (f <*> decoder) p := by
  intro s b r hb
  obtain ⟨g, m, a, hg, ha, rfl⟩ := (reads_seq ..).mp hb
  exact h s g m hg a (hd.yields m a r ha)

theorem good_of_reads_many {xs : List α} {s r : List UInt8}
    (h : Reading.many (decoder.Reads .any fun sort _ t _ => Good (.ofTree sort t)) s xs r) :
    ∀ node ∈ xs.flatMap nodes, Good node := by
  induction xs generalizing s with
  | nil => exact List.forall_mem_nil _
  | cons x xs ih =>
    obtain ⟨m, hx, hxs⟩ := h
    rw [List.flatMap_cons]
    exact List.forall_mem_append.mpr ⟨hd.yields s x m hx, ih hxs⟩

instance : Bears Good (list decoder) fun xs => xs.flatMap nodes where
  yields := by
    intro s xs r h
    obtain ⟨n, m, -, h⟩ := (reads_bind ..).mp h
    exact good_of_reads_many ((reads_many ..).mp h).2

instance : Bears Good (option decoder) fun x? => x?.toList.flatMap nodes where
  yields := by
    intro s x? r h
    obtain ⟨tag, m, -, h⟩ := (reads_bind ..).mp h
    split at h
    · obtain ⟨rfl, -⟩ := h
      exact List.forall_mem_nil _
    · split at h
      · obtain ⟨x, m', hx, rfl, -⟩ := (reads_bind ..).mp h
        simpa using hd.yields m x m' hx
      · exact h.elim

end Combinations

instance {decoder : NodeDecoder α} {decoder' : NodeDecoder β} {nodes : α → List Node}
    {nodes' : β → List Node} [Bears Good decoder nodes] [Bears Good decoder' nodes'] :
    Bears Good (Prod.mk <$> decoder <*> decoder') fun p => nodes p.1 ++ nodes' p.2 where
  yields := by
    refine yields_seq (yields_map ?_)
    intro x hx y hy
    exact List.forall_mem_append.mpr ⟨hx, hy⟩

theorem tagged_yields [TaggedFamily κ] {family : NodeFamily} {fields : κ → NodeDecoder α}
    {p : α → Prop} (h : ∀ kind, Yields Good (fields kind) p) (tag : UInt8) :
    Yields Good (tagged family fields tag) p := by
  unfold tagged
  split
  · exact h _
  · exact fun _ _ _ => False.elim

theorem bears_nothing (decoder : NodeDecoder α) : Bears Good decoder fun _ => [] :=
  ⟨fun _ _ _ _ => List.forall_mem_nil _⟩

instance : Bears Good byte fun _ => [] := bears_nothing _

instance : Bears Good peek fun _ => [] := bears_nothing _

instance : Bears Good uint fun _ => [] := bears_nothing _

instance {expected : UInt8} : Bears Good (checkTag expected) fun _ => [] := bears_nothing _

instance : Bears Good boolean fun _ => [] := bears_nothing _

instance {target : Target} : Bears Good (ref : NodeDecoder (Ref target)) fun _ => [] :=
  bears_nothing _

instance : Bears Good offset fun _ => [] := bears_nothing _

instance {φ : Type} : Bears Good (flags : NodeDecoder (Flags φ)) fun _ => [] := bears_nothing _

instance : Bears Good double fun _ => [] := bears_nothing _

instance {ofCode : UInt8 → Except Fault α} : Bears Good (coded ofCode) fun _ => [] :=
  bears_nothing _

instance {c : Conventions} : Bears Good (name c) fun _ => [] := bears_nothing _

theorem bears_tree (sort : NodeSort) :
    Bears Good (tree sort : NodeDecoder sort.Tree) fun it => [.ofTree sort it] where
  yields := by
    rintro s it r ⟨x, m, hx, rfl, rfl⟩
    exact List.forall_mem_singleton.mpr hx

instance {sort : NodeSort} :
    Bears Good (tree sort : NodeDecoder sort.Tree) fun it => [.ofTree sort it] := bears_tree sort

instance : Bears Good expression fun it => [.expression it] := bears_tree .expression

instance : Bears Good statement fun it => [.statement it] := bears_tree .statement

instance : Bears Good type fun it => [.type it] := bears_tree .type

section Parts

variable [Spreads Good]

/-- A part is good if the nodes right below it are. -/
theorem bears_part {decoder : NodeDecoder α} {node : α → Node}
    (hnode : ∀ a, (node a).isTree = false)
    (h : Yields Good decoder fun a => ∀ child ∈ (node a).children, Good child) :
    Bears Good decoder fun a => [node a] where
  yields s a r ha := List.forall_mem_singleton.mpr (Spreads.part (hnode a) (h s a r ha))

instance : Bears Good typeParameter fun it => [.typeParameter it] := by
  refine bears_part (fun _ => rfl) ?_
  (repeat refine yields_seq ?_)
  refine yields_map ?_
  simp +contextual [children, or_imp, forall_and]

instance : Bears Good variableDeclaration fun it => [.binding it] := by
  refine bears_part (fun _ => rfl) ?_
  (repeat refine yields_seq ?_)
  refine yields_map ?_
  simp +contextual [children, or_imp, forall_and]

instance : Bears Good functionNode fun it => [.function it] := by
  refine bears_part (fun _ => rfl) (yields_bind fun _ _ => ?_)
  (repeat refine yields_seq ?_)
  refine yields_map ?_
  simp +contextual [children, or_imp, forall_and]

instance : Bears Good namedExpression fun it => [.expression it.value] where
  yields := yields_seq (yields_map (by simp +contextual))

instance : Bears Good (.mk <$> list type <*> list expression <*> list namedExpression) fun it =>
    (Node.arguments it).children where
  yields := by
    (repeat refine yields_seq ?_)
    refine yields_map ?_
    simp +contextual [children, or_imp, forall_and]

instance : Bears Good arguments fun it => [.arguments it] := by
  refine bears_part (fun _ => rfl) (yields_bind fun _ _ => yields_bind fun it hit => ?_)
  split
  · exact fun _ _ _ => False.elim
  · exact yields_pure hit

instance : Bears Good mapEntry fun it => [.expression it.key, .expression it.value] where
  yields := yields_seq (yields_map (by simp +contextual))

instance : Bears Good namedType fun it => [.type it.type] where
  yields := yields_seq (yields_map (by simp +contextual))

instance : Bears Good aliasTypeFields fun it => it.typeArguments.map .type where
  yields := yields_seq (yields_map (by simp +contextual))

instance : Bears Good (.mk <$> ref <*> list type) fun it : InterfaceType =>
    it.typeArguments.map .type where
  yields := yields_seq (yields_map (by simp +contextual))

instance : Bears Good (.mk <$> list typeParameter <*> uint <*> uint <*> list type <*> list namedType
    <*> ref <*> type) fun it => [.functionType it] := by
  refine bears_part (fun _ => rfl) ?_
  (repeat refine yields_seq ?_)
  refine yields_map ?_
  simp +contextual [children, or_imp, forall_and]

instance : Bears Good assertStatement fun it => [.assertion it] := by
  refine bears_part (fun _ => rfl) ?_
  (repeat refine yields_seq ?_)
  refine yields_map ?_
  simp +contextual [children, or_imp]

instance : Bears Good switchCase fun it => [.switchCase it] := by
  refine bears_part (fun _ => rfl) (yields_seq (yields_seq (yields_map ?_)))
  intro labels hlabels isDefault _ body hbody
  apply List.forall_mem_append.mpr ⟨List.forall_mem_map.mpr ?_, hbody⟩
  intro label hlabel
  exact hlabels _ (List.mem_flatMap_of_mem hlabel (.head _))

instance : Bears Good catchClause fun it => [.catchClause it] := by
  refine bears_part (fun _ => rfl) ?_
  (repeat refine yields_seq ?_)
  refine yields_map ?_
  simp +contextual [children, or_imp, forall_and]

theorem typeFields_yields (kind : TypeKind) :
    Yields Good (typeFields kind) fun it => ∀ child ∈ ofType it, Good child := by
  cases kind <;> simp only [typeFields] <;> first
    | exact yields_pure (List.forall_mem_nil _)
    | (repeat refine yields_seq ?_); exact yields_map (by simp +contextual [ofType, or_imp])

theorem statementFields_yields (kind : StatementKind) :
    Yields Good (statementFields kind) fun it => ∀ child ∈ ofStatement it, Good child := by
  cases kind <;> simp only [statementFields] <;> first
    | exact yields_pure (List.forall_mem_nil _)
    | (repeat refine yields_seq ?_)
      exact yields_map (by simp +contextual [ofStatement, or_imp, forall_and])

theorem expressionFields_yields (c : Conventions) (kind : ExpressionKind) :
    Yields Good (expressionFields c kind) fun it => ∀ child ∈ ofExpression it, Good child := by
  cases kind <;> simp only [expressionFields] <;> first
    | exact yields_pure (List.forall_mem_nil _)
    | (repeat refine yields_seq ?_)
      exact yields_map (by simp +contextual [ofExpression, or_imp, forall_and])

theorem grammar_yields (c : Conventions) (sort : NodeSort) (tag : UInt8) :
    Yields Good (grammar c sort tag) fun t => ∀ child ∈ (ofTree sort t).children, Good child := by
  cases sort with
  | expression => exact tagged_yields (expressionFields_yields c) tag
  | statement => exact tagged_yields statementFields_yields tag
  | type => exact tagged_yields typeFields_yields tag

end Parts

instance : Bears Good intLiteral fun it => [.expression it] where
  yields := by
    refine yields_bind fun tag _ => ?_
    dsimp only
    split
    · exact Bears.yields
    · exact fun _ _ _ => False.elim

theorem constantFields_yields (kind : ConstantKind) :
    Yields Good (constantFields kind) fun it => ∀ child ∈ ofConstant it, Good child := by
  cases kind <;> simp only [constantFields] <;> first
    | exact yields_pure (List.forall_mem_nil _)
    | (repeat refine yields_seq ?_)
      exact yields_map (by simp +contextual [ofConstant, or_imp])

instance [Spreads Good] : Bears Good constant fun it => [.constant it] :=
  bears_part (fun _ => rfl) (yields_bind fun tag _ => tagged_yields constantFields_yields tag)

variable {c : Conventions} {decoder : NodeDecoder α} {w w' : Window} {a : α}

/-- The trees that occur in a node have all been read in the course of a run. -/
def Met (c : Conventions) (decoder : NodeDecoder α) (w : Window) (node : Node) : Prop :=
  ∀ sort t, node.Contains (.ofTree sort t) → Meets (grammar c) decoder w sort t

instance : Spreads (Met c decoder w) where
  part := by
    intro node hnode hchildren sort t h
    cases h with
    | self => cases sort <;> cases hnode
    | within hchild h => exact hchildren _ hchild sort t h

/-- Whatever trees are met inside of a tree that is met are met as well. -/
theorem met_of_meets (htree : ∀ sort t v v', Visits (grammar c) decoder w sort v →
      (tree sort).run (grammar c) v = .ok t v' → Met c (tree sort) v (.ofTree sort t))
    {sort : NodeSort} {t : sort.Tree} (h : Meets (grammar c) decoder w sort t) :
    Met c decoder w (.ofTree sort t) := by
  obtain ⟨v, v', hv, ht⟩ := h
  intro sort' t' hin
  obtain ⟨u, u', hu, ht'⟩ := htree sort t v v' hv ht sort' t' hin
  exact ⟨u, u', hv.trans hu, ht'⟩

/-- The trees that occur in a tree are met while it is read. The induction is on the bytes at hand:
below its tag byte a tree has fewer of them. -/
theorem met_of_tree (sort : NodeSort) {t : sort.Tree}
    (h : (tree sort).run (grammar c) w = .ok t w') : Met c (tree sort) w (.ofTree sort t) := by
  induction hn : w.remaining using Nat.strong_induction_on generalizing sort t w w' with
  | h n ih =>
    have hfields := h
    rw [run_tree] at hfields
    obtain ⟨tag, m, htag, hfields⟩ := Scan.bind_ok hfields
    have hfewer : m.remaining < n := by
      have hpos := Scan.remaining_pos_of_byte htag
      obtain ⟨rfl, -⟩ := Scan.byte_ok htag
      rw [Window.remaining_advance]
      omega
    have hbelow : ∀ child ∈ (ofTree sort t).children, Met c (grammar c sort tag) m child := by
      refine grammar_yields c sort tag _ _ _
        (reads_of_run (fun sort' t' => met_of_meets ?_) hfields)
      intro sort' t' v v' hv ht'
      obtain ⟨-, -, -, hmoves, -⟩ := hv.answered hfields
      exact ih _ (hmoves.remaining_le.trans_lt hfewer) sort' ht' rfl
    intro sort' t' hin
    generalize hinner : ofTree sort' t' = inner at hin
    cases hin with
    | self =>
      cases ofTree_inj hinner
      exact ⟨w, w', .here, h⟩
    | within hchild hin =>
      obtain ⟨v, v', hv, ht'⟩ := hbelow _ hchild sort' t' (hinner ▸ hin)
      exact ⟨v, v', .inside htag hv, ht'⟩

/-- The trees that occur in the answer of a run are met in its course. -/
theorem met_of_run {nodes : α → List Node} [hd : Bears (Met c decoder w) decoder nodes]
    (h : decoder.run (grammar c) w = .ok a w') : ∀ node ∈ nodes a, Met c decoder w node := by
  refine hd.yields _ _ _ (reads_of_run (fun sort t => met_of_meets ?_) h)
  intro sort t v v' _ ht
  exact met_of_tree sort ht

end NodeDecoder
end DartKernel
