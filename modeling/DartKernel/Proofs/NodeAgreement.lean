import DartKernel.Proofs.NodeLayout
import DartKernel.Proofs.Tags

namespace DartKernel

theorem LogicalOperator.ofCode_eq_ok_iff {b : UInt8} {it : LogicalOperator} :
    ofCode b = .ok it ↔ b = it.code := by
  constructor
  · intro h
    unfold ofCode at h
    split at h <;> cases h <;> exact UInt8.toNat_inj.mp ‹_›
  · intro h
    subst h
    cases it <;> rfl

theorem AsyncMarker.ofCode_eq_ok_iff {b : UInt8} {it : AsyncMarker} :
    ofCode b = .ok it ↔ b = it.code := by
  constructor
  · intro h
    unfold ofCode at h
    split at h <;> cases h <;> exact UInt8.toNat_inj.mp ‹_›
  · intro h
    subst h
    cases it <;> rfl

theorem ProcedureKind.ofCode_eq_ok_iff {b : UInt8} {it : ProcedureKind} :
    ofCode b = .ok it ↔ b = it.code := by
  constructor
  · intro h
    unfold ofCode at h
    split at h <;> cases h <;> exact UInt8.toNat_inj.mp ‹_›
  · intro h
    subst h
    cases it <;> rfl

theorem FileOffset.eq_ofBiased_iff {offset : FileOffset} {raw : UInt32} :
    offset = ofBiased raw ↔ offset.biased = raw.toNat := by
  have hsub (h : raw ≠ 0) : (raw - 1).toNat + 1 = raw.toNat := by
    have hpos : 1 ≤ raw.toNat := by
      have := mt UInt32.toNat_inj.mp h
      simp only [UInt32.reduceToNat] at this
      omega
    have hle : (1 : UInt32) ≤ raw := UInt32.le_iff_toNat_le.mpr (by simpa using hpos)
    rw [UInt32.toNat_sub_of_le _ _ hle]
    exact Nat.sub_add_cancel hpos
  obtain ⟨position?⟩ := offset
  simp only [ofBiased, FileOffset.mk.injEq]
  by_cases h0 : raw = 0
  · rw [if_pos h0, h0]
    cases position? <;> simp [biased]
  · rw [if_neg h0, ← hsub h0]
    cases position? with
    | none => simp [biased]
    | some position => simp [biased, UInt32.toNat_inj]

/-- A name follows the rule when its text tells whether it has a library. -/
theorem Name.follows_iff {session : Session} {name : Name} :
    name.Follows session.strings ↔ session.isPrivate name.text = .ok name.library.isSome := by
  unfold Name.Follows Session.isPrivate
  cases hg : session.strings.get name.text with
  | error fault => simp [bind, Except.bind]
  | ok text? =>
    simp only [bind, Except.bind, pure, Except.pure, Except.ok.injEq]
    cases text? with
    | none => cases name.library <;> simp
    | some text => cases name.library <;> simp

namespace NodeDecoder
open Decoder

variable {g : Grammar NodeSort.Tree} {spelling : Spelling}
  {trees : (sort : NodeSort) → Reading sort.Tree} {s r : List UInt8} {session : Session}

instance {target : Target} : Laid g (ref : NodeDecoder (Ref target)) NodeLayout.ref := by
  apply Laid.of_gives
  intro spelling depth s it r
  cases it
  simp [ref, NodeLayout.ref]

instance : Laid g offset NodeLayout.offset where
  reads_iff spelling depth s it r := by
    simp only [offset, NodeLayout.offset, reads_map, reads_uint, FileOffset.eq_ofBiased_iff,
      Layout.reading_uint]
    constructor
    · intro h
      obtain ⟨raw, ⟨bytes, hb, hs⟩, hraw⟩ := h
      exact ⟨bytes, hraw ▸ hb, hs⟩
    · intro h
      rcases h with ⟨bytes, hb, hs⟩
      obtain ⟨raw, hraw⟩ := spelling.exists_toNat_eq hb
      exact ⟨raw, ⟨bytes, hraw ▸ hb, hs⟩, hraw.symm⟩

instance {φ : Type} : Laid g (flags : NodeDecoder (Flags φ)) NodeLayout.flags := by
  apply Laid.of_gives
  intro spelling depth s it r
  cases it
  simp [flags, NodeLayout.flags]

instance : Laid g double NodeLayout.double := by
  apply Laid.of_gives
  intro spelling depth s it r
  cases it
  simp [double, NodeLayout.double]

theorem coded_laid {ofCode : UInt8 → Except Fault α} {code : α → UInt8}
    (h : ∀ {b it}, ofCode b = .ok it ↔ b = code it) :
    Laid g (coded ofCode) fun it => Layout.byte (code it) where
  reads_iff spelling depth s it r := by
    simp only [coded, reads_bind, reads_byte, reads_ofExcept, h, Layout.reading_byte]
    constructor
    · intro h
      rcases h with ⟨b, m, hs, hb, hr⟩
      rw [hs, hb, hr]
    · intro hs
      exact ⟨code it, r, hs, rfl, rfl⟩

instance : Laid g (coded LogicalOperator.ofCode) fun it => Layout.byte it.code :=
  coded_laid LogicalOperator.ofCode_eq_ok_iff

instance : Laid g (coded AsyncMarker.ofCode) fun it => Layout.byte it.code :=
  coded_laid AsyncMarker.ofCode_eq_ok_iff

instance : Laid g (coded ProcedureKind.ofCode) fun it => Layout.byte it.code :=
  coded_laid ProcedureKind.ofCode_eq_ok_iff

theorem NodeLayout.reading_name (it : Name) (depth : Nat) :
    Layout.reading spelling (TreeReads spelling g depth) s (NodeLayout.name session it) r ↔
      session.isPrivate it.text = .ok it.library.isSome ∧
      ∃ m, Layout.reading spelling (TreeReads spelling g depth) s (NodeLayout.ref it.text) m ∧
        Layout.reading spelling (TreeReads spelling g depth) m
          (it.library.elim [] NodeLayout.ref) r := by
  simp only [NodeLayout.name, Layout.reading_append, Layout.reading_token, Token.reading,
    List.append_assoc, Name.follows_iff]
  constructor
  · intro h
    obtain ⟨m, ⟨hp, hm⟩, h⟩ := h
    exact ⟨hp, hm ▸ h⟩
  · intro h
    rcases h with ⟨hp, h⟩
    exact ⟨s, ⟨hp, rfl⟩, h⟩

instance : Laid g (name session.conventions) (NodeLayout.name session) where
  reads_iff spelling depth s it r := by
    simp only [name, NodeLayout.reading_name, reads_bind, reads_ofExcept, Laid.reads_iff]
    constructor
    · intro h
      obtain ⟨text, m, ht, isPrivate, m', ⟨hp, hm⟩, h⟩ := h
      subst hm
      cases isPrivate with
      | true =>
        obtain ⟨library, m, hl, rfl, rfl⟩ := (reads_bind ..).mp h
        rw [Laid.reads_iff] at hl
        exact ⟨hp, m', ht, hl⟩
      | false =>
        obtain ⟨rfl, rfl⟩ := h
        exact ⟨hp, _, ht, rfl⟩
    · intro h
      rcases h with ⟨hp, m, ht, hl⟩
      obtain ⟨text, library?⟩ := it
      refine ⟨text, m, ht, library?.isSome, m, ⟨hp, rfl⟩, ?_⟩
      cases library? with
      | none => exact ⟨rfl, hl⟩
      | some library =>
        exact (reads_bind ..).mpr ⟨library, r, (Laid.reads_iff ..).mpr hl, rfl, rfl⟩

instance : Laid g expression NodeLayout.expression := inferInstanceAs (Laid g (tree _) _)

instance : Laid g statement NodeLayout.statement := inferInstanceAs (Laid g (tree _) _)

instance : Laid g type NodeLayout.type := inferInstanceAs (Laid g (tree _) _)

instance : Laid g typeParameter NodeLayout.typeParameter := by
  apply Laid.of_gives
  intro spelling depth s it r
  cases it
  simp [typeParameter, NodeLayout.typeParameter, and_assoc]

instance : Laid g variableDeclaration NodeLayout.variableDeclaration := by
  apply Laid.of_gives
  intro spelling depth s it r
  cases it
  simp [variableDeclaration, NodeLayout.variableDeclaration, and_assoc]

instance : Laid g functionNode NodeLayout.functionNode := by
  apply Laid.of_gives
  intro spelling depth s it r
  cases it
  simp [functionNode, NodeLayout.functionNode, and_assoc]

instance : Laid g namedExpression NodeLayout.namedExpression := by
  apply Laid.of_gives
  intro spelling depth s it r
  cases it
  simp [namedExpression, NodeLayout.namedExpression, and_assoc]

instance : Laid g arguments NodeLayout.arguments where
  reads_iff spelling depth s it r := by
    -- The check looks at the whole answer, so the lists are taken together.
    have hlists (m r : List UInt8) (it : Arguments) :
        (Arguments.mk <$> list type <*> list expression <*> list namedExpression).Reads spelling
          (TreeReads spelling g depth) m it r ↔
        Layout.reading spelling (TreeReads spelling g depth) m (Layout.list NodeLayout.type it.types
          ++ Layout.list NodeLayout.expression it.positional
          ++ Layout.list NodeLayout.namedExpression it.named) r := by
      rw [reads_iff_gives]
      cases it
      simp [and_assoc]
    simp only [arguments, NodeLayout.arguments, List.append_assoc, reads_bind, reads_uint, hlists,
      Layout.reading_append (Layout.uint _), Layout.reading_uint]
    constructor
    · intro h
      obtain ⟨declared, m, ⟨bytes, hb, hs⟩, found, m', hm, h⟩ := h
      by_cases hc : declared.toNat = found.count
      · rw [if_neg (not_not_intro hc)] at h
        obtain ⟨rfl, rfl⟩ := h
        exact ⟨m, ⟨bytes, hc ▸ hb, hs⟩, hm⟩
      · rw [if_pos hc, reads_bind] at h
        obtain ⟨_, _, h, -⟩ := h
        exact h.elim
    · intro h
      obtain ⟨m, ⟨bytes, hb, hs⟩, hm⟩ := h
      obtain ⟨declared, hc⟩ := spelling.exists_toNat_eq hb
      refine ⟨declared, m, ⟨bytes, hc ▸ hb, hs⟩, it, r, hm, ?_⟩
      rw [if_neg (not_not_intro hc)]
      exact ⟨rfl, rfl⟩

instance : Laid g mapEntry NodeLayout.mapEntry := by
  apply Laid.of_gives
  intro spelling depth s it r
  cases it
  simp [mapEntry, NodeLayout.mapEntry, and_assoc]

instance : Laid g namedType NodeLayout.namedType := by
  apply Laid.of_gives
  intro spelling depth s it r
  cases it
  simp [namedType, NodeLayout.namedType, and_assoc]

instance : Laid g aliasTypeFields NodeLayout.aliasType := by
  apply Laid.of_gives
  intro spelling depth s it r
  cases it
  simp [aliasTypeFields, NodeLayout.aliasType, and_assoc]

instance : Laid g assertStatement NodeLayout.assertStatement := by
  apply Laid.of_gives
  intro spelling depth s it r
  cases it
  simp [assertStatement, NodeLayout.assertStatement, and_assoc]

instance : Laid g switchCase NodeLayout.switchCase := by
  apply Laid.of_gives
  intro spelling depth s it r
  cases it
  simp [switchCase, NodeLayout.switchCase, and_assoc]

instance : Laid g catchClause NodeLayout.catchClause := by
  apply Laid.of_gives
  intro spelling depth s it r
  cases it
  simp [catchClause, NodeLayout.catchClause, and_assoc]

theorem typeFields_kind (kind : TypeKind) : (typeFields kind).Always fun it => it.kind = kind := by
  cases kind <;> simp only [typeFields] <;> first
    | exact always_pure rfl
    | (repeat refine always_seq ?_); exact always_map fun _ => by intros; rfl

theorem typeFields_reads (t : DartType) (depth : Nat) :
    (typeFields t.kind).Reads spelling (TreeReads spelling g depth) s t r ↔
      Layout.reading spelling (TreeReads spelling g depth) s (NodeLayout.typeFields t) r := by
  rw [reads_iff_gives]
  cases t with
  | interface it =>
    cases it
    simp [typeFields, DartType.kind, NodeLayout.typeFields, NodeLayout.interfaceType, and_assoc]
  | function it =>
    cases it
    simp [typeFields, DartType.kind, NodeLayout.typeFields, NodeLayout.functionType, and_assoc]
  | _ => simp [typeFields, DartType.kind, NodeLayout.typeFields, and_assoc, eq_comm]

theorem statementFields_kind (kind : StatementKind) :
    (statementFields kind).Always fun it => it.kind = kind := by
  cases kind <;> simp only [statementFields] <;> first
    | exact always_pure rfl
    | (repeat refine always_seq ?_); exact always_map fun _ => by intros; rfl

theorem statementFields_reads (it : Statement) (depth : Nat) :
    (statementFields it.kind).Reads spelling (TreeReads spelling g depth) s it r ↔
      Layout.reading spelling (TreeReads spelling g depth) s (NodeLayout.statementFields it) r := by
  rw [reads_iff_gives]
  cases it <;> simp [statementFields, Statement.kind, NodeLayout.statementFields, and_assoc]

theorem expressionFields_kind (c : Conventions) (kind : ExpressionKind) :
    (expressionFields c kind).Always fun it => it.kind = kind := by
  cases kind <;> simp only [expressionFields] <;> first
    | exact always_pure rfl
    | (repeat refine always_seq ?_); exact always_map fun _ => by intros; rfl

theorem expressionFields_reads (e : Expression) (depth : Nat) :
    (expressionFields session.conventions e.kind).Reads spelling (TreeReads spelling g depth) s e
      r ↔ Layout.reading spelling (TreeReads spelling g depth) s
        (NodeLayout.expressionFields session e) r := by
  rw [reads_iff_gives]
  cases e <;> simp [expressionFields, Expression.kind, NodeLayout.expressionFields, and_assoc]

/-- The decoder of a node after its tag, where the tag belongs to one of the kinds of a family. -/
theorem reads_tagged [TaggedFamily κ] [LawfulFamily κ] {family : NodeFamily}
    {fields : κ → NodeDecoder α} {b : UInt8} {a : α} :
    (tagged family fields b).Reads spelling trees s a r ↔
      ∃ kind, b = TaggedFamily.tag kind ∧ (fields kind).Reads spelling trees s a r := by
  simp only [← TaggedFamily.ofTag?_eq_some_iff]
  unfold tagged
  cases (TaggedFamily.ofTag? b : Option κ) <;> simp

/-- A tag and its fields are read when the tag is that of the answer. -/
theorem reads_family [TaggedFamily κ] [LawfulFamily κ] {family : NodeFamily}
    {fields : κ → NodeDecoder α} {kind : α → κ} {layout : α → NodeLayout}
    (hkind : ∀ k, (fields k).Always fun a => kind a = k)
    (hreads : ∀ {s r} a depth,
      (fields (kind a)).Reads spelling (TreeReads spelling g depth) s a r ↔
        Layout.reading spelling (TreeReads spelling g depth) s (layout a) r)
    {b : UInt8} (a : α) (depth : Nat) :
    (tagged family fields b).Reads spelling (TreeReads spelling g depth) s a r ↔
      b = TaggedFamily.tag (kind a) ∧
        Layout.reading spelling (TreeReads spelling g depth) s (layout a) r := by
  rw [reads_tagged]
  constructor
  · intro h
    rcases h with ⟨k, hb, h⟩
    have hk := hkind k _ _ _ _ _ h
    rw [← hk] at hb h
    exact ⟨hb, (hreads a depth).mp h⟩
  · intro h
    rcases h with ⟨hb, h⟩
    exact ⟨kind a, hb, (hreads a depth).mpr h⟩

/-- One level of the grammar: the tag byte of a tree, and then its fields. -/
theorem grammar_reads (sort : NodeSort) (b : UInt8) (t : sort.Tree) (depth : Nat) :
    (grammar session.conventions sort b).Reads spelling
      (TreeReads spelling (grammar session.conventions) depth) s t r ↔
      b = NodeLayout.tagOf sort t ∧
        Layout.reading spelling (TreeReads spelling (grammar session.conventions) depth) s
          (NodeLayout.fieldsOf session sort t) r := by
  cases sort with
  | expression =>
    exact reads_family (expressionFields_kind _) expressionFields_reads t depth
  | statement => exact reads_family statementFields_kind statementFields_reads t depth
  | type => exact reads_family typeFields_kind typeFields_reads t depth

theorem treeReads_succ (sort : NodeSort) (t : sort.Tree) (depth : Nat) :
    TreeReads spelling (grammar session.conventions) (depth + 1) sort s t r ↔
      Layout.reading spelling (TreeReads spelling (grammar session.conventions) depth) s
        (NodeLayout.treeNode session sort t) r := by
  rw [NodeLayout.treeNode, Layout.reading_tagged]
  simp only [TreeReads, grammar_reads]
  constructor
  · intro h
    rcases h with ⟨tag, m, hs, hb, h⟩
    exact ⟨m, hb ▸ hs, h⟩
  · intro h
    rcases h with ⟨m, hs, h⟩
    exact ⟨_, m, hs, rfl, h⟩

/-- A tree starts with its tag. -/
theorem head?_of_treeReads {sort : NodeSort} {t : sort.Tree} {depth : Nat}
    (h : TreeReads spelling (grammar session.conventions) depth sort s t r) :
    s.head? = some (NodeLayout.tagOf sort t) := by
  cases depth with
  | zero => exact h.elim
  | succ depth =>
    obtain ⟨m, hs, -⟩ := (Layout.reading_tagged ..).mp ((treeReads_succ sort t depth).mp h)
    rw [hs]
    rfl

/-- A tree is read where its tag is the next byte. -/
theorem head?_of_tree {sort : NodeSort} {t : sort.Tree} {w w' : Window}
    (h : (tree sort).run (grammar session.conventions) w = .ok t w') :
    w.rest.head? = some (NodeLayout.tagOf sort t) := by
  obtain ⟨n, -, -, hreads⟩ := run_ok h
  have htree : Layout.reading .any _ w.rest (Layout.tree sort t) _ := (Laid.reads_iff ..).mp hreads
  exact head?_of_treeReads ((Layout.reading_tree ..).mp htree)

theorem reads_peek (b : UInt8) :
    (peek : NodeDecoder UInt8).Reads spelling trees s b r ↔ r = s ∧ s.head? = some b := by
  simp [peek, Reads, Query.Reads]

/-- An integer literal, seen by its tag. -/
theorem intLiteral_tag_iff (e : Expression) :
    ((TaggedFamily.ofTag? e.tag : Option ExpressionKind).any ExpressionKind.isIntLiteral) =
      e.isIntLiteral := by
  have htag : (TaggedFamily.ofTag? e.tag : Option ExpressionKind) = some e.kind :=
    TaggedFamily.ofTag?_eq_some_iff.mpr rfl
  rw [htag]
  rfl

instance : Laid (grammar session.conventions) intLiteral fun it =>
    Layout.require it.isIntLiteral ++ NodeLayout.expression it where
  reads_iff spelling depth s it r := by
    simp only [intLiteral, reads_bind, reads_peek, Layout.reading_append, Layout.reading_require]
    constructor
    · intro h
      obtain ⟨tag, m, ⟨hm, htag⟩, h⟩ := h
      subst hm
      split at h
      · have he := (Laid.reads_iff ..).mp h
        have hhead := head?_of_treeReads ((Layout.reading_tree ..).mp he)
        rw [htag, Option.some.injEq] at hhead
        subst hhead
        rename_i hlit
        rw [NodeLayout.tagOf, intLiteral_tag_iff] at hlit
        exact ⟨_, ⟨hlit, rfl⟩, he⟩
      · exact h.elim
    · intro h
      obtain ⟨m, ⟨hlit, hm⟩, he⟩ := h
      subst hm
      refine ⟨it.tag, m, ⟨rfl, head?_of_treeReads ((Layout.reading_tree ..).mp he)⟩, ?_⟩
      rw [intLiteral_tag_iff, if_pos hlit]
      exact (Laid.reads_iff ..).mpr he

theorem constantFields_kind (kind : ConstantKind) :
    (constantFields kind).Always fun it => it.kind = kind := by
  cases kind <;> simp only [constantFields] <;> first
    | exact always_pure rfl
    | (repeat refine always_seq ?_); exact always_map fun _ => by intros; rfl

theorem constantFields_reads (it : Constant) (depth : Nat) :
    (constantFields it.kind).Reads spelling
      (TreeReads spelling (grammar session.conventions) depth) s it r ↔
      Layout.reading spelling (TreeReads spelling (grammar session.conventions) depth) s
        (NodeLayout.constantFields it) r := by
  rw [reads_iff_gives]
  cases it <;> simp [constantFields, Constant.kind, NodeLayout.constantFields, and_assoc]

/-- A tag byte and what the family has for it. -/
theorem family_laid [TaggedFamily κ] [LawfulFamily κ] {family : NodeFamily}
    {fields : κ → NodeDecoder α} {kind : α → κ} {layout : α → NodeLayout}
    (hkind : ∀ k, (fields k).Always fun a => kind a = k)
    (hreads : ∀ {spelling s r} a depth,
      (fields (kind a)).Reads spelling (TreeReads spelling g depth) s a r ↔
        Layout.reading spelling (TreeReads spelling g depth) s (layout a) r) :
    Laid g (do tagged family fields (← byte)) fun a =>
      Layout.tagged (TaggedFamily.tag (kind a)) (layout a) where
  reads_iff spelling depth s a r := by
    simp only [reads_bind, reads_byte, reads_family hkind hreads, Layout.reading_tagged]
    constructor
    · intro h
      rcases h with ⟨b, m, hs, hb, h⟩
      exact ⟨m, hb ▸ hs, h⟩
    · intro h
      rcases h with ⟨m, hs, h⟩
      exact ⟨_, m, hs, rfl, h⟩

instance : Laid (grammar session.conventions) constant NodeLayout.constant :=
  family_laid constantFields_kind constantFields_reads

instance : Laid g wrappedAssert fun it => NodeLayout.statement (.assertion it) where
  reads_iff spelling depth s it r := by
    simp only [wrappedAssert, reads_bind, Laid.reads_iff]
    constructor
    · intro h
      rcases h with ⟨other, m, h, hwrapped⟩
      cases other with
      | assertion wrapped =>
        obtain ⟨rfl, rfl⟩ := hwrapped
        exact h
      | _ => exact hwrapped.elim
    · intro h
      exact ⟨_, r, h, rfl, rfl⟩

instance : Laid g (assertIsSynthetic session.conventions) fun isSynthetic =>
    if session.assertHasSynthetic then Layout.boolean isSynthetic
    else Layout.require (isSynthetic = false) where
  reads_iff spelling depth s isSynthetic r := by
    unfold assertIsSynthetic
    change (if session.assertHasSynthetic then _ else _ : NodeDecoder Bool).Reads _ _ _ _ _ ↔ _
    by_cases h : session.assertHasSynthetic
    · rw [if_pos h, if_pos h]
      exact Laid.reads_iff ..
    · rw [if_neg h, if_neg h, Layout.reading_require]
      exact reads_pure ..

theorem initializerFields_kind (c : Conventions) (kind : InitializerKind) :
    (initializerFields c kind).Always fun it => it.kind = kind := by
  cases kind <;> simp only [initializerFields] <;>
    (repeat refine always_seq ?_) <;> exact always_map fun _ => by intros; rfl

theorem initializerFields_reads (it : Initializer) (depth : Nat) :
    (initializerFields session.conventions it.kind).Reads spelling (TreeReads spelling g depth) s
      it r ↔ Layout.reading spelling (TreeReads spelling g depth) s
        (NodeLayout.initializerFields session it) r := by
  rw [reads_iff_gives]
  cases it <;>
    simp [initializerFields, Initializer.kind, NodeLayout.initializerFields, and_assoc]

instance : Laid g (initializer session.conventions) (NodeLayout.initializer session) :=
  family_laid (initializerFields_kind _) initializerFields_reads

instance : Laid g (field session.conventions) (NodeLayout.field session) := by
  apply Laid.of_gives
  intro spelling depth s it r
  cases it
  simp [field, NodeLayout.field, and_assoc]

instance : Laid g (constructor session.conventions) (NodeLayout.constructor session) := by
  apply Laid.of_gives
  intro spelling depth s it r
  cases it
  simp [constructor, NodeLayout.constructor, and_assoc]

instance : Laid g (procedure session.conventions) (NodeLayout.procedure session) := by
  apply Laid.of_gives
  intro spelling depth s it r
  cases it
  simp [procedure, NodeLayout.procedure, and_assoc]

instance : Laid g (redirectingFactory session.conventions)
    (NodeLayout.redirectingFactory session) := by
  apply Laid.of_gives
  intro spelling depth s it r
  cases it
  simp [redirectingFactory, NodeLayout.redirectingFactory, and_assoc]

instance : Laid g (member session.conventions) (NodeLayout.member session) where
  reads_iff spelling depth s it r := by
    simp only [member, reads_bind, reads_peek, reads_tagged]
    constructor
    · intro h
      obtain ⟨b, m, ⟨hm, hb⟩, kind, hk, h⟩ := h
      subst hm
      cases kind <;> simp only [reads_map, Laid.reads_iff] at h <;> obtain ⟨x, hx, rfl⟩ := h <;>
        exact hx
    · intro h
      -- Each member starts with its own tag, so the look ahead finds it.
      have hhead (tag : UInt8) (fields : NodeLayout) (h : Layout.reading spelling
          (TreeReads spelling g depth) s (Layout.tagged tag fields) r) : s.head? = some tag := by
        obtain ⟨m, hs, -⟩ := (Layout.reading_tagged ..).mp h
        rw [hs]
        rfl
      cases it with
      | field it =>
        exact ⟨_, s, ⟨rfl, hhead _ _ h⟩, .field, rfl,
          (reads_map ..).mpr ⟨it, (Laid.reads_iff ..).mpr h, rfl⟩⟩
      | constructor it =>
        exact ⟨_, s, ⟨rfl, hhead _ _ h⟩, .constructor, rfl,
          (reads_map ..).mpr ⟨it, (Laid.reads_iff ..).mpr h, rfl⟩⟩
      | procedure it =>
        exact ⟨_, s, ⟨rfl, hhead _ _ h⟩, .procedure, rfl,
          (reads_map ..).mpr ⟨it, (Laid.reads_iff ..).mpr h, rfl⟩⟩
      | redirectingFactory it =>
        exact ⟨_, s, ⟨rfl, hhead _ _ h⟩, .redirectingFactory, rfl,
          (reads_map ..).mpr ⟨it, (Laid.reads_iff ..).mpr h, rfl⟩⟩

instance : Laid g combinator NodeLayout.combinator := by
  apply Laid.of_gives
  intro spelling depth s it r
  cases it
  simp [combinator, NodeLayout.combinator, and_assoc]

instance : Laid g dependency NodeLayout.dependency := by
  apply Laid.of_gives
  intro spelling depth s it r
  cases it
  simp [dependency, NodeLayout.dependency, and_assoc]

instance : Laid g part NodeLayout.part := by
  apply Laid.of_gives
  intro spelling depth s it r
  cases it
  simp [part, NodeLayout.part, and_assoc]

instance : Laid g typeAlias NodeLayout.typeAlias := by
  apply Laid.of_gives
  intro spelling depth s it r
  cases it
  simp [typeAlias, NodeLayout.typeAlias, and_assoc]

instance : Laid g libraryHead NodeLayout.libraryHead := by
  apply Laid.of_gives
  intro spelling depth s it r
  cases it
  simp [libraryHead, NodeLayout.libraryHead, and_assoc]

instance : Laid g (classBody session.conventions) (NodeLayout.classBody session) := by
  apply Laid.of_gives
  intro spelling depth s it r
  cases it
  simp [classBody, NodeLayout.classBody, NodeLayout.classHead, and_assoc]

end NodeDecoder
end DartKernel
