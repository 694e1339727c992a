import DartKernel.Proofs.NodeTokens
import DartKernel.Proofs.Taken

namespace DartKernel

inductive Fragment where
  | expression | statement | type | constant | initializer | member
  | functionNode | variableDeclaration | typeParameter | namedExpression | arguments
  | switchCase | catchClause
  | field | constructor | procedure | redirectingFactory
  | combinator | dependency | part | typeAlias
  deriving DecidableEq, Repr

namespace Fragment
open Decoder

@[reducible]
def Value : Fragment → Type
  | .expression => Expression
  | .statement => Statement
  | .type => DartType
  | .constant => Constant
  | .initializer => Initializer
  | .member => Member
  | .functionNode => FunctionNode
  | .variableDeclaration => VariableDeclaration
  | .typeParameter => TypeParameter
  | .namedExpression => NamedExpression
  | .arguments => Arguments
  | .switchCase => SwitchCase
  | .catchClause => Catch
  | .field => Field
  | .constructor => Constructor
  | .procedure => Procedure
  | .redirectingFactory => RedirectingFactory
  | .combinator => Combinator
  | .dependency => LibraryDependency
  | .part => LibraryPart
  | .typeAlias => TypeAlias

def decoder (c : Conventions) : (fragment : Fragment) → NodeDecoder fragment.Value
  | .expression => NodeDecoder.expression
  | .statement => NodeDecoder.statement
  | .type => NodeDecoder.type
  | .constant => NodeDecoder.constant
  | .initializer => NodeDecoder.initializer c
  | .member => NodeDecoder.member c
  | .functionNode => NodeDecoder.functionNode
  | .variableDeclaration => NodeDecoder.variableDeclaration
  | .typeParameter => NodeDecoder.typeParameter
  | .namedExpression => NodeDecoder.namedExpression
  | .arguments => NodeDecoder.arguments
  | .switchCase => NodeDecoder.switchCase
  | .catchClause => NodeDecoder.catchClause
  | .field => NodeDecoder.field c
  | .constructor => NodeDecoder.constructor c
  | .procedure => NodeDecoder.procedure c
  | .redirectingFactory => NodeDecoder.redirectingFactory c
  | .combinator => NodeDecoder.combinator
  | .dependency => NodeDecoder.dependency
  | .part => NodeDecoder.part
  | .typeAlias => NodeDecoder.typeAlias

def layout (session : Session) : (fragment : Fragment) → fragment.Value → NodeLayout
  | .expression => NodeLayout.expression
  | .statement => NodeLayout.statement
  | .type => NodeLayout.type
  | .constant => NodeLayout.constant
  | .initializer => NodeLayout.initializer session
  | .member => NodeLayout.member session
  | .functionNode => NodeLayout.functionNode
  | .variableDeclaration => NodeLayout.variableDeclaration
  | .typeParameter => NodeLayout.typeParameter
  | .namedExpression => NodeLayout.namedExpression
  | .arguments => NodeLayout.arguments
  | .switchCase => NodeLayout.switchCase
  | .catchClause => NodeLayout.catchClause
  | .field => NodeLayout.field session
  | .constructor => NodeLayout.constructor session
  | .procedure => NodeLayout.procedure session
  | .redirectingFactory => NodeLayout.redirectingFactory session
  | .combinator => NodeLayout.combinator
  | .dependency => NodeLayout.dependency
  | .part => NodeLayout.part
  | .typeAlias => NodeLayout.typeAlias

variable (session : Session) (fragment : Fragment)

instance : Laid (grammar session.conventions) (fragment.decoder session.conventions)
    (fragment.layout session) := by
  cases fragment <;> simp only [decoder, layout] <;> infer_instance

def scan : Scan fragment.Value := (fragment.decoder session.conventions).scan session.conventions

/-- What a read takes for integers and truth values. -/
def taken (w : Window) : List Taken :=
  Decoder.taken (grammar session.conventions) (fragment.decoder session.conventions) w

def tokens (v : fragment.Value) : List Token :=
  (fragment.layout session v).tokens (NodeLayout.treeTokens session)

/-- The bytes of a fragment: fields in the order of the wire, integers in their shortest tier,
truth values as zero or one. -/
def write (v : fragment.Value) : List UInt8 := Token.writeAll (fragment.tokens session v)

/-- A fragment that can be written: its integers have a tier that holds them, its names follow the
rule on private names, integer constants hold integer literals, and an assert is synthetic only
where the format has room to say so. -/
def WellFormed (v : fragment.Value) : Prop := ∀ token ∈ fragment.tokens session v, token.Fits

variable {session fragment}

theorem scan_of_wellFormed {v : fragment.Value} (hv : fragment.WellFormed session v) {w : Window}
    {rest : List UInt8} (hw : w.rest = fragment.write session v ++ rest) :
    fragment.scan session w = .ok v (w.advance (fragment.write session v).length) :=
  run_of_fits (NodeLayout.written session) hv hw

/-- Reading undoes writing, whatever follows. -/
theorem scan_write {v : fragment.Value} (hv : fragment.WellFormed session v) {w : Window}
    {rest : List UInt8} (hw : w.rest = fragment.write session v ++ rest) :
    ∃ w', fragment.scan session w = .ok v w' ∧
      w' = w.advance (fragment.write session v).length ∧
      w'.position = w.position + (fragment.write session v).length ∧ w'.rest = rest := by
  have hlen := w.length_rest
  rw [hw, List.length_append] at hlen
  have hc := w.cursor
  refine ⟨_, scan_of_wellFormed hv hw, rfl, ?_, ?_⟩
  · simp only [Window.advance, Window.remaining] at *
    omega
  · rw [Window.rest_advance, hw, List.drop_left]

/-- A private name is written with its library, which the reader looks for again. -/
theorem scan_write_private :
    let session : Session := ⟨.ofList ["_x"], .ofList [], {}, .baseline⟩
    let e : Expression := .superPropertyGet ⟨none⟩ ⟨⟨1⟩, some ⟨2⟩⟩ ⟨3⟩
    let w := Window.ofBytes ⟨#[24, 0, 1, 2, 3, 9]⟩
    ∃ w', Fragment.expression.scan session w = .ok e w' ∧ w'.position = 5 ∧ w'.rest = [9] := by
  intro session e w
  have htokens : Fragment.expression.tokens session e =
      [.node, .byte 24, .uint 0, .name session.strings ⟨⟨1⟩, some ⟨2⟩⟩, .uint 1, .uint 2,
        .uint 3] := by
    simp [tokens, layout, NodeLayout.expression, Layout.tree, Layout.tokens, Item.tokens,
      NodeLayout.treeTokens_eq, NodeLayout.tagOf, NodeLayout.fieldsOf, NodeLayout.expressionFields,
      NodeLayout.name, NodeLayout.ref, NodeLayout.offset, Layout.uint, e]
    exact ⟨rfl, rfl⟩
  have hfollows : Name.Follows session.strings ⟨⟨1⟩, some ⟨2⟩⟩ :=
    ⟨some "_x", rfl, by simp; rfl⟩
  have hwrite : Fragment.expression.write session e = [24, 0, 1, 2, 3] := by
    rw [write, htokens]
    rfl
  have hv : Fragment.expression.WellFormed session e := by
    rw [WellFormed, htokens]
    simp [Token.Fits, hfollows, Uint.limit, Uint.Tier.limit]
  have hw : w.rest = Fragment.expression.write session e ++ [9] := by
    rw [hwrite]
    rfl
  obtain ⟨w', hscan, -, hposition, hrest⟩ := scan_write hv hw
  rw [hwrite] at hposition
  exact ⟨w', hscan, hposition, hrest⟩

/-- Writing undoes reading: nothing that was read is lost, and the bytes themselves come back when
each integer and each truth value among them is spelled plainly. -/
theorem write_scan {v : fragment.Value} {w w' : Window} (h : fragment.scan session w = .ok v w') :
    ∃ bytes, w.rest = bytes ++ w'.rest ∧ w' = w.advance bytes.length ∧
      fragment.WellFormed session v ∧ (fragment.write session v).length ≤ bytes.length ∧
      (∀ {u : Window} {rest : List UInt8}, u.rest = fragment.write session v ++ rest →
        ∃ u', fragment.scan session u = .ok v u' ∧ u'.rest = rest) ∧
      ((∀ x ∈ fragment.taken session w, x.IsPlain) → fragment.write session v = bytes) := by
  obtain ⟨n, hn, hw', htokens⟩ := tokens_of_run (NodeLayout.written session) h
  have hv : fragment.WellFormed session v := Token.fits_of_many htokens
  have hrest : w'.rest = w.rest.drop n := by rw [hw', Window.rest_advance]
  have hlen : (w.rest.take n).length = n := by
    rw [List.length_take, w.length_rest]
    omega
  have hbytes : w.rest = w.rest.take n ++ w'.rest := by
    rw [hrest, List.take_append_drop]
  refine ⟨w.rest.take n, hbytes, ?_, hv, ?_, ?_, ?_⟩
  · rw [hlen]
    exact hw'
  · have hle : (fragment.write session v).length + _ ≤ _ := Token.length_writeAll_le htokens
    have hdrop : (w.rest.drop n).length = w.rest.length - n := List.length_drop
    have hall := w.length_rest
    rw [hlen]
    omega
  · intro u rest hu
    refine ⟨_, scan_of_wellFormed hv hu, ?_⟩
    rw [Window.rest_advance, hu, List.drop_left]
  · intro hplain
    have hreads := (reads_iff_tokens (NodeLayout.written session)
      (Nat.le_of_eq w.length_rest)).mp (run_plain h hplain)
    have hwrite := ((Token.many_plain_iff ..).mp hreads).2
    exact List.append_cancel_right (hwrite.symm.trans hbytes)

/-- An integer that is spelled in a longer tier than it needs. -/
theorem write_scan_longTier :
    Fragment.expression.scan ⟨.ofList [], .ofList [], {}, .baseline⟩
        (Window.ofBytes ⟨#[55, 0x80, 5, 9]⟩) =
      .ok (.positiveIntLiteral 5) ((Window.ofBytes ⟨#[55, 0x80, 5, 9]⟩).advance 3) ∧
    ∃ bytes, (Window.ofBytes ⟨#[55, 0x80, 5, 9]⟩).rest = bytes ++ [9] ∧
      (Fragment.expression.write ⟨.ofList [], .ofList [], {}, .baseline⟩
        (.positiveIntLiteral 5)).length ≤ bytes.length := by
  have h : Fragment.expression.scan ⟨.ofList [], .ofList [], {}, .baseline⟩
      (Window.ofBytes ⟨#[55, 0x80, 5, 9]⟩) =
    .ok (.positiveIntLiteral 5) ((Window.ofBytes ⟨#[55, 0x80, 5, 9]⟩).advance 3) := rfl
  obtain ⟨bytes, hbytes, -, -, hle, -⟩ := write_scan h
  exact ⟨h, bytes, hbytes, hle⟩

end Fragment
end DartKernel
