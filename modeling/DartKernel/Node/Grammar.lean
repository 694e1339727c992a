import DartKernel.Node.Kind
import DartKernel.Session

namespace DartKernel

abbrev NodeDecoder := Decoder NodeSort.Tree

namespace LogicalOperator

def ofCode (code : UInt8) : Except Fault LogicalOperator :=
  match code.toNat with
  | 0 => .ok .and
  | 1 => .ok .or
  | _ => .error (.format (.unknownCode .logicalOperator code))

end LogicalOperator

namespace AsyncMarker

def ofCode (code : UInt8) : Except Fault AsyncMarker :=
  match code.toNat with
  | 0 => .ok .sync
  | 1 => .ok .syncStar
  | 2 => .ok .async
  | 3 => .ok .asyncStar
  | 4 => .ok .syncYielding
  | _ => .error (.format (.unknownCode .asyncMarker code))

end AsyncMarker

namespace NodeDecoder
open Decoder

def ref {target : Target} : NodeDecoder (Ref target) := Ref.mk <$> uint

def offset : NodeDecoder FileOffset := FileOffset.ofBiased <$> uint

def flags {φ : Type} : NodeDecoder (Flags φ) := Flags.mk <$> byte

def double : NodeDecoder Double := Double.mk <$> Decoder.double

def coded (ofCode : UInt8 → Except Fault α) : NodeDecoder α := do ofExcept (ofCode (← byte))

/-- A member name. A library follows exactly when the text makes the name private. -/
def name (c : Conventions) : NodeDecoder Name := do
  let text ← ref
  if ← ofExcept (c.isPrivate text) then return ⟨text, some (← ref)⟩
  return ⟨text, none⟩

def expression : NodeDecoder Expression := tree NodeSort.expression

def statement : NodeDecoder Statement := tree NodeSort.statement

def type : NodeDecoder DartType := tree NodeSort.type

/-- What follows a tag byte, if it belongs to one of the kinds of a family. -/
def tagged [TaggedFamily κ] (family : NodeFamily) (fields : κ → NodeDecoder α) (tag : UInt8) :
    NodeDecoder α :=
  match TaggedFamily.ofTag? tag with
  | some kind => fields kind
  | none => fail (.unknownTag family tag)

def typeParameter : NodeDecoder TypeParameter :=
  .mk <$> flags <*> list expression <*> ref <*> type <*> option type

def variableDeclaration : NodeDecoder VariableDeclaration :=
  .mk <$> offset <*> offset <*> list expression <*> flags <*> ref <*> type <*> option expression

def functionNode : NodeDecoder FunctionNode := do
  checkTag Tag.function
  .mk <$> offset <*> offset <*> coded AsyncMarker.ofCode <*> coded AsyncMarker.ofCode
    <*> list typeParameter <*> uint <*> uint <*> list variableDeclaration
    <*> list variableDeclaration <*> type <*> option statement

def namedExpression : NodeDecoder NamedExpression := .mk <$> ref <*> expression

/-- The number of arguments comes first and has to agree with the lists. -/
def arguments : NodeDecoder Arguments := do
  let declared ← uint
  let arguments ← .mk <$> list type <*> list expression <*> list namedExpression
  if declared.toNat ≠ arguments.count then
    fail (.format (.argumentCount declared arguments.count))
  return arguments

def mapEntry : NodeDecoder MapEntry := .mk <$> expression <*> expression

def namedType : NodeDecoder NamedType := .mk <$> ref <*> type

def aliasTypeFields : NodeDecoder AliasType := .mk <$> ref <*> list type

def aliasType : NodeDecoder AliasType := do
  checkTag TypeKind.typeAlias.tag
  aliasTypeFields

def assertStatement : NodeDecoder AssertStatement :=
  .mk <$> expression <*> offset <*> offset <*> option expression

def switchCase : NodeDecoder SwitchCase :=
  .mk <$> list (Prod.mk <$> offset <*> expression) <*> boolean <*> statement

def catchClause : NodeDecoder Catch :=
  .mk <$> offset <*> type <*> option variableDeclaration <*> option variableDeclaration
    <*> statement

def typeFields : TypeKind → NodeDecoder DartType
  | .invalid => return .invalid
  | .dynamic => return .dynamic
  | .void => return .void
  | .interface => .interface <$> (.mk <$> ref <*> list type)
  | .simpleInterface => .simpleInterface <$> ref
  | .function => .function <$> (.mk <$> list typeParameter <*> uint <*> uint <*> list type
      <*> list namedType <*> ref <*> type)
  | .simpleFunction => .simpleFunction <$> list type <*> type
  | .typeParameter => .typeParameter <$> uint <*> option type
  | .typeAlias => .typeAlias <$> aliasTypeFields

def statementFields : StatementKind → NodeDecoder Statement
  | .expression => .expression <$> expression
  | .block => .block <$> list statement
  | .empty => return .empty
  | .assertion => .assertion <$> assertStatement
  | .assertBlock => .assertBlock <$> list statement
  | .labeled => .labeled <$> statement
  | .breakTo => .breakTo <$> offset <*> uint
  | .whileLoop => .whileLoop <$> offset <*> expression <*> statement
  | .doLoop => .doLoop <$> offset <*> statement <*> expression
  | .forLoop => .forLoop <$> offset <*> list variableDeclaration <*> option expression
      <*> list expression <*> statement
  | .forInLoop isAsync => .forInLoop isAsync <$> offset <*> offset <*> variableDeclaration
      <*> expression <*> statement
  | .switch => .switch <$> offset <*> expression <*> list switchCase
  | .continueSwitch => .continueSwitch <$> offset <*> uint
  | .ifElse => .ifElse <$> offset <*> expression <*> statement <*> statement
  | .returnValue => .returnValue <$> offset <*> option expression
  | .tryCatch => .tryCatch <$> statement <*> flags <*> list catchClause
  | .tryFinally => .tryFinally <$> statement <*> statement
  | .yieldValue => .yieldValue <$> offset <*> flags <*> expression
  | .declareVariable => .declareVariable <$> variableDeclaration
  | .declareFunction => .declareFunction <$> offset <*> variableDeclaration <*> functionNode

def expressionFields (c : Conventions) : ExpressionKind → NodeDecoder Expression
  | .invalid => .invalid <$> offset <*> ref
  | .variableGet => .variableGet <$> offset <*> uint <*> ref <*> option type
  | .shortVariableGet slot => .shortVariableGet slot <$> offset <*> uint
  | .variableSet => .variableSet <$> offset <*> uint <*> ref <*> expression
  | .shortVariableSet slot => .shortVariableSet slot <$> offset <*> uint <*> expression
  | .propertyGet => .propertyGet <$> offset <*> expression <*> name c <*> ref
  | .propertySet => .propertySet <$> offset <*> expression <*> name c <*> expression <*> ref
  | .directPropertyGet => .directPropertyGet <$> offset <*> expression <*> ref
  | .directPropertySet => .directPropertySet <$> offset <*> expression <*> ref <*> expression
  | .superPropertyGet => .superPropertyGet <$> offset <*> name c <*> ref
  | .superPropertySet => .superPropertySet <$> offset <*> name c <*> expression <*> ref
  | .staticGet => .staticGet <$> offset <*> ref
  | .staticSet => .staticSet <$> offset <*> ref <*> expression
  | .methodInvocation =>
    .methodInvocation <$> offset <*> expression <*> name c <*> arguments <*> ref
  | .superMethodInvocation => .superMethodInvocation <$> offset <*> name c <*> arguments <*> ref
  | .directMethodInvocation =>
    .directMethodInvocation <$> offset <*> expression <*> ref <*> arguments
  | .staticInvocation isConst => .staticInvocation isConst <$> offset <*> ref <*> arguments
  | .constructorInvocation isConst =>
    .constructorInvocation isConst <$> offset <*> ref <*> arguments
  | .not => .not <$> expression
  | .logical => .logical <$> expression <*> coded LogicalOperator.ofCode <*> expression
  | .conditional => .conditional <$> expression <*> expression <*> expression <*> option type
  | .stringConcatenation => .stringConcatenation <$> offset <*> list expression
  | .is => .is <$> offset <*> expression <*> type
  | .as => .as <$> offset <*> flags <*> expression <*> type
  | .stringLiteral => .stringLiteral <$> ref
  | .smallIntLiteral biased => return .smallIntLiteral biased
  | .positiveIntLiteral => .positiveIntLiteral <$> uint
  | .negativeIntLiteral => .negativeIntLiteral <$> uint
  | .bigIntLiteral => .bigIntLiteral <$> ref
  | .doubleLiteral => .doubleLiteral <$> double
  | .boolLiteral value => return .boolLiteral value
  | .nullLiteral => return .nullLiteral
  | .symbolLiteral => .symbolLiteral <$> ref
  | .typeLiteral => .typeLiteral <$> type
  | .this => return .this
  | .rethrow => .rethrow <$> offset
  | .throw => .throw <$> offset <*> expression
  | .listLiteral isConst => .listLiteral isConst <$> offset <*> type <*> list expression
  | .setLiteral isConst => .setLiteral isConst <$> offset <*> type <*> list expression
  | .mapLiteral isConst => .mapLiteral isConst <$> offset <*> type <*> type <*> list mapEntry
  | .await => .await <$> expression
  | .function => .function <$> offset <*> functionNode
  | .letIn => .letIn <$> variableDeclaration <*> expression
  | .instantiation => .instantiation <$> expression <*> list type
  | .checkLibraryIsLoaded => .checkLibraryIsLoaded <$> ref
  | .loadLibrary => .loadLibrary <$> ref
  | .constant => .constant <$> ref

end NodeDecoder

/-- What follows the tag of an expression, a statement or a type. -/
def grammar (c : Conventions) : Grammar NodeSort.Tree
  | .expression => NodeDecoder.tagged .expression (NodeDecoder.expressionFields c)
  | .statement => NodeDecoder.tagged .statement NodeDecoder.statementFields
  | .type => NodeDecoder.tagged .dartType NodeDecoder.typeFields

def NodeDecoder.scan (c : Conventions) (decoder : NodeDecoder α) : Scan α :=
  decoder.run (grammar c)

end DartKernel
