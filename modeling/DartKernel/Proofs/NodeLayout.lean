import DartKernel.Declaration.Library
import DartKernel.Node.Constant
import DartKernel.Proofs.Layout

namespace DartKernel

def LogicalOperator.code : LogicalOperator → UInt8
  | .and => 0
  | .or => 1

def AsyncMarker.code : AsyncMarker → UInt8
  | .sync => 0
  | .syncStar => 1
  | .async => 2
  | .asyncStar => 3
  | .syncYielding => 4

def ProcedureKind.code : ProcedureKind → UInt8
  | .method => 0
  | .getter => 1
  | .setter => 2
  | .operator => 3
  | .factory => 4

def Initializer.kind : Initializer → InitializerKind
  | .invalid .. => .invalid
  | .field .. => .field
  | .super .. => .super
  | .redirecting .. => .redirecting
  | .declaration .. => .declaration
  | .assertion .. => .assertion

/-- A position as a number on the wire: zero for none, else one more than it counts. -/
def FileOffset.biased (offset : FileOffset) : Nat :=
  match offset.position? with
  | none => 0
  | some position => position.toNat + 1

abbrev NodeLayout := Layout NodeSort.Tree

namespace NodeLayout
open Layout

def ref {target : Target} (r : Ref target) : NodeLayout := uint r.raw.toNat

def offset (o : FileOffset) : NodeLayout := uint o.biased

def flags {φ : Type} (f : Flags φ) : NodeLayout := byte f.bits

def double (d : Double) : NodeLayout := bytes (doubleBytes d.bits)

def name (session : Session) (n : Name) : NodeLayout :=
  [.token (.name session.strings n)] ++ ref n.text ++ n.library.elim [] ref

def expression (e : Expression) : NodeLayout := tree NodeSort.expression e

def statement (s : Statement) : NodeLayout := tree NodeSort.statement s

def type (t : DartType) : NodeLayout := tree NodeSort.type t

def typeParameter (it : TypeParameter) : NodeLayout :=
  node (flags it.flags ++ list expression it.annotations ++ ref it.name ++ type it.bound
      ++ option type it.defaultType)

def variableDeclaration (it : VariableDeclaration) : NodeLayout :=
  node (offset it.offset ++ offset it.equalsOffset ++ list expression it.annotations
      ++ flags it.flags ++ ref it.name ++ type it.type ++ option expression it.initializer)

def functionNode (it : FunctionNode) : NodeLayout :=
  tagged Tag.function
    (offset it.offset ++ offset it.endOffset ++ byte it.asyncMarker.code
      ++ byte it.sourceAsyncMarker.code ++ list typeParameter it.typeParameters
      ++ uint it.parameterCount.toNat ++ uint it.requiredParameterCount.toNat
      ++ list variableDeclaration it.positionalParameters
      ++ list variableDeclaration it.namedParameters ++ type it.returnType
      ++ option statement it.body)

def namedExpression (it : NamedExpression) : NodeLayout :=
  node (ref it.name ++ expression it.value)

def arguments (it : Arguments) : NodeLayout :=
  uint it.count ++ list type it.types ++ list expression it.positional
    ++ list namedExpression it.named

def mapEntry (it : MapEntry) : NodeLayout := expression it.key ++ expression it.value

def namedType (it : NamedType) : NodeLayout := ref it.name ++ type it.type

def interfaceType (it : InterfaceType) : NodeLayout :=
  ref it.classRef ++ list type it.typeArguments

def functionType (it : FunctionType) : NodeLayout :=
  list typeParameter it.typeParameters ++ uint it.requiredParameterCount.toNat
    ++ uint it.totalParameterCount.toNat ++ list type it.positionalParameters
    ++ list namedType it.namedParameters ++ ref it.typeAlias ++ type it.returnType

def aliasType (it : AliasType) : NodeLayout := ref it.typeAlias ++ list type it.typeArguments

def assertStatement (it : AssertStatement) : NodeLayout :=
  expression it.condition ++ offset it.conditionStart ++ offset it.conditionEnd
    ++ option expression it.message

def switchCase (it : SwitchCase) : NodeLayout :=
  list (fun label => offset label.1 ++ expression label.2) it.labels ++ boolean it.isDefault
    ++ statement it.body

def catchClause (it : Catch) : NodeLayout :=
  offset it.offset ++ type it.guard ++ option variableDeclaration it.exception
    ++ option variableDeclaration it.stackTrace ++ statement it.body

def typeFields : DartType → NodeLayout
  | .invalid | .dynamic | .void => []
  | .interface it => interfaceType it
  | .simpleInterface classRef => ref classRef
  | .function it => functionType it
  | .simpleFunction positional result => list type positional ++ type result
  | .typeParameter index bound => uint index.toNat ++ option type bound
  | .typeAlias it => aliasType it

def statementFields : Statement → NodeLayout
  | .expression value => expression value
  | .block statements => list statement statements
  | .empty => []
  | .assertion it => assertStatement it
  | .assertBlock statements => list statement statements
  | .labeled body => statement body
  | .breakTo place label => offset place ++ uint label.toNat
  | .whileLoop place condition body => offset place ++ expression condition ++ statement body
  | .doLoop place body condition => offset place ++ statement body ++ expression condition
  | .forLoop place bindings condition updates body =>
    offset place ++ list variableDeclaration bindings ++ option expression condition
      ++ list expression updates ++ statement body
  | .forInLoop _ place bodyOffset binding iterable body =>
    offset place ++ offset bodyOffset ++ variableDeclaration binding ++ expression iterable
      ++ statement body
  | .switch place value cases => offset place ++ expression value ++ list switchCase cases
  | .continueSwitch place label => offset place ++ uint label.toNat
  | .ifElse place condition ifTrue ifFalse =>
    offset place ++ expression condition ++ statement ifTrue ++ statement ifFalse
  | .returnValue place value => offset place ++ option expression value
  | .tryCatch body it catches => statement body ++ flags it ++ list catchClause catches
  | .tryFinally body finalizer => statement body ++ statement finalizer
  | .yieldValue place it value => offset place ++ flags it ++ expression value
  | .declareVariable binding => variableDeclaration binding
  | .declareFunction place binding function =>
    offset place ++ variableDeclaration binding ++ functionNode function

def expressionFields (session : Session) : Expression → NodeLayout
  | .invalid place message => offset place ++ ref message
  | .variableGet place declaration slot promoted =>
    offset place ++ uint declaration.toNat ++ ref slot ++ option type promoted
  | .shortVariableGet _ place declaration => offset place ++ uint declaration.toNat
  | .variableSet place declaration slot value =>
    offset place ++ uint declaration.toNat ++ ref slot ++ expression value
  | .shortVariableSet _ place declaration value =>
    offset place ++ uint declaration.toNat ++ expression value
  | .propertyGet place receiver it target =>
    offset place ++ expression receiver ++ name session it ++ ref target
  | .propertySet place receiver it value target =>
    offset place ++ expression receiver ++ name session it ++ expression value ++ ref target
  | .directPropertyGet place receiver target => offset place ++ expression receiver ++ ref target
  | .directPropertySet place receiver target value =>
    offset place ++ expression receiver ++ ref target ++ expression value
  | .superPropertyGet place it target => offset place ++ name session it ++ ref target
  | .superPropertySet place it value target =>
    offset place ++ name session it ++ expression value ++ ref target
  | .staticGet place target => offset place ++ ref target
  | .staticSet place target value => offset place ++ ref target ++ expression value
  | .methodInvocation place receiver it args target =>
    offset place ++ expression receiver ++ name session it ++ arguments args ++ ref target
  | .superMethodInvocation place it args target =>
    offset place ++ name session it ++ arguments args ++ ref target
  | .directMethodInvocation place receiver target args =>
    offset place ++ expression receiver ++ ref target ++ arguments args
  | .staticInvocation _ place target args => offset place ++ ref target ++ arguments args
  | .constructorInvocation _ place target args => offset place ++ ref target ++ arguments args
  | .not operand => expression operand
  | .logical left operator right => expression left ++ byte operator.code ++ expression right
  | .conditional condition ifTrue ifFalse staticType =>
    expression condition ++ expression ifTrue ++ expression ifFalse ++ option type staticType
  | .stringConcatenation place parts => offset place ++ list expression parts
  | .is place operand it => offset place ++ expression operand ++ type it
  | .as place bits operand it => offset place ++ flags bits ++ expression operand ++ type it
  | .stringLiteral text => ref text
  | .smallIntLiteral _ => []
  | .positiveIntLiteral value => uint value.toNat
  | .negativeIntLiteral absolute => uint absolute.toNat
  | .bigIntLiteral digits => ref digits
  | .doubleLiteral value => double value
  | .boolLiteral _ => []
  | .nullLiteral => []
  | .symbolLiteral text => ref text
  | .typeLiteral it => type it
  | .this => []
  | .rethrow place => offset place
  | .throw place value => offset place ++ expression value
  | .listLiteral _ place typeArgument elements =>
    offset place ++ type typeArgument ++ list expression elements
  | .setLiteral _ place typeArgument elements =>
    offset place ++ type typeArgument ++ list expression elements
  | .mapLiteral _ place keyType valueType entries =>
    offset place ++ type keyType ++ type valueType ++ list mapEntry entries
  | .await operand => expression operand
  | .function place function => offset place ++ functionNode function
  | .letIn binding body => variableDeclaration binding ++ expression body
  | .instantiation value typeArguments => expression value ++ list type typeArguments
  | .checkLibraryIsLoaded dependency => ref dependency
  | .loadLibrary dependency => ref dependency
  | .constant value => ref value

/-- The byte a tree starts with. -/
def tagOf : (sort : NodeSort) → sort.Tree → UInt8
  | .expression, e => e.tag
  | .statement, s => s.tag
  | .type, t => t.tag

def fieldsOf (session : Session) : (sort : NodeSort) → sort.Tree → NodeLayout
  | .expression, e => expressionFields session e
  | .statement, s => statementFields s
  | .type, t => typeFields t

def treeNode (session : Session) (sort : NodeSort) (t : sort.Tree) : NodeLayout :=
  tagged (tagOf sort t) (fieldsOf session sort t)

def constantFields : Constant → NodeLayout
  | .null => []
  | .bool value => boolean value
  | .int literal => require literal.isIntLiteral ++ expression literal
  | .double value => double value
  | .string text => ref text
  | .symbol library text => ref library ++ ref text
  | .map keyType valueType entries =>
    type keyType ++ type valueType ++ list (fun entry => ref entry.1 ++ ref entry.2) entries
  | .list elementType entries => type elementType ++ list ref entries
  | .instanceOf classRef typeArguments fields =>
    ref classRef ++ list type typeArguments
      ++ list (fun field => ref field.1 ++ ref field.2) fields
  | .partialInstantiation tearOff typeArguments => ref tearOff ++ list type typeArguments
  | .tearOff procedure => ref procedure
  | .typeLiteral it => type it
  | .environmentBool text default => ref text ++ ref default
  | .environmentInt text default => ref text ++ ref default
  | .environmentString text default => ref text ++ ref default
  | .unevaluated value => expression value

def constant (it : Constant) : NodeLayout := tagged it.tag (constantFields it)

/-- What follows the tag of an initializer. Where the format has no room to say so, an assert is
not synthetic. -/
def initializerFields (session : Session) : Initializer → NodeLayout
  | .invalid isSynthetic => boolean isSynthetic
  | .field isSynthetic field value => boolean isSynthetic ++ ref field ++ expression value
  | .super isSynthetic place target args =>
    boolean isSynthetic ++ offset place ++ ref target ++ arguments args
  | .redirecting isSynthetic place target args =>
    boolean isSynthetic ++ offset place ++ ref target ++ arguments args
  | .declaration isSynthetic binding => boolean isSynthetic ++ variableDeclaration binding
  | .assertion isSynthetic it =>
    (if session.assertHasSynthetic then boolean isSynthetic else require (isSynthetic = false))
      ++ statement (.assertion it)

def initializer (session : Session) (it : Initializer) : NodeLayout :=
  tagged it.kind.tag (initializerFields session it)

def field (session : Session) (it : Field) : NodeLayout :=
  tagged Tag.field
    (ref it.canonicalName ++ ref it.fileUri ++ offset it.offset
      ++ offset it.endOffset ++ flags it.flags ++ name session it.name
      ++ list expression it.annotations ++ type it.type ++ option expression it.initializer)

def constructor (session : Session) (it : Constructor) : NodeLayout :=
  tagged Tag.constructor
    (ref it.canonicalName ++ ref it.fileUri ++ offset it.startOffset
      ++ offset it.offset ++ offset it.endOffset ++ flags it.flags ++ name session it.name
      ++ list expression it.annotations ++ functionNode it.function
      ++ list (initializer session) it.initializers)

def procedure (session : Session) (it : Procedure) : NodeLayout :=
  tagged Tag.procedure
    (ref it.canonicalName ++ ref it.fileUri ++ offset it.startOffset
      ++ offset it.offset ++ offset it.endOffset ++ byte it.kind.code ++ flags it.flags
      ++ name session it.name ++ list expression it.annotations
      ++ option ref it.forwardingStubSuperTarget ++ option ref it.forwardingStubInterfaceTarget
      ++ option functionNode it.function)

def redirectingFactory (session : Session) (it : RedirectingFactory) : NodeLayout :=
  tagged Tag.redirectingFactory
    (ref it.canonicalName ++ ref it.fileUri
      ++ offset it.offset ++ offset it.endOffset ++ flags it.flags ++ name session it.name
      ++ list expression it.annotations ++ ref it.target ++ list type it.typeArguments
      ++ list typeParameter it.typeParameters ++ uint it.parameterCount.toNat
      ++ uint it.requiredParameterCount.toNat
      ++ list variableDeclaration it.positionalParameters
      ++ list variableDeclaration it.namedParameters)

def member (session : Session) : Member → NodeLayout
  | .field it => field session it
  | .constructor it => constructor session it
  | .procedure it => procedure session it
  | .redirectingFactory it => redirectingFactory session it

def combinator (it : Combinator) : NodeLayout := lowBit it.isShow ++ list ref it.names

def dependency (it : LibraryDependency) : NodeLayout :=
  offset it.offset ++ flags it.flags ++ list expression it.annotations ++ ref it.targetLibrary
    ++ ref it.name ++ list combinator it.combinators

def part (it : LibraryPart) : NodeLayout := list expression it.annotations ++ ref it.uri

def typeAlias (it : TypeAlias) : NodeLayout :=
  ref it.canonicalName ++ ref it.fileUri ++ offset it.offset ++ ref it.name
    ++ list expression it.annotations ++ list typeParameter it.typeParameters ++ type it.type
    ++ list typeParameter it.typeParametersOfFunctionType
    ++ list variableDeclaration it.positionalParameters
    ++ list variableDeclaration it.namedParameters

def libraryHead (it : LibraryHead) : NodeLayout :=
  flags it.flags ++ ref it.canonicalName ++ ref it.name ++ ref it.fileUri
    ++ list expression it.annotations ++ list dependency it.dependencies
    ++ list ref it.additionalExports ++ list part it.parts ++ list typeAlias it.typeAliases

def classHead (session : Session) (it : Class) : NodeLayout :=
  tagged Tag.classes
    (ref it.canonicalName ++ ref it.fileUri ++ offset it.startOffset ++ offset it.offset
      ++ offset it.endOffset ++ flags it.flags ++ ref it.name ++ list expression it.annotations
      ++ list typeParameter it.typeParameters ++ option type it.superClass
      ++ option type it.mixedInType ++ list type it.implementedClasses
      ++ list (field session) it.fields ++ list (constructor session) it.constructors)

def classBody (session : Session) (it : Class) : NodeLayout :=
  classHead session it ++ list (procedure session) it.procedures
    ++ list (redirectingFactory session) it.redirectingFactories
    ++ require (it.procedureOffsets = none)

end NodeLayout
end DartKernel
