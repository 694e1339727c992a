import DartKernel.Declaration.Library
import DartKernel.Node.Constant

namespace DartKernel

/-- Anything in a component that member names occur in. -/
inductive Node where
  | expression (it : Expression)
  | statement (it : Statement)
  | type (it : DartType)
  | typeParameter (it : TypeParameter)
  | binding (it : VariableDeclaration)
  | function (it : FunctionNode)
  | arguments (it : Arguments)
  | functionType (it : FunctionType)
  | assertion (it : AssertStatement)
  | switchCase (it : SwitchCase)
  | catchClause (it : Catch)
  | constant (it : Constant)
  | initializer (it : Initializer)
  | field (it : Field)
  | constructor (it : Constructor)
  | procedure (it : Procedure)
  | redirectingFactory (it : RedirectingFactory)
  | dependency (it : LibraryDependency)
  | part (it : LibraryPart)
  | typeAlias (it : TypeAlias)
  | classes (it : Class)
  | library (it : Library)

namespace Node

def ofMember : Member → Node
  | .field it => .field it
  | .constructor it => .constructor it
  | .procedure it => .procedure it
  | .redirectingFactory it => .redirectingFactory it

def ofType : DartType → List Node
  | .invalid | .dynamic | .void | .simpleInterface _ => []
  | .interface it => it.typeArguments.map .type
  | .function it => [.functionType it]
  | .simpleFunction positional result => positional.map .type ++ [.type result]
  | .typeParameter _ bound => bound.toList.map .type
  | .typeAlias it => it.typeArguments.map .type

def ofStatement : Statement → List Node
  | .expression value => [.expression value]
  | .block statements | .assertBlock statements => statements.map .statement
  | .empty | .breakTo .. | .continueSwitch .. => []
  | .assertion it => [.assertion it]
  | .labeled body => [.statement body]
  | .whileLoop _ condition body | .doLoop _ body condition =>
    [.expression condition, .statement body]
  | .forLoop _ bindings condition updates body =>
    bindings.map .binding ++ condition.toList.map .expression ++ updates.map .expression
      ++ [.statement body]
  | .forInLoop _ _ _ declared iterable body =>
    [.binding declared, .expression iterable, .statement body]
  | .switch _ value cases => .expression value :: cases.map .switchCase
  | .ifElse _ condition ifTrue ifFalse =>
    [.expression condition, .statement ifTrue, .statement ifFalse]
  | .returnValue _ value => value.toList.map .expression
  | .tryCatch body _ catches => .statement body :: catches.map .catchClause
  | .tryFinally body finalizer => [.statement body, .statement finalizer]
  | .yieldValue _ _ value => [.expression value]
  | .declareVariable declared => [.binding declared]
  | .declareFunction _ declared body => [.binding declared, .function body]

def ofExpression : Expression → List Node
  | .invalid .. | .shortVariableGet .. | .superPropertyGet .. | .staticGet .. | .stringLiteral _
  | .smallIntLiteral _ | .positiveIntLiteral _ | .negativeIntLiteral _ | .bigIntLiteral _
  | .doubleLiteral _ | .boolLiteral _ | .nullLiteral | .symbolLiteral _ | .this | .rethrow _
  | .checkLibraryIsLoaded _ | .loadLibrary _ | .constant _ => []
  | .variableGet _ _ _ promotedType => promotedType.toList.map .type
  | .variableSet _ _ _ value | .shortVariableSet _ _ _ value | .superPropertySet _ _ value _
  | .staticSet _ _ value | .throw _ value => [.expression value]
  | .propertyGet _ receiver _ _ | .directPropertyGet _ receiver _ => [.expression receiver]
  | .propertySet _ receiver _ value _ | .directPropertySet _ receiver _ value =>
    [.expression receiver, .expression value]
  | .methodInvocation _ receiver _ args _ | .directMethodInvocation _ receiver _ args =>
    [.expression receiver, .arguments args]
  | .superMethodInvocation _ _ args _ | .staticInvocation _ _ _ args
  | .constructorInvocation _ _ _ args => [.arguments args]
  | .not operand | .await operand => [.expression operand]
  | .logical left _ right => [.expression left, .expression right]
  | .conditional condition ifTrue ifFalse staticType =>
    [.expression condition, .expression ifTrue, .expression ifFalse]
      ++ staticType.toList.map .type
  | .stringConcatenation _ parts => parts.map .expression
  | .is _ operand it | .as _ _ operand it => [.expression operand, .type it]
  | .typeLiteral it => [.type it]
  | .listLiteral _ _ typeArgument elements | .setLiteral _ _ typeArgument elements =>
    .type typeArgument :: elements.map .expression
  | .mapLiteral _ _ keyType valueType entries =>
    [.type keyType, .type valueType] ++ entries.map (.expression ·.key)
      ++ entries.map (.expression ·.value)
  | .function _ body => [.function body]
  | .letIn declared body => [.binding declared, .expression body]
  | .instantiation value typeArguments => .expression value :: typeArguments.map .type

def ofConstant : Constant → List Node
  | .int literal => [.expression literal]
  | .map keyType valueType _ => [.type keyType, .type valueType]
  | .list elementType _ => [.type elementType]
  | .instanceOf _ typeArguments _ | .partialInstantiation _ typeArguments =>
    typeArguments.map .type
  | .typeLiteral it => [.type it]
  | .unevaluated value => [.expression value]
  | .null | .bool _ | .double _ | .string _ | .symbol .. | .tearOff _ | .environmentBool ..
  | .environmentInt .. | .environmentString .. => []

def ofInitializer : Initializer → List Node
  | .invalid _ => []
  | .field _ _ value => [.expression value]
  | .super _ _ _ args | .redirecting _ _ _ args => [.arguments args]
  | .declaration _ declared => [.binding declared]
  | .assertion _ it => [.assertion it]

def children : Node → List Node
  | .expression it => ofExpression it
  | .statement it => ofStatement it
  | .type it => ofType it
  | .typeParameter it =>
    it.annotations.map .expression ++ [.type it.bound] ++ it.defaultType.toList.map .type
  | .binding it =>
    it.annotations.map .expression ++ [.type it.type] ++ it.initializer.toList.map .expression
  | .function it =>
    it.typeParameters.map .typeParameter ++ it.positionalParameters.map .binding
      ++ it.namedParameters.map .binding ++ [.type it.returnType]
      ++ it.body.toList.map .statement
  | .arguments it =>
    it.types.map .type ++ it.positional.map .expression ++ it.named.map (.expression ·.value)
  | .functionType it =>
    it.typeParameters.map .typeParameter ++ it.positionalParameters.map .type
      ++ it.namedParameters.map (.type ·.type) ++ [.type it.returnType]
  | .assertion it => .expression it.condition :: it.message.toList.map .expression
  | .switchCase it => it.labels.map (.expression ·.2) ++ [.statement it.body]
  | .catchClause it =>
    [.type it.guard] ++ it.exception.toList.map .binding ++ it.stackTrace.toList.map .binding
      ++ [.statement it.body]
  | .constant it => ofConstant it
  | .initializer it => ofInitializer it
  | .field it =>
    it.annotations.map .expression ++ [.type it.type] ++ it.initializer.toList.map .expression
  | .constructor it =>
    it.annotations.map .expression ++ [.function it.function]
      ++ it.initializers.map .initializer
  | .procedure it => it.annotations.map .expression ++ it.function.toList.map .function
  | .redirectingFactory it =>
    it.annotations.map .expression ++ it.typeArguments.map .type
      ++ it.typeParameters.map .typeParameter ++ it.positionalParameters.map .binding
      ++ it.namedParameters.map .binding
  | .dependency it => it.annotations.map .expression
  | .part it => it.annotations.map .expression
  | .typeAlias it =>
    it.annotations.map .expression ++ it.typeParameters.map .typeParameter ++ [.type it.type]
      ++ it.typeParametersOfFunctionType.map .typeParameter
      ++ it.positionalParameters.map .binding ++ it.namedParameters.map .binding
  | .classes it =>
    it.annotations.map .expression ++ it.typeParameters.map .typeParameter
      ++ it.superClass.toList.map .type ++ it.mixedInType.toList.map .type
      ++ it.implementedClasses.map .type ++ it.fields.map .field
      ++ it.constructors.map .constructor ++ it.procedures.map .procedure
      ++ it.redirectingFactories.map .redirectingFactory
  | .library it =>
    it.annotations.map .expression ++ it.dependencies.map .dependency ++ it.parts.map .part
      ++ it.typeAliases.map .typeAlias ++ it.classes.map .classes ++ it.fields.map .field
      ++ it.procedures.map .procedure

inductive Contains : Node → Node → Prop where
  | self {node : Node} : node.Contains node
  | within {node child inner : Node} : child ∈ node.children → child.Contains inner →
      node.Contains inner

/-- The member name of a node itself. -/
def name? : Node → Option Name
  | .expression (.propertyGet _ _ name _) | .expression (.propertySet _ _ name _ _)
  | .expression (.superPropertyGet _ name _) | .expression (.superPropertySet _ name _ _)
  | .expression (.methodInvocation _ _ name _ _)
  | .expression (.superMethodInvocation _ name _ _) => some name
  | .field it => some it.name
  | .constructor it => some it.name
  | .procedure it => some it.name
  | .redirectingFactory it => some it.name
  | _ => none

inductive Mentions : Node → Name → Prop where
  | own {node : Node} {name : Name} : name ∈ node.name? → node.Mentions name
  | within {node child : Node} {name : Name} : child ∈ node.children → child.Mentions name →
      node.Mentions name

end Node
end DartKernel
