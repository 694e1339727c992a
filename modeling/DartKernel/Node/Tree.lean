import DartKernel.Flags
import DartKernel.Reference

namespace DartKernel

inductive LogicalOperator where
  | and | or
  deriving DecidableEq, Repr

inductive AsyncMarker where
  | sync | syncStar | async | asyncStar | syncYielding
  deriving DecidableEq, Repr

structure Double where
  bits : UInt64
  deriving DecidableEq, Repr

/-- A double is no number when its exponent is all ones and its fraction is not zero. -/
def Double.isNaN (d : Double) : Bool := 0x7FF0000000000000 < (d.bits &&& 0x7FFFFFFFFFFFFFFF)

mutual

structure TypeParameter where
  flags : Flags TypeParameterFlag
  annotations : List Expression
  name : StringRef
  bound : DartType
  defaultType : Option DartType

structure VariableDeclaration where
  offset : FileOffset
  /-- Where the `=` stands, if there is an initializer. -/
  equalsOffset : FileOffset
  annotations : List Expression
  flags : Flags VariableFlag
  name : StringRef
  type : DartType
  initializer : Option Expression

structure FunctionNode where
  offset : FileOffset
  endOffset : FileOffset
  asyncMarker : AsyncMarker
  /-- The marker as written in the source, before lowering. -/
  sourceAsyncMarker : AsyncMarker
  typeParameters : List TypeParameter
  parameterCount : UInt32
  requiredParameterCount : UInt32
  positionalParameters : List VariableDeclaration
  namedParameters : List VariableDeclaration
  returnType : DartType
  body : Option Statement

structure NamedExpression where
  name : StringRef
  value : Expression

structure Arguments where
  types : List DartType
  positional : List Expression
  named : List NamedExpression

structure MapEntry where
  key : Expression
  value : Expression

structure NamedType where
  name : StringRef
  type : DartType

structure FunctionType where
  typeParameters : List TypeParameter
  requiredParameterCount : UInt32
  /-- Positional and named parameters. -/
  totalParameterCount : UInt32
  positionalParameters : List DartType
  namedParameters : List NamedType
  /-- The alias the type was written through, or the null reference. -/
  typeAlias : NameRef
  returnType : DartType

structure AliasType where
  typeAlias : TypeAliasRef
  typeArguments : List DartType

structure InterfaceType where
  classRef : ClassRef
  typeArguments : List DartType

inductive DartType where
  | invalid
  | dynamic
  | void
  | interface (type : InterfaceType)
  /-- An interface type without type arguments. -/
  | simpleInterface (classRef : ClassRef)
  | function (type : FunctionType)
  /-- A function type with positional parameters only and no type parameters. -/
  | simpleFunction (positionalParameters : List DartType) (returnType : DartType)
  /-- A type parameter by its place among those in scope. -/
  | typeParameter (index : UInt32) (bound : Option DartType)
  | typeAlias (type : AliasType)

structure AssertStatement where
  condition : Expression
  conditionStart : FileOffset
  conditionEnd : FileOffset
  message : Option Expression

structure SwitchCase where
  /-- The position and value of each label. -/
  labels : List (FileOffset × Expression)
  isDefault : Bool
  body : Statement

structure Catch where
  offset : FileOffset
  guard : DartType
  exception : Option VariableDeclaration
  stackTrace : Option VariableDeclaration
  body : Statement

inductive Statement where
  | expression (value : Expression)
  | block (statements : List Statement)
  | empty
  | assertion (statement : AssertStatement)
  /-- A block that runs only when assertions are on. -/
  | assertBlock (statements : List Statement)
  | labeled (body : Statement)
  /-- Leaves an enclosing labeled statement, by its index among them. -/
  | breakTo (offset : FileOffset) (label : UInt32)
  | whileLoop (offset : FileOffset) (condition : Expression) (body : Statement)
  | doLoop (offset : FileOffset) (body : Statement) (condition : Expression)
  | forLoop (offset : FileOffset) (bindings : List VariableDeclaration)
      (condition : Option Expression) (updates : List Expression) (body : Statement)
  | forInLoop (isAsync : Bool) (offset bodyOffset : FileOffset) (binding : VariableDeclaration)
      (iterable : Expression) (body : Statement)
  | switch (offset : FileOffset) (value : Expression) (cases : List SwitchCase)
  | continueSwitch (offset : FileOffset) (case : UInt32)
  | ifElse (offset : FileOffset) (condition : Expression) (ifTrue ifFalse : Statement)
  | returnValue (offset : FileOffset) (value : Option Expression)
  | tryCatch (body : Statement) (flags : Flags TryCatchFlag) (catches : List Catch)
  | tryFinally (body finalizer : Statement)
  | yieldValue (offset : FileOffset) (flags : Flags YieldFlag) (value : Expression)
  | declareVariable (binding : VariableDeclaration)
  | declareFunction (offset : FileOffset) (binding : VariableDeclaration)
      (function : FunctionNode)

inductive Expression where
  | invalid (offset : FileOffset) (message : StringRef)
  /-- `declaration` is where the variable is declared, in bytes within its function. -/
  | variableGet (offset : FileOffset) (declaration : UInt32) (slot : VariableRef)
      (promotedType : Option DartType)
  /-- A `variableGet` whose variable is in its tag. -/
  | shortVariableGet (slot : Fin 8) (offset : FileOffset) (declaration : UInt32)
  | variableSet (offset : FileOffset) (declaration : UInt32) (slot : VariableRef)
      (value : Expression)
  /-- A `variableSet` whose variable is in its tag. -/
  | shortVariableSet (slot : Fin 8) (offset : FileOffset) (declaration : UInt32)
      (value : Expression)
  | propertyGet (offset : FileOffset) (receiver : Expression) (name : Name)
      (interfaceTarget : MemberRef)
  | propertySet (offset : FileOffset) (receiver : Expression) (name : Name) (value : Expression)
      (interfaceTarget : MemberRef)
  | directPropertyGet (offset : FileOffset) (receiver : Expression) (target : MemberRef)
  | directPropertySet (offset : FileOffset) (receiver : Expression) (target : MemberRef)
      (value : Expression)
  | superPropertyGet (offset : FileOffset) (name : Name) (interfaceTarget : MemberRef)
  | superPropertySet (offset : FileOffset) (name : Name) (value : Expression)
      (interfaceTarget : MemberRef)
  | staticGet (offset : FileOffset) (target : MemberRef)
  | staticSet (offset : FileOffset) (target : MemberRef) (value : Expression)
  | methodInvocation (offset : FileOffset) (receiver : Expression) (name : Name)
      (arguments : Arguments) (interfaceTarget : MemberRef)
  | superMethodInvocation (offset : FileOffset) (name : Name) (arguments : Arguments)
      (interfaceTarget : MemberRef)
  | directMethodInvocation (offset : FileOffset) (receiver : Expression) (target : MemberRef)
      (arguments : Arguments)
  | staticInvocation (isConst : Bool) (offset : FileOffset) (target : MemberRef)
      (arguments : Arguments)
  | constructorInvocation (isConst : Bool) (offset : FileOffset) (target : ConstructorRef)
      (arguments : Arguments)
  | not (operand : Expression)
  | logical (left : Expression) (operator : LogicalOperator) (right : Expression)
  | conditional (condition ifTrue ifFalse : Expression) (staticType : Option DartType)
  | stringConcatenation (offset : FileOffset) (parts : List Expression)
  | is (offset : FileOffset) (operand : Expression) (type : DartType)
  | as (offset : FileOffset) (flags : Flags AsFlag) (operand : Expression) (type : DartType)
  | stringLiteral (text : StringRef)
  /-- An integer in its tag, three more than it counts. -/
  | smallIntLiteral (biased : Fin 8)
  | positiveIntLiteral (value : UInt32)
  /-- A negative integer by its absolute value. -/
  | negativeIntLiteral (absolute : UInt32)
  /-- The decimal text of an integer that fits no other literal. -/
  | bigIntLiteral (digits : StringRef)
  | doubleLiteral (value : Double)
  | boolLiteral (value : Bool)
  | nullLiteral
  | symbolLiteral (text : StringRef)
  | typeLiteral (type : DartType)
  | this
  | rethrow (offset : FileOffset)
  | throw (offset : FileOffset) (value : Expression)
  | listLiteral (isConst : Bool) (offset : FileOffset) (typeArgument : DartType)
      (elements : List Expression)
  | setLiteral (isConst : Bool) (offset : FileOffset) (typeArgument : DartType)
      (elements : List Expression)
  | mapLiteral (isConst : Bool) (offset : FileOffset) (keyType valueType : DartType)
      (entries : List MapEntry)
  | await (operand : Expression)
  | function (offset : FileOffset) (function : FunctionNode)
  | letIn (binding : VariableDeclaration) (body : Expression)
  | instantiation (value : Expression) (typeArguments : List DartType)
  | checkLibraryIsLoaded (dependency : DependencyRef)
  | loadLibrary (dependency : DependencyRef)
  | constant (value : ConstantRef)

end

def DartType.class? : DartType → Option ClassRef
  | .interface type => some type.classRef
  | .simpleInterface classRef => some classRef
  | _ => none

def Arguments.count (arguments : Arguments) : Nat :=
  arguments.positional.length + arguments.named.length

def Arguments.isEmpty (arguments : Arguments) : Bool := arguments.count == 0

/-- The value of an integer literal that is not left as text. -/
def Expression.intValue? : Expression → Option Int
  | .smallIntLiteral biased => some (biased.val - 3)
  | .positiveIntLiteral value => some value.toNat
  | .negativeIntLiteral absolute => some (-absolute.toNat)
  | _ => none

/-- The trees that nest in one another without bound. -/
inductive NodeSort where
  | expression | statement | type
  deriving DecidableEq, Repr

@[reducible]
def NodeSort.Tree : NodeSort → Type
  | .expression => Expression
  | .statement => Statement
  | .type => DartType

end DartKernel
