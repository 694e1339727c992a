import DartKernel.Node.Grammar

namespace DartKernel

inductive ProcedureKind where
  | method | getter | setter | operator | factory
  deriving DecidableEq, Repr

def ProcedureKind.ofCode (code : UInt8) : Except Fault ProcedureKind :=
  match code.toNat with
  | 0 => .ok .method
  | 1 => .ok .getter
  | 2 => .ok .setter
  | 3 => .ok .operator
  | 4 => .ok .factory
  | _ => .error (.format (.unknownCode .procedureKind code))

/-- An entry in the initializer list of a constructor. -/
inductive Initializer where
  | invalid (isSynthetic : Bool)
  | field (isSynthetic : Bool) (field : FieldRef) (value : Expression)
  | super (isSynthetic : Bool) (offset : FileOffset) (target : ConstructorRef)
      (arguments : Arguments)
  | redirecting (isSynthetic : Bool) (offset : FileOffset) (target : ConstructorRef)
      (arguments : Arguments)
  | declaration (isSynthetic : Bool) (binding : VariableDeclaration)
  /-- An assert, which is not synthetic where the format has no room to say so. -/
  | assertion (isSynthetic : Bool) (statement : AssertStatement)

def Initializer.isSynthetic : Initializer → Bool
  | .invalid isSynthetic
  | .field isSynthetic ..
  | .super isSynthetic ..
  | .redirecting isSynthetic ..
  | .declaration isSynthetic ..
  | .assertion isSynthetic .. => isSynthetic

inductive InitializerKind where
  | invalid | field | super | redirecting | declaration | assertion
  deriving DecidableEq, Repr

def InitializerKind.tag : InitializerKind → UInt8
  | .invalid => 7
  | .field => 8
  | .super => 9
  | .redirecting => 10
  | .declaration => 11
  | .assertion => 12

instance : TaggedFamily InitializerKind where
  tag := InitializerKind.tag
  all := [.invalid, .field, .super, .redirecting, .declaration, .assertion]

structure Field where
  canonicalName : NameRef
  fileUri : SourceRef
  offset : FileOffset
  endOffset : FileOffset
  flags : Flags FieldFlag
  name : Name
  annotations : List Expression
  type : DartType
  initializer : Option Expression

structure Constructor where
  canonicalName : NameRef
  fileUri : SourceRef
  /-- Where the declaration starts, annotations included. -/
  startOffset : FileOffset
  offset : FileOffset
  endOffset : FileOffset
  flags : Flags ConstructorFlag
  name : Name
  annotations : List Expression
  function : FunctionNode
  initializers : List Initializer

structure Procedure where
  canonicalName : NameRef
  fileUri : SourceRef
  startOffset : FileOffset
  offset : FileOffset
  endOffset : FileOffset
  kind : ProcedureKind
  flags : Flags ProcedureFlag
  name : Name
  annotations : List Expression
  forwardingStubSuperTarget : Option MemberRef
  forwardingStubInterfaceTarget : Option MemberRef
  /-- None for abstract and external procedures. -/
  function : Option FunctionNode

structure RedirectingFactory where
  canonicalName : NameRef
  fileUri : SourceRef
  offset : FileOffset
  endOffset : FileOffset
  flags : Flags ConstructorFlag
  name : Name
  annotations : List Expression
  target : MemberRef
  typeArguments : List DartType
  typeParameters : List TypeParameter
  parameterCount : UInt32
  requiredParameterCount : UInt32
  positionalParameters : List VariableDeclaration
  namedParameters : List VariableDeclaration

inductive Member where
  | field (field : Field)
  | constructor (constructor : Constructor)
  | procedure (procedure : Procedure)
  | redirectingFactory (factory : RedirectingFactory)

namespace Member

def canonicalName : Member → NameRef
  | .field it => it.canonicalName
  | .constructor it => it.canonicalName
  | .procedure it => it.canonicalName
  | .redirectingFactory it => it.canonicalName

def name : Member → Name
  | .field it => it.name
  | .constructor it => it.name
  | .procedure it => it.name
  | .redirectingFactory it => it.name

end Member

inductive MemberKind where
  | field | constructor | procedure | redirectingFactory
  deriving DecidableEq, Repr

def MemberKind.tag : MemberKind → UInt8
  | .field => Tag.field
  | .constructor => Tag.constructor
  | .procedure => Tag.procedure
  | .redirectingFactory => Tag.redirectingFactory

instance : TaggedFamily MemberKind where
  tag := MemberKind.tag
  all := [.field, .constructor, .procedure, .redirectingFactory]

namespace NodeDecoder
open Decoder

/-- The assert that an initializer wraps. Any other statement is refused once it is read. -/
def wrappedAssert : NodeDecoder AssertStatement := do
  match ← statement with
  | .assertion wrapped => return wrapped
  | other => fail (.format (.assertWraps other.tag))

def assertIsSynthetic (c : Conventions) : NodeDecoder Bool :=
  if c.assertHasSynthetic then boolean else return false

def initializerFields (c : Conventions) : InitializerKind → NodeDecoder Initializer
  | .invalid => .invalid <$> boolean
  | .field => .field <$> boolean <*> ref <*> expression
  | .super => .super <$> boolean <*> offset <*> ref <*> arguments
  | .redirecting => .redirecting <$> boolean <*> offset <*> ref <*> arguments
  | .declaration => .declaration <$> boolean <*> variableDeclaration
  | .assertion => .assertion <$> assertIsSynthetic c <*> wrappedAssert

def initializer (c : Conventions) : NodeDecoder Initializer := do
  tagged .initializer (initializerFields c) (← byte)

def field (c : Conventions) : NodeDecoder Field := do
  checkTag Tag.field
  .mk <$> ref <*> ref <*> offset <*> offset <*> flags <*> name c <*> list expression <*> type
    <*> option expression

def constructor (c : Conventions) : NodeDecoder Constructor := do
  checkTag Tag.constructor
  .mk <$> ref <*> ref <*> offset <*> offset <*> offset <*> flags <*> name c <*> list expression
    <*> functionNode <*> list (initializer c)

def procedure (c : Conventions) : NodeDecoder Procedure := do
  checkTag Tag.procedure
  .mk <$> ref <*> ref <*> offset <*> offset <*> offset <*> coded ProcedureKind.ofCode <*> flags
    <*> name c <*> list expression <*> option ref <*> option ref <*> option functionNode

def redirectingFactory (c : Conventions) : NodeDecoder RedirectingFactory := do
  checkTag Tag.redirectingFactory
  .mk <$> ref <*> ref <*> offset <*> offset <*> flags <*> name c <*> list expression <*> ref
    <*> list type <*> list typeParameter <*> uint <*> uint <*> list variableDeclaration
    <*> list variableDeclaration

/-- A member of any kind. Its tag is looked at first and then read by the kind it names. -/
def member (c : Conventions) : NodeDecoder Member := do
  let tag ← peek
  tagged .member (fun
    | MemberKind.field => .field <$> field c
    | .constructor => .constructor <$> constructor c
    | .procedure => .procedure <$> procedure c
    | .redirectingFactory => .redirectingFactory <$> redirectingFactory c) tag

end NodeDecoder
end DartKernel
