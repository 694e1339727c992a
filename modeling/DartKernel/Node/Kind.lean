import DartKernel.Node.Tree

namespace DartKernel

/-- A family of node kinds, each with its own tag. -/
class TaggedFamily (κ : Type) where
  all : List κ
  tag : κ → UInt8

namespace TaggedFamily

def ofTag? {κ : Type} [TaggedFamily κ] (tag : UInt8) : Option κ :=
  all.find? fun kind => TaggedFamily.tag kind == tag

end TaggedFamily

namespace Tag

def classes : UInt8 := 2

def function : UInt8 := 3

def field : UInt8 := 4

def constructor : UInt8 := 5

def procedure : UInt8 := 6

def redirectingFactory : UInt8 := 107

/-- The number that starts the packed tags of the same kind: their three low bits are payload.
Plain tags, which lack the top bit, stand for themselves. -/
def masked (tag : UInt8) : UInt8 := if tag &&& 0x80 = 0 then tag else tag &&& 0xF8

end Tag

def packed (kind : Fin 8 → κ) : List κ := (List.finRange 8).map kind

/-- A kind holds what its tag says besides: const or not, a truth value, or the three low bits of a
packed tag. -/
inductive ExpressionKind where
  | checkLibraryIsLoaded | loadLibrary
  | directPropertyGet | directPropertySet | directMethodInvocation
  | invalid | variableGet | variableSet | propertyGet | propertySet
  | superPropertyGet | superPropertySet | staticGet | staticSet
  | methodInvocation | superMethodInvocation
  | staticInvocation (isConst : Bool) | constructorInvocation (isConst : Bool)
  | not | logical | conditional | stringConcatenation | is | as
  | stringLiteral | doubleLiteral | boolLiteral (value : Bool) | nullLiteral | symbolLiteral
  | typeLiteral | this | rethrow | throw
  | listLiteral (isConst : Bool) | setLiteral (isConst : Bool) | mapLiteral (isConst : Bool)
  | await | function | letIn | instantiation
  | positiveIntLiteral | negativeIntLiteral | bigIntLiteral | constant
  | shortVariableGet (slot : Fin 8) | shortVariableSet (slot : Fin 8)
  | smallIntLiteral (biased : Fin 8)
  deriving DecidableEq, Repr

namespace ExpressionKind

def tag : ExpressionKind → UInt8
  | .checkLibraryIsLoaded => 13
  | .loadLibrary => 14
  | .directPropertyGet => 15
  | .directPropertySet => 16
  | .directMethodInvocation => 17
  | .staticInvocation true => 18
  | .invalid => 19
  | .variableGet => 20
  | .variableSet => 21
  | .propertyGet => 22
  | .propertySet => 23
  | .superPropertyGet => 24
  | .superPropertySet => 25
  | .staticGet => 26
  | .staticSet => 27
  | .methodInvocation => 28
  | .superMethodInvocation => 29
  | .staticInvocation false => 30
  | .constructorInvocation false => 31
  | .constructorInvocation true => 32
  | .not => 33
  | .logical => 34
  | .conditional => 35
  | .stringConcatenation => 36
  | .is => 37
  | .as => 38
  | .stringLiteral => 39
  | .doubleLiteral => 40
  | .boolLiteral true => 41
  | .boolLiteral false => 42
  | .nullLiteral => 43
  | .symbolLiteral => 44
  | .typeLiteral => 45
  | .this => 46
  | .rethrow => 47
  | .throw => 48
  | .listLiteral false => 49
  | .mapLiteral false => 50
  | .await => 51
  | .function => 52
  | .letIn => 53
  | .instantiation => 54
  | .positiveIntLiteral => 55
  | .negativeIntLiteral => 56
  | .bigIntLiteral => 57
  | .listLiteral true => 58
  | .mapLiteral true => 59
  | .constant => 107
  | .setLiteral false => 109
  | .setLiteral true => 110
  | .shortVariableGet slot => 128 + slot.val.toUInt8
  | .shortVariableSet slot => 136 + slot.val.toUInt8
  | .smallIntLiteral biased => 144 + biased.val.toUInt8

instance : TaggedFamily ExpressionKind where
  tag
  all :=
    [.checkLibraryIsLoaded, .loadLibrary, .directPropertyGet, .directPropertySet,
      .directMethodInvocation, .staticInvocation true, .invalid, .variableGet, .variableSet,
      .propertyGet, .propertySet, .superPropertyGet, .superPropertySet, .staticGet, .staticSet,
      .methodInvocation, .superMethodInvocation, .staticInvocation false,
      .constructorInvocation false, .constructorInvocation true, .not, .logical, .conditional,
      .stringConcatenation, .is, .as, .stringLiteral, .doubleLiteral, .boolLiteral true,
      .boolLiteral false, .nullLiteral, .symbolLiteral, .typeLiteral, .this, .rethrow, .throw,
      .listLiteral false, .mapLiteral false, .await, .function, .letIn, .instantiation,
      .positiveIntLiteral, .negativeIntLiteral, .bigIntLiteral, .listLiteral true,
      .mapLiteral true, .constant, .setLiteral false, .setLiteral true] ++
    packed .shortVariableGet ++ packed .shortVariableSet ++ packed .smallIntLiteral

def isIntLiteral : ExpressionKind → Bool
  | .smallIntLiteral _ | .positiveIntLiteral | .negativeIntLiteral | .bigIntLiteral => true
  | _ => false

end ExpressionKind

namespace Expression

def kind : Expression → ExpressionKind
  | .invalid .. => .invalid
  | .variableGet .. => .variableGet
  | .shortVariableGet slot .. => .shortVariableGet slot
  | .variableSet .. => .variableSet
  | .shortVariableSet slot .. => .shortVariableSet slot
  | .propertyGet .. => .propertyGet
  | .propertySet .. => .propertySet
  | .directPropertyGet .. => .directPropertyGet
  | .directPropertySet .. => .directPropertySet
  | .superPropertyGet .. => .superPropertyGet
  | .superPropertySet .. => .superPropertySet
  | .staticGet .. => .staticGet
  | .staticSet .. => .staticSet
  | .methodInvocation .. => .methodInvocation
  | .superMethodInvocation .. => .superMethodInvocation
  | .directMethodInvocation .. => .directMethodInvocation
  | .staticInvocation isConst .. => .staticInvocation isConst
  | .constructorInvocation isConst .. => .constructorInvocation isConst
  | .not .. => .not
  | .logical .. => .logical
  | .conditional .. => .conditional
  | .stringConcatenation .. => .stringConcatenation
  | .is .. => .is
  | .as .. => .as
  | .stringLiteral .. => .stringLiteral
  | .smallIntLiteral biased => .smallIntLiteral biased
  | .positiveIntLiteral .. => .positiveIntLiteral
  | .negativeIntLiteral .. => .negativeIntLiteral
  | .bigIntLiteral .. => .bigIntLiteral
  | .doubleLiteral .. => .doubleLiteral
  | .boolLiteral value => .boolLiteral value
  | .nullLiteral => .nullLiteral
  | .symbolLiteral .. => .symbolLiteral
  | .typeLiteral .. => .typeLiteral
  | .this => .this
  | .rethrow .. => .rethrow
  | .throw .. => .throw
  | .listLiteral isConst .. => .listLiteral isConst
  | .setLiteral isConst .. => .setLiteral isConst
  | .mapLiteral isConst .. => .mapLiteral isConst
  | .await .. => .await
  | .function .. => .function
  | .letIn .. => .letIn
  | .instantiation .. => .instantiation
  | .checkLibraryIsLoaded .. => .checkLibraryIsLoaded
  | .loadLibrary .. => .loadLibrary
  | .constant .. => .constant

def tag (e : Expression) : UInt8 := e.kind.tag

def isIntLiteral (e : Expression) : Bool := e.kind.isIntLiteral

end Expression

inductive StatementKind where
  | expression | block | empty | assertion | assertBlock | labeled | breakTo | whileLoop | doLoop
  | forLoop | forInLoop (isAsync : Bool) | switch | continueSwitch | ifElse | returnValue
  | tryCatch | tryFinally | yieldValue | declareVariable | declareFunction
  deriving DecidableEq, Repr

namespace StatementKind

def tag : StatementKind → UInt8
  | .expression => 61
  | .block => 62
  | .empty => 63
  | .assertion => 64
  | .labeled => 65
  | .breakTo => 66
  | .whileLoop => 67
  | .doLoop => 68
  | .forLoop => 69
  | .forInLoop false => 70
  | .switch => 71
  | .continueSwitch => 72
  | .ifElse => 73
  | .returnValue => 74
  | .tryCatch => 75
  | .tryFinally => 76
  | .yieldValue => 77
  | .declareVariable => 78
  | .declareFunction => 79
  | .forInLoop true => 80
  | .assertBlock => 81

instance : TaggedFamily StatementKind where
  tag
  all :=
    [.expression, .block, .empty, .assertion, .labeled, .breakTo, .whileLoop, .doLoop, .forLoop,
      .forInLoop false, .switch, .continueSwitch, .ifElse, .returnValue, .tryCatch, .tryFinally,
      .yieldValue, .declareVariable, .declareFunction, .forInLoop true, .assertBlock]

end StatementKind

namespace Statement

def kind : Statement → StatementKind
  | .expression .. => .expression
  | .block .. => .block
  | .empty => .empty
  | .assertion .. => .assertion
  | .assertBlock .. => .assertBlock
  | .labeled .. => .labeled
  | .breakTo .. => .breakTo
  | .whileLoop .. => .whileLoop
  | .doLoop .. => .doLoop
  | .forLoop .. => .forLoop
  | .forInLoop isAsync .. => .forInLoop isAsync
  | .switch .. => .switch
  | .continueSwitch .. => .continueSwitch
  | .ifElse .. => .ifElse
  | .returnValue .. => .returnValue
  | .tryCatch .. => .tryCatch
  | .tryFinally .. => .tryFinally
  | .yieldValue .. => .yieldValue
  | .declareVariable .. => .declareVariable
  | .declareFunction .. => .declareFunction

def tag (s : Statement) : UInt8 := s.kind.tag

end Statement

inductive TypeKind where
  | invalid | dynamic | void | interface | simpleInterface | function | simpleFunction
  | typeParameter | typeAlias
  deriving DecidableEq, Repr

namespace TypeKind

def tag : TypeKind → UInt8
  | .typeAlias => 87
  | .invalid => 90
  | .dynamic => 91
  | .void => 92
  | .interface => 93
  | .function => 94
  | .typeParameter => 95
  | .simpleInterface => 96
  | .simpleFunction => 97

instance : TaggedFamily TypeKind where
  tag
  all :=
    [.typeAlias, .invalid, .dynamic, .void, .interface, .function, .typeParameter,
      .simpleInterface, .simpleFunction]

end TypeKind

namespace DartType

def kind : DartType → TypeKind
  | .invalid => .invalid
  | .dynamic => .dynamic
  | .void => .void
  | .interface .. => .interface
  | .simpleInterface .. => .simpleInterface
  | .function .. => .function
  | .simpleFunction .. => .simpleFunction
  | .typeParameter .. => .typeParameter
  | .typeAlias .. => .typeAlias

def tag (t : DartType) : UInt8 := t.kind.tag

end DartType
end DartKernel
