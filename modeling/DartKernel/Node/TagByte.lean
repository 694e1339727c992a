import DartKernel.Node.Constant

namespace DartKernel

/-- The payload of a packed tag, which is its distance from the first tag of its range. -/
def Tag.payload? (tag first : UInt8) : Option (Fin 8) :=
  let distance := (tag - first).toNat
  if h : distance < 8 then some ⟨distance, h⟩ else none

/-- A packed tag is folded down to the first one of its range before it is compared. -/
def ExpressionKind.ofByte? (tag : UInt8) : Option ExpressionKind :=
  match (Tag.masked tag).toNat with
  | 144 => .smallIntLiteral <$> Tag.payload? tag 144
  | 128 => .shortVariableGet <$> Tag.payload? tag 128
  | 136 => .shortVariableSet <$> Tag.payload? tag 136
  | 13 => some .checkLibraryIsLoaded
  | 14 => some .loadLibrary
  | 15 => some .directPropertyGet
  | 16 => some .directPropertySet
  | 17 => some .directMethodInvocation
  | 30 | 18 => some (.staticInvocation (tag == 18))
  | 19 => some .invalid
  | 20 => some .variableGet
  | 21 => some .variableSet
  | 22 => some .propertyGet
  | 23 => some .propertySet
  | 24 => some .superPropertyGet
  | 25 => some .superPropertySet
  | 26 => some .staticGet
  | 27 => some .staticSet
  | 28 => some .methodInvocation
  | 29 => some .superMethodInvocation
  | 31 | 32 => some (.constructorInvocation (tag == 32))
  | 33 => some .not
  | 34 => some .logical
  | 35 => some .conditional
  | 36 => some .stringConcatenation
  | 37 => some .is
  | 38 => some .as
  | 39 => some .stringLiteral
  | 40 => some .doubleLiteral
  | 41 => some (.boolLiteral true)
  | 42 => some (.boolLiteral false)
  | 43 => some .nullLiteral
  | 44 => some .symbolLiteral
  | 45 => some .typeLiteral
  | 46 => some .this
  | 47 => some .rethrow
  | 48 => some .throw
  | 49 | 58 => some (.listLiteral (tag == 58))
  | 109 | 110 => some (.setLiteral (tag == 110))
  | 50 | 59 => some (.mapLiteral (tag == 59))
  | 51 => some .await
  | 52 => some .function
  | 53 => some .letIn
  | 54 => some .instantiation
  | 55 => some .positiveIntLiteral
  | 56 => some .negativeIntLiteral
  | 57 => some .bigIntLiteral
  | 107 => some .constant
  | _ => none

def StatementKind.ofByte? (tag : UInt8) : Option StatementKind :=
  match tag.toNat with
  | 61 => some .expression
  | 62 => some .block
  | 63 => some .empty
  | 64 => some .assertion
  | 81 => some .assertBlock
  | 65 => some .labeled
  | 66 => some .breakTo
  | 67 => some .whileLoop
  | 68 => some .doLoop
  | 69 => some .forLoop
  | 70 | 80 => some (.forInLoop (tag == 80))
  | 71 => some .switch
  | 72 => some .continueSwitch
  | 73 => some .ifElse
  | 74 => some .returnValue
  | 75 => some .tryCatch
  | 76 => some .tryFinally
  | 77 => some .yieldValue
  | 78 => some .declareVariable
  | 79 => some .declareFunction
  | _ => none

def TypeKind.ofByte? (tag : UInt8) : Option TypeKind :=
  match tag.toNat with
  | 90 => some .invalid
  | 91 => some .dynamic
  | 92 => some .void
  | 93 => some .interface
  | 96 => some .simpleInterface
  | 94 => some .function
  | 97 => some .simpleFunction
  | 95 => some .typeParameter
  | 87 => some .typeAlias
  | _ => none

def ConstantKind.ofByte? (tag : UInt8) : Option ConstantKind :=
  match tag.toNat with
  | 0 => some .null
  | 1 => some .bool
  | 2 => some .int
  | 3 => some .double
  | 4 => some .string
  | 5 => some .symbol
  | 6 => some .map
  | 7 => some .list
  | 8 => some .instanceOf
  | 9 => some .partialInstantiation
  | 10 => some .tearOff
  | 11 => some .typeLiteral
  | 12 => some .environmentBool
  | 13 => some .environmentInt
  | 14 => some .environmentString
  | 15 => some .unevaluated
  | _ => none

namespace Tag

def sum? (a b : UInt8) : Option UInt8 :=
  if a.toNat + b.toNat < UInt8.size then some (a + b) else none

def ofVariable? (first : UInt8) (index : UInt32) : Option UInt8 := sum? first index.toUInt8

/-- The packed tag of a signed byte, which is biased by three. -/
def ofInteger? (value : Int8) : Option UInt8 := sum? (value.toInt32 + 3).toInt8.toUInt8 144

end Tag

/-- The tag of an expression as it is computed, unless a sum overflows. -/
def Expression.tagByte? : Expression → Option UInt8
  | .shortVariableGet slot .. => Tag.ofVariable? 128 slot.val.toUInt32
  | .shortVariableSet slot .. => Tag.ofVariable? 136 slot.val.toUInt32
  | .smallIntLiteral biased => Tag.ofInteger? (.ofInt (biased.val - 3))
  | e => some e.tag

end DartKernel
