import DartKernel.Node.Grammar

namespace DartKernel

/-- Constants refer to one another by their place in the pool, so they do not nest. -/
inductive Constant where
  | null
  | bool (value : Bool)
  /-- An integer literal. -/
  | int (literal : Expression)
  | double (value : Double)
  | string (text : StringRef)
  /-- A symbol, with the library it is private to or the null reference. -/
  | symbol (library : LibraryRef) (name : StringRef)
  | map (keyType valueType : DartType) (entries : List (ConstantRef × ConstantRef))
  | list (elementType : DartType) (entries : List ConstantRef)
  | instanceOf (classRef : ClassRef) (typeArguments : List DartType)
      (fields : List (FieldRef × ConstantRef))
  | partialInstantiation (tearOff : ConstantRef) (typeArguments : List DartType)
  | tearOff (procedure : ProcedureRef)
  | typeLiteral (type : DartType)
  | environmentBool (name : StringRef) (default : ConstantRef)
  | environmentInt (name : StringRef) (default : ConstantRef)
  | environmentString (name : StringRef) (default : ConstantRef)
  | unevaluated (value : Expression)

inductive ConstantKind where
  | null | bool | int | double | string | symbol | map | list | instanceOf | partialInstantiation
  | tearOff | typeLiteral | environmentBool | environmentInt | environmentString | unevaluated
  deriving DecidableEq, Repr

namespace ConstantKind

def tag : ConstantKind → UInt8
  | .null => 0
  | .bool => 1
  | .int => 2
  | .double => 3
  | .string => 4
  | .symbol => 5
  | .map => 6
  | .list => 7
  | .instanceOf => 8
  | .partialInstantiation => 9
  | .tearOff => 10
  | .typeLiteral => 11
  | .environmentBool => 12
  | .environmentInt => 13
  | .environmentString => 14
  | .unevaluated => 15

instance : TaggedFamily ConstantKind where
  tag
  all :=
    [.null, .bool, .int, .double, .string, .symbol, .map, .list, .instanceOf,
      .partialInstantiation, .tearOff, .typeLiteral, .environmentBool, .environmentInt,
      .environmentString, .unevaluated]

/-- Whether the kind is only found in old components. -/
def isDeprecated : ConstantKind → Bool
  | .environmentBool | .environmentInt | .environmentString => true
  | _ => false

end ConstantKind

namespace Constant

def kind : Constant → ConstantKind
  | .null => .null
  | .bool .. => .bool
  | .int .. => .int
  | .double .. => .double
  | .string .. => .string
  | .symbol .. => .symbol
  | .map .. => .map
  | .list .. => .list
  | .instanceOf .. => .instanceOf
  | .partialInstantiation .. => .partialInstantiation
  | .tearOff .. => .tearOff
  | .typeLiteral .. => .typeLiteral
  | .environmentBool .. => .environmentBool
  | .environmentInt .. => .environmentInt
  | .environmentString .. => .environmentString
  | .unevaluated .. => .unevaluated

def tag (constant : Constant) : UInt8 := constant.kind.tag

def isDeprecated (constant : Constant) : Bool := constant.kind.isDeprecated

end Constant

namespace NodeDecoder
open Decoder

/-- An expression whose tag shows it to be an integer literal. Any other tag is left unread. -/
def intLiteral : NodeDecoder Expression := do
  let tag ← peek
  let kind? : Option ExpressionKind := TaggedFamily.ofTag? tag
  if kind?.any ExpressionKind.isIntLiteral then expression else fail (.constantPayload tag)

def constantFields : ConstantKind → NodeDecoder Constant
  | .null => return .null
  | .bool => .bool <$> boolean
  | .int => .int <$> intLiteral
  | .double => .double <$> double
  | .string => .string <$> ref
  | .symbol => .symbol <$> ref <*> ref
  | .map => .map <$> type <*> type <*> list (Prod.mk <$> ref <*> ref)
  | .list => .list <$> type <*> list ref
  | .instanceOf => .instanceOf <$> ref <*> list type <*> list (Prod.mk <$> ref <*> ref)
  | .partialInstantiation => .partialInstantiation <$> ref <*> list type
  | .tearOff => .tearOff <$> ref
  | .typeLiteral => .typeLiteral <$> type
  | .environmentBool => .environmentBool <$> ref <*> ref
  | .environmentInt => .environmentInt <$> ref <*> ref
  | .environmentString => .environmentString <$> ref <*> ref
  | .unevaluated => .unevaluated <$> expression

def constant : NodeDecoder Constant := do tagged .constant constantFields (← byte)

end NodeDecoder
end DartKernel
