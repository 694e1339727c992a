namespace DartKernel

/-- An enumeration of flags; the first one is the lowest bit. -/
class FlagEnum (φ : Type) where
  all : List φ
  position : φ → Nat

/-- The byte of a set of flags, with the bits that no flag is named for. -/
structure Flags (φ : Type) where
  bits : UInt8
  deriving DecidableEq, Repr, Inhabited

namespace Flags

variable {φ : Type} [FlagEnum φ]

def mask (flag : φ) : UInt8 := 1 <<< (FlagEnum.position flag).toUInt8

def contains (flags : Flags φ) (flag : φ) : Bool := flags.bits &&& mask flag ≠ 0

/-- The named flags of the set, lowest bit first. -/
def toList (flags : Flags φ) : List φ := FlagEnum.all.filter flags.contains

def isKnown (flags : Flags φ) : Bool :=
  (FlagEnum.all : List φ).foldl (fun bits flag => bits &&& ~~~ mask flag) flags.bits == 0

end Flags

inductive TypeParameterFlag where
  | isGenericCovariantImpl
  deriving DecidableEq, Repr

inductive VariableFlag where
  | isFinal | isConst | isFieldFormal | isCovariant | isInScope | isGenericCovariantImpl
  deriving DecidableEq, Repr

inductive AsFlag where
  | isTypeError
  deriving DecidableEq, Repr

inductive TryCatchFlag where
  | anyCatchNeedsStackTrace | isSynthesized
  deriving DecidableEq, Repr

inductive YieldFlag where
  | isYieldStar
  deriving DecidableEq, Repr

inductive FieldFlag where
  | isFinal | isConst | isStatic | hasImplicitGetter | hasImplicitSetter | isCovariant
  | isGenericCovariantImpl
  deriving DecidableEq, Repr

inductive ConstructorFlag where
  | isConst | isExternal | isSynthetic
  deriving DecidableEq, Repr

inductive ProcedureFlag where
  | isStatic | isAbstract | isExternal | isConst | isForwardingStub | isForwardingSemiStub
  | isRedirectingFactoryConstructor | isNoSuchMethodForwarder
  deriving DecidableEq, Repr

inductive ClassFlag where
  | levelBit0 | levelBit1 | isAbstract | isEnum | isAnonymousMixin | isEliminatedMixin
  | isMixinDeclaration
  deriving DecidableEq, Repr

inductive LibraryFlag where
  | isExternal | isSynthetic
  deriving DecidableEq, Repr

inductive DependencyFlag where
  | isExport | isDeferred
  deriving DecidableEq, Repr

instance : FlagEnum TypeParameterFlag := ⟨[.isGenericCovariantImpl], (·.ctorIdx)⟩

instance : FlagEnum VariableFlag :=
  ⟨[.isFinal, .isConst, .isFieldFormal, .isCovariant, .isInScope, .isGenericCovariantImpl],
    (·.ctorIdx)⟩

instance : FlagEnum AsFlag := ⟨[.isTypeError], (·.ctorIdx)⟩

instance : FlagEnum TryCatchFlag := ⟨[.anyCatchNeedsStackTrace, .isSynthesized], (·.ctorIdx)⟩

instance : FlagEnum YieldFlag := ⟨[.isYieldStar], (·.ctorIdx)⟩

instance : FlagEnum FieldFlag :=
  ⟨[.isFinal, .isConst, .isStatic, .hasImplicitGetter, .hasImplicitSetter, .isCovariant,
    .isGenericCovariantImpl], (·.ctorIdx)⟩

instance : FlagEnum ConstructorFlag := ⟨[.isConst, .isExternal, .isSynthetic], (·.ctorIdx)⟩

instance : FlagEnum ProcedureFlag :=
  ⟨[.isStatic, .isAbstract, .isExternal, .isConst, .isForwardingStub, .isForwardingSemiStub,
    .isRedirectingFactoryConstructor, .isNoSuchMethodForwarder], (·.ctorIdx)⟩

instance : FlagEnum ClassFlag :=
  ⟨[.levelBit0, .levelBit1, .isAbstract, .isEnum, .isAnonymousMixin, .isEliminatedMixin,
    .isMixinDeclaration], (·.ctorIdx)⟩

instance : FlagEnum LibraryFlag := ⟨[.isExternal, .isSynthetic], (·.ctorIdx)⟩

instance : FlagEnum DependencyFlag := ⟨[.isExport, .isDeferred], (·.ctorIdx)⟩

/-- How much of a class was written. Classes of external libraries stop at the type or at the
hierarchy. -/
inductive ClassLevel where
  | type | hierarchy | mixin | body
  deriving DecidableEq, Repr

def Flags.level (flags : Flags ClassFlag) : ClassLevel :=
  match flags.contains .levelBit1, flags.contains .levelBit0 with
  | false, false => .type
  | false, true => .hierarchy
  | true, false => .mixin
  | true, true => .body

end DartKernel
