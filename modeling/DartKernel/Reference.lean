namespace DartKernel

inductive Target where
  | string
  /-- A canonical name of any entity. -/
  | canonicalName
  | library | classes | member | field | constructor | procedure | typeAlias
  /-- An entry of the source table. -/
  | source
  /-- An entry of the constant pool. -/
  | constant
  /-- A dependency of the enclosing library. -/
  | dependency
  /-- A variable in scope, by its place on the stack. -/
  | variable
  deriving DecidableEq, Repr

/-- A reference as it is stored. Strings and canonical names, and all entities found by their
canonical name, count from one so that zero means none; the other tables count from zero. -/
structure Ref (target : Target) where
  raw : UInt32
  deriving DecidableEq, Repr, Inhabited

abbrev StringRef := Ref .string
abbrev NameRef := Ref .canonicalName
abbrev LibraryRef := Ref .library
abbrev ClassRef := Ref .classes
abbrev MemberRef := Ref .member
abbrev FieldRef := Ref .field
abbrev ConstructorRef := Ref .constructor
abbrev ProcedureRef := Ref .procedure
abbrev TypeAliasRef := Ref .typeAlias
abbrev SourceRef := Ref .source
abbrev ConstantRef := Ref .constant
abbrev DependencyRef := Ref .dependency
abbrev VariableRef := Ref .variable

namespace Ref

def canonicalName (r : Ref target) : NameRef := ⟨r.raw⟩

def isNull (r : Ref target) : Bool := r.raw == 0

def slot? (r : Ref target) : Option Nat :=
  if r.raw = 0 then none else some (r.raw.toNat - 1)

end Ref

def StringRef.label (r : StringRef) : String := s!"str#{r.raw}"

def NameRef.label (r : NameRef) : String := s!"name#{r.raw}"

structure FileOffset where
  position? : Option UInt32
  deriving DecidableEq, Repr, Inhabited

namespace FileOffset

/-- On the wire a position is one more than it counts, and zero means none. -/
def ofBiased (raw : UInt32) : FileOffset := ⟨if raw = 0 then none else some (raw - 1)⟩

def label (offset : FileOffset) : String :=
  match offset.position? with
  | some position => s!"@{position}"
  | none => "@-"

end FileOffset

/-- The name of a member. It carries a library exactly when its text starts with an underscore,
which makes it private to that library. -/
structure Name where
  text : StringRef
  library : Option LibraryRef
  deriving DecidableEq, Repr, Inhabited

def Name.isPrivate (name : Name) : Bool := name.library.isSome

end DartKernel
