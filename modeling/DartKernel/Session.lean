import DartKernel.CanonicalNames

namespace DartKernel

structure FormatVersion where
  number : UInt32
  deriving DecidableEq, Repr

namespace FormatVersion

/-- The oldest version whose layout is known. -/
def baseline : FormatVersion := ⟨16⟩

def isKnown (v : FormatVersion) : Bool := baseline.number ≤ v.number

/-- Since version 17 the header lists the problems of the front end. -/
def hasProblems (v : FormatVersion) : Bool := 17 ≤ v.number

/-- Since version 16 an assert initializer says whether it is synthetic. -/
def assertHasSynthetic (v : FormatVersion) : Bool := 16 ≤ v.number

end FormatVersion

/-- Whether assert initializers say if they are synthetic: as the version has it, or forced. -/
inductive SyntheticFlag where
  | auto | present | absent
  deriving DecidableEq, Repr

namespace SyntheticFlag

def isPresent (flag : SyntheticFlag) (v : FormatVersion) : Bool :=
  match flag with
  | .auto => v.assertHasSynthetic
  | .present => true
  | .absent => false

def parse : String → Except String SyntheticFlag
  | "auto" => .ok .auto
  | "present" => .ok .present
  | "absent" => .ok .absent
  | other => .error s!"expected auto, present or absent, got `{other}`"

end SyntheticFlag

structure DecodeOptions where
  assertSynthetic : SyntheticFlag := .auto
  /-- A wish to read libraries side by side. A program that is built without the feature for it
  reads them one after another all the same, and so they are read here: the first broken library is
  the one that is reported, where a program with the feature might report any of them. -/
  parallel : Bool := false
  deriving DecidableEq, Repr

structure Conventions where
  /-- Whether the text of a member name is followed by a library. -/
  isPrivate : StringRef → Except Fault Bool
  /-- Whether an assert initializer says if it is synthetic. -/
  assertHasSynthetic : Bool

structure Session where
  strings : StringTable
  names : CanonicalNames
  options : DecodeOptions
  version : FormatVersion
  deriving DecidableEq, Repr

namespace Session

def assertHasSynthetic (s : Session) : Bool := s.options.assertSynthetic.isPresent s.version

def isPrivate (s : Session) (r : StringRef) : Except Fault Bool :=
  return (← s.strings.get r).any fun text => text.front? == some '_'

def conventions (s : Session) : Conventions := ⟨s.isPrivate, s.assertHasSynthetic⟩

def string (s : Session) (r : StringRef) : Except Fault (Option String) := s.strings.get r

def resolve (s : Session) (r : NameRef) : Except Fault (Option String) :=
  s.names.resolve s.strings r

def display (s : Session) (r : NameRef) : Except Fault String := s.names.display s.strings r

def memberText (s : Session) (name : Name) : Except Fault String :=
  s.names.memberText s.strings name

end Session

structure SessionBuilder where
  version : FormatVersion
  options : DecodeOptions
  strings? : Option StringTable := none
  names : CanonicalNames := ⟨#[]⟩
  deriving DecidableEq, Repr

namespace SessionBuilder

/-- Attaches the string table, which can be done once. -/
def attachStrings (b : SessionBuilder) (strings : StringTable) : Except Fault SessionBuilder :=
  match b.strings? with
  | some _ => .error .stringTableAttached
  | none => .ok { b with strings? := some strings }

def hasStrings (b : SessionBuilder) : Bool := b.strings?.isSome

def setNames (b : SessionBuilder) (names : CanonicalNames) : SessionBuilder := { b with names }

def build (b : SessionBuilder) : Except Fault Session :=
  match b.strings? with
  | some strings => .ok ⟨strings, b.names, b.options, b.version⟩
  | none => .error (.format .noStringTable)

end SessionBuilder
end DartKernel
