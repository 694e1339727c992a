import DartKernel.Session

namespace DartKernel

/-- What a decode notices and goes on from. Of each kind only the first is kept. -/
inductive Diagnostic where
  /-- The version is older than any whose layout is known. -/
  | unknownFormatVersion (version : UInt32)
  /-- The front end left this many problems in the header. -/
  | problems (count : Nat)
  /-- The constant pool holds a kind that only old components use. -/
  | deprecatedConstant (tag : UInt8)
  deriving DecidableEq, Repr

namespace Diagnostic

def message : Diagnostic → String
  | .unknownFormatVersion version =>
    s!"unknown component format version {version}, decoding as version " ++
      toString FormatVersion.baseline.number
  | .problems count => s!"component carries {count} problem(s)"
  | .deprecatedConstant tag => s!"deprecated constant kind (tag {tag}) in constant pool"

/-- Whether two diagnostics are of one kind. -/
def sameKind (a b : Diagnostic) : Bool := a.ctorIdx == b.ctorIdx

/-- Adds a diagnostic at the end unless its kind has been reported. -/
def report (reported : List Diagnostic) (d : Diagnostic) : List Diagnostic :=
  if reported.any (sameKind d) then reported else reported ++ [d]

end Diagnostic
end DartKernel
