namespace DartKernel

inductive NodeFamily where
  | expression | statement | dartType | constant | initializer | member
  deriving DecidableEq, Repr

inductive Table where
  | string | canonicalName | library | classes | procedure
  deriving DecidableEq, Repr

inductive RedundantWord where
  | libraryCount | fileSize | classProcedureCount
  deriving DecidableEq, Repr

inductive TextPlace where
  | stringTable | problems | sourceUri | sourceText | text
  deriving DecidableEq, Repr

inductive Enumeration where
  | logicalOperator | asyncMarker | procedureKind
  deriving DecidableEq, Repr

/-- Layouts that break a rule of the format without leaving the bytes they are read from. -/
inductive Malformation where
  | windowReversed (start stop : UInt32)
  | noTrailer (size : Nat)
  | directoryTooLarge (fileSize libraryCount : UInt32)
  | libraryIndexTruncated (base : Nat)
  | strayClassBytes (count : Nat)
  | classIndexSize (size trailing : Nat)
  | stringOffsetsMissing
  | firstStringOffset (offset : UInt32)
  | stringOffsetsDecrease (start stop : UInt32)
  | stringOffsetPastBlob (stop blobSize : UInt32)
  | endlessNameChain (reference : UInt32)
  | mappingSectionRagged (size : Nat)
  | mappingsTruncated (words : Nat)
  | metadataTagRepeated (tag : String)
  | lineStartsOverflow (uri : String)
  | argumentCount (declared : UInt32) (actual : Nat)
  | assertWraps (tag : UInt8)
  | unknownCode (enumeration : Enumeration) (code : UInt8)
  | noStringTable
  deriving DecidableEq, Repr

/-- Every fault is a cause with the values that prove it, worded in `Fault.message` alone. -/
inductive Fault where
  /-- A read or cursor move left the window. -/
  | outOfBounds (position wanted length base : Nat)
  | tagMismatch (actual expected : UInt8)
  | unknownTag (family : NodeFamily) (tag : UInt8)
  /-- Two copies of one word disagree. -/
  | integrity (word : RedundantWord) (expected found : UInt32)
  /-- An integer constant wraps an expression that is no integer literal. -/
  | constantPayload (tag : UInt8)
  | badMagic (expected found : UInt32)
  | optionTag (tag : UInt8)
  | stringTableAttached
  | invalidText (place : TextPlace)
  | invalidReference (table : Table) (index : UInt32) (size : Nat)
  | format (cause : Malformation)
  deriving DecidableEq, Repr

inductive FaultKind where
  | bounds | tagMismatch | unknownTag | integrity | invalidConstantPayload | format
  deriving DecidableEq, Repr

def hexDigits (n : Nat) : String := String.ofList (Nat.toDigits 16 n)

def hexPadded (width n : Nat) : String :=
  let digits := Nat.toDigits 16 n
  String.ofList (List.replicate (width - digits.length) '0' ++ digits)

def NodeFamily.label : NodeFamily → String
  | .expression => "Expression"
  | .statement => "Statement"
  | .dartType => "DartType"
  | .constant => "Constant"
  | .initializer => "Initializer"
  | .member => "Member"

def Table.label : Table → String
  | .string => "string"
  | .canonicalName => "canonical name"
  | .library => "library"
  | .classes => "class"
  | .procedure => "procedure"

def RedundantWord.label : RedundantWord → String
  | .libraryCount => "library count"
  | .fileSize => "component file size"
  | .classProcedureCount => "class procedure count"

def TextPlace.label : TextPlace → String
  | .stringTable => "string table"
  | .problems => "problems list"
  | .sourceUri => "source uri"
  | .sourceText => "source text"
  | .text => "text"

def Enumeration.label : Enumeration → String
  | .logicalOperator => "logical operator"
  | .asyncMarker => "async marker"
  | .procedureKind => "procedure kind"

def Malformation.message : Malformation → String
  | .windowReversed start stop =>
    s!"window end 0x{hexDigits stop.toNat} precedes start 0x{hexDigits start.toNat}"
  | .noTrailer size => s!"file of {size} bytes has no trailer"
  | .directoryTooLarge fileSize libraryCount =>
    s!"file size {fileSize} cannot hold an index for {libraryCount} libraries"
  | .libraryIndexTruncated base => s!"library at 0x{hexDigits base} is too short for its index"
  | .strayClassBytes count => s!"{count} stray byte(s) after class body"
  | .classIndexSize size trailing =>
    s!"class index of {size} bytes does not fill the {trailing} trailing bytes"
  | .stringOffsetsMissing => "string table has no offsets"
  | .firstStringOffset offset => s!"string table first offset was {offset}, not 0"
  | .stringOffsetsDecrease start stop => s!"string table offsets decrease ({start} -> {stop})"
  | .stringOffsetPastBlob stop blobSize =>
    s!"string table offset {stop} is past the {blobSize} byte blob"
  | .endlessNameChain reference =>
    s!"canonical name chain starting at name#{reference} does not terminate"
  | .mappingSectionRagged size =>
    s!"metadata mapping section length {size} is not a multiple of 4"
  | .mappingsTruncated words => s!"metadata mapping table of {words} words is truncated"
  | .metadataTagRepeated tag => s!"metadata tag `{tag}` is mapped twice"
  | .lineStartsOverflow uri => s!"line starts of {uri} overflow"
  | .argumentCount declared actual => s!"arguments declare {declared} values but hold {actual}"
  | .assertWraps tag =>
    s!"assert initializer wraps statement tag {tag} instead of an assert"
  | .unknownCode enumeration code => s!"invalid {enumeration.label} {code}"
  | .noStringTable => "no string table attached to the session"

namespace Fault

def kind : Fault → FaultKind
  | .outOfBounds .. => .bounds
  | .tagMismatch .. => .tagMismatch
  | .unknownTag .. => .unknownTag
  | .integrity .. => .integrity
  | .constantPayload .. => .invalidConstantPayload
  | .badMagic .. | .optionTag .. | .stringTableAttached | .invalidText .. | .invalidReference ..
  | .format .. => .format

def message : Fault → String
  | .outOfBounds position wanted length base =>
    s!"access of {wanted} byte(s) at position {position} is outside window of length {length} " ++
      s!"(absolute base 0x{hexDigits base})"
  | .tagMismatch actual expected => s!"improper tag: actual = {actual}; expected = {expected}"
  | .unknownTag family tag => s!"{family.label}: unrecognized tag ({tag})"
  | .integrity word expected found => s!"{word.label} not as expected: {expected} != {found}"
  | .constantPayload tag =>
    s!"IntConstant wraps an expression with tag {tag}, which is not an integer literal"
  | .badMagic expected found =>
    s!"component magic should be 0x{hexPadded 8 expected.toNat} " ++
      s!"but was 0x{hexPadded 8 found.toNat}"
  | .optionTag tag => s!"invalid option tag ({tag})"
  | .stringTableAttached => "a string table is already attached to this session"
  | .invalidText place => s!"invalid UTF-8 in {place.label}"
  | .invalidReference table index size =>
    s!"{table.label} reference {index} is out of range (table holds {size})"
  | .format cause => "format error: " ++ cause.message

end Fault
end DartKernel
