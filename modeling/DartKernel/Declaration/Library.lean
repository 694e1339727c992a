import DartKernel.Declaration.Class

namespace DartKernel

/-- Where the classes and procedures of a library lie in the file. Each list has one offset more
than there are declarations: the last one ends the last declaration. The lists end the window of the
library, each before the number of its declarations, so they are read from the end backwards. -/
structure LibraryIndex where
  classOffsets : List UInt32
  procedureOffsets : List UInt32
  deriving DecidableEq, Repr

namespace LibraryIndex

/-- The `index`th and the next offset. -/
def range? (offsets : List UInt32) (index : Nat) : Option (UInt32 × UInt32) := do
  return (← offsets[index]?, ← offsets[index + 1]?)

def classCount (index : LibraryIndex) : Nat := index.classOffsets.length - 1

def procedureCount (index : LibraryIndex) : Nat := index.procedureOffsets.length - 1

def classRange? (index : LibraryIndex) (i : Nat) : Option (UInt32 × UInt32) :=
  range? index.classOffsets i

def procedureRange? (index : LibraryIndex) (i : Nat) : Option (UInt32 × UInt32) :=
  range? index.procedureOffsets i

/-- The fields of the library follow its last class. -/
def fieldsStart (index : LibraryIndex) : UInt32 := index.classOffsets.getLastD 0

/-- The offsets whose number stands right before `stop`, and where they begin. -/
def offsetsBefore? (w : Window) (stop : Nat) : Option (List UInt32 × Nat) := do
  guard (4 ≤ stop)
  let count ← (← w.wordsAt? (stop - 4) 1).head?
  let size := 4 * (count.toNat + 2)
  guard (size ≤ stop)
  return (← w.wordsAt? (stop - size) (count.toNat + 1), stop - size)

/-- The index at the end of a window. -/
def ofWindow (w : Window) : Except Fault LibraryIndex :=
  let index? : Option LibraryIndex := do
    let (procedureOffsets, stop) ← offsetsBefore? w w.length
    let (classOffsets, _) ← offsetsBefore? w stop
    return { classOffsets, procedureOffsets }
  match index? with
  | some index => .ok index
  | none => .error (.format (.libraryIndexTruncated w.base))

end LibraryIndex

structure Combinator where
  /-- Shows the names, or else hides them. -/
  isShow : Bool
  names : List StringRef
  deriving DecidableEq, Repr

structure LibraryDependency where
  offset : FileOffset
  flags : Flags DependencyFlag
  annotations : List Expression
  targetLibrary : LibraryRef
  /-- What the imported names are qualified by, or the null reference. -/
  name : StringRef
  combinators : List Combinator

def LibraryDependency.isExport (it : LibraryDependency) : Bool := it.flags.contains .isExport

structure LibraryPart where
  annotations : List Expression
  uri : StringRef

structure TypeAlias where
  canonicalName : TypeAliasRef
  fileUri : SourceRef
  offset : FileOffset
  name : StringRef
  annotations : List Expression
  typeParameters : List TypeParameter
  type : DartType
  typeParametersOfFunctionType : List TypeParameter
  positionalParameters : List VariableDeclaration
  namedParameters : List VariableDeclaration

structure LibraryHead where
  flags : Flags LibraryFlag
  canonicalName : LibraryRef
  name : StringRef
  fileUri : SourceRef
  annotations : List Expression
  dependencies : List LibraryDependency
  additionalExports : List NameRef
  parts : List LibraryPart
  typeAliases : List TypeAlias

structure Library extends LibraryHead where
  classes : List Class
  fields : List Field
  procedures : List Procedure
  index : LibraryIndex

def Library.isExternal (it : Library) : Bool := it.flags.contains .isExternal

namespace NodeDecoder
open Decoder

def combinator : NodeDecoder Combinator := .mk <$> lowBit <*> list ref

def dependency : NodeDecoder LibraryDependency :=
  .mk <$> offset <*> flags <*> list expression <*> ref <*> ref <*> list combinator

def part : NodeDecoder LibraryPart := .mk <$> list expression <*> ref

def typeAlias : NodeDecoder TypeAlias :=
  .mk <$> ref <*> ref <*> offset <*> ref <*> list expression <*> list typeParameter <*> type
    <*> list typeParameter <*> list variableDeclaration <*> list variableDeclaration

def libraryHead : NodeDecoder LibraryHead :=
  .mk <$> flags <*> ref <*> ref <*> ref <*> list expression <*> list dependency <*> list ref
    <*> list part <*> list typeAlias

end NodeDecoder

namespace Library

/-- Reads the declaration at a range of a library's index in a window of its own. -/
def declarationAt (w : Window) (range? : Option (UInt32 × UInt32)) (missing : Fault)
    (scan : Scan α) : Except Fault α := do
  let (start, stop) ← range?.elim (throw missing) pure
  scan.value (← w.sliceAbsolute start stop)

def classAt (c : Conventions) (w : Window) (index : LibraryIndex) (i : Nat) :
    Except Fault Class :=
  declarationAt w (index.classRange? i) (.invalidReference .classes i.toUInt32 index.classCount)
    (Class.scan c)

def procedureAt (c : Conventions) (w : Window) (index : LibraryIndex) (i : Nat) :
    Except Fault Procedure :=
  declarationAt w (index.procedureRange? i)
    (.invalidReference .procedure i.toUInt32 index.procedureCount)
    ((NodeDecoder.procedure c).scan c)

/-- Reads the library that fills a window. Its declarations are cut out of the window wherever the
cursor stands by then. -/
def scan (c : Conventions) : Scan Library := do
  let index ← Scan.ofExcept (LibraryIndex.ofWindow (← get))
  Scan.seek 0
  let head ← NodeDecoder.libraryHead.scan c
  let w ← get
  let classes ← Scan.ofExcept ((List.range index.classCount).mapM (classAt c w index))
  Scan.seek (← Scan.ofExcept (w.relative index.fieldsStart))
  let fields ← NodeDecoder.scan c (Decoder.list (NodeDecoder.field c))
  let w ← get
  let procedures ← Scan.ofExcept ((List.range index.procedureCount).mapM (procedureAt c w index))
  return { head with classes, fields, procedures, index }

end Library
end DartKernel
