import DartKernel.Node.Member

namespace DartKernel

/-- A class fills its window, either alone or followed by an index of its procedures: their offsets,
the end of the last one, and their number. -/
structure Class where
  canonicalName : NameRef
  fileUri : SourceRef
  /-- Where the declaration starts, annotations included. -/
  startOffset : FileOffset
  offset : FileOffset
  endOffset : FileOffset
  flags : Flags ClassFlag
  name : StringRef
  annotations : List Expression
  typeParameters : List TypeParameter
  superClass : Option DartType
  /-- For an eliminated mixin application the type moves to the end of the implemented ones. -/
  mixedInType : Option DartType
  implementedClasses : List DartType
  fields : List Field
  constructors : List Constructor
  procedures : List Procedure
  redirectingFactories : List RedirectingFactory
  /-- The offsets of the procedures in the file, if the class carries an index. -/
  procedureOffsets : Option (List UInt32)

def Class.level (it : Class) : ClassLevel := it.flags.level

namespace NodeDecoder
open Decoder

/-- A class without the index that may follow it. -/
def classBody (c : Conventions) : NodeDecoder Class := do
  checkTag Tag.classes
  .mk <$> ref <*> ref <*> offset <*> offset <*> offset <*> flags <*> ref <*> list expression
    <*> list typeParameter <*> option type <*> option type <*> list type <*> list (field c)
    <*> list (constructor c) <*> list (procedure c) <*> list (redirectingFactory c)
    <*> pure none

end NodeDecoder

namespace Class

/-- The index of `count` procedures that fills the window from the cursor on, if anything does.
Its number stands in the last word of the window and is read first. -/
def scanProcedureIndex (count : Nat) : Scan (Option (List UInt32)) := do
  let w ← get
  if w.remaining = 0 then return none
  if w.remaining < 4 then throw (.format (.strayClassBytes w.remaining))
  Scan.seek (w.length - 4)
  let found ← Scan.word
  if found.toNat ≠ count then
    throw (.integrity .classProcedureCount count.toUInt32 found)
  let size := (found.toNat + 2) * 4
  if size ≠ w.remaining then throw (.format (.classIndexSize size w.remaining))
  Scan.seek (w.length - size)
  return some (← Scan.words (found.toNat + 1))

/-- Reads a class. The window has to end where the class ends. -/
def scan (c : Conventions) : Scan Class := do
  let body ← (NodeDecoder.classBody c).scan c
  let procedureOffsets ← scanProcedureIndex body.procedures.length
  return { body with procedureOffsets }

end Class
end DartKernel
