import DartKernel.Decoder
import DartKernel.Reference

namespace DartKernel

/-- The offsets of the sections and libraries, at the end of the file. The last two words, the
number of libraries and the size of the file, locate the first one. -/
structure Directory where
  sourceTable : UInt32
  canonicalNames : UInt32
  metadataPayloads : UInt32
  metadataMappings : UInt32
  stringTable : UInt32
  constantTable : UInt32
  mainMethod : ProcedureRef
  /-- Where each library starts, and where the last one ends. -/
  libraryOffsets : List UInt32
  libraryCount : UInt32
  fileSize : UInt32
  deriving DecidableEq, Repr

namespace Directory

def check (word : RedundantWord) (expected : UInt32) : TableDecoder Unit := do
  let found ← Decoder.word
  if found ≠ expected then .fail (.integrity word expected found)

def decoder (libraryCount fileSize : UInt32) : TableDecoder Directory := do
  let sourceTable ← Decoder.word
  let canonicalNames ← Decoder.word
  let metadataPayloads ← Decoder.word
  let metadataMappings ← Decoder.word
  let stringTable ← Decoder.word
  let constantTable ← Decoder.word
  let mainMethod : ProcedureRef := ⟨← Decoder.word⟩
  let libraryOffsets ← Decoder.words (libraryCount.toNat + 1)
  check .libraryCount libraryCount
  check .fileSize fileSize
  return {
    sourceTable, canonicalNames, metadataPayloads, metadataMappings, stringTable, constantTable,
    mainMethod, libraryOffsets, libraryCount, fileSize }

/-- The bytes a directory takes: ten words besides the offsets of the libraries. -/
def size (libraryCount : UInt32) : Nat := (libraryCount.toNat + 10) * 4

def ofFile (file : Window) : Except Fault Directory := do
  let noTrailer : Fault := .format (.noTrailer file.length)
  if file.length < 8 then throw noTrailer
  match file.wordsAt? (file.length - 8) 2 with
  | some [libraryCount, fileSize] =>
    if fileSize.toNat < size libraryCount then
      throw (.format (.directoryTooLarge fileSize libraryCount))
    let window ← file.sliceFrom (fileSize.toNat - size libraryCount)
    Scan.value (TableDecoder.run (decoder libraryCount fileSize)) window
  | _ => throw noTrailer

/-- Where the `index`th library starts and ends. -/
def libraryRange? (directory : Directory) (index : Nat) : Option (UInt32 × UInt32) := do
  return (← directory.libraryOffsets[index]?, ← directory.libraryOffsets[index + 1]?)

def payloadRange (directory : Directory) : UInt32 × UInt32 :=
  (directory.metadataPayloads, directory.metadataMappings)

def mappingRange (directory : Directory) : UInt32 × UInt32 :=
  (directory.metadataMappings, directory.stringTable)

end Directory
end DartKernel
