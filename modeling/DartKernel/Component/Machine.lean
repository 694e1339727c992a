import DartKernel.Component.Directory
import DartKernel.Component.Metadata
import DartKernel.Window.Machine

namespace DartKernel

namespace Machine

/-- The word at an index. One that has wrapped around lies behind all words. -/
def wordOf (words : List UInt32) (index : UInt64) : Except Mishap UInt32 :=
  match words[index.toNat]? with
  | some word => .ok word
  | none => .error .wrapped

def wordsBetween (words : List UInt32) (start stop : UInt64) : Except Mishap (List UInt32) :=
  if start ≤ stop ∧ stop.toNat ≤ words.length then
    .ok ((words.take stop.toNat).drop start.toNat)
  else .error .wrapped

def rangeCount (offsets : List UInt32) : Except Mishap UInt64 :=
  unchecked (difference? offsets.length.toUInt64 1)

/-- The offset at an index and the next one. The next index is not computed before there is an
offset at the first. -/
def rangeAt (offsets : List UInt32) (index : UInt64) : Except Mishap (Option (UInt32 × UInt32)) :=
  match offsets[index.toNat]? with
  | none => .ok none
  | some start => do
    let next ← unchecked (sum? index 1)
    return offsets[next.toNat]?.map (start, ·)

end Machine

namespace MachineScan
open Machine

def check (redundant : RedundantWord) (expected : UInt32) : MachineScan Unit := do
  let found ← word
  if found ≠ expected then throw (.refused (.integrity redundant expected found))

def directory (libraryCount fileSize : UInt32) : MachineScan Directory := do
  let sourceTable ← word
  let canonicalNames ← word
  let metadataPayloads ← word
  let metadataMappings ← word
  let stringTable ← word
  let constantTable ← word
  let mainMethod : ProcedureRef := ⟨← word⟩
  let offsetCount ← ofExcept (unchecked (sum? libraryCount.toUInt64 1))
  let libraryOffsets ← words offsetCount
  check .libraryCount libraryCount
  check .fileSize fileSize
  return {
    sourceTable, canonicalNames, metadataPayloads, metadataMappings, stringTable, constantTable,
    mainMethod, libraryOffsets, libraryCount, fileSize }

def trailer : MachineScan (UInt32 × UInt32) := return (← word, ← word)

end MachineScan

namespace MachineWindow
open Machine

def directorySize (libraryCount : UInt32) : Except Mishap UInt64 := do
  let words ← unchecked (sum? libraryCount.toUInt64 10)
  unchecked (product? words 4)

def directory (file : MachineWindow) : Except Mishap Directory := do
  let trailerStart ← checked (.format (.noTrailer file.length.toNat)) (difference? file.length 8)
  let (libraryCount, fileSize) ← MachineScan.trailer.value (← file.sliceFrom trailerStart)
  let size ← directorySize libraryCount
  let start ← checked (.format (.directoryTooLarge fileSize libraryCount))
    (difference? fileSize.toUInt64 size)
  (MachineScan.directory libraryCount fileSize).value (← file.sliceFrom start)

end MachineWindow

namespace MetadataMapping
open Machine

def pairsOf : List UInt32 → List (UInt32 × UInt32)
  | first :: second :: rest => (first, second) :: pairsOf rest
  | _ => []

/-- `count` mappings that end in front of the index `stop`, in front of `done`. Each is found by the
number that stands behind its entries. -/
def before (words : List UInt32) : (count : Nat) → (stop : UInt64) →
    (done : List MetadataMapping) → Except Mishap (List MetadataMapping)
  | 0, _, done => .ok done
  | count + 1, stop, done => do
    let truncated : Fault := .format (.mappingsTruncated words.length)
    let lengthAt ← checked truncated (difference? stop 1)
    let length ← wordOf words lengthAt
    -- Twice a number of 32 bits needs no check.
    let pairWords ← unchecked (product? length.toUInt64 2)
    let pairsAt ← checked truncated (difference? lengthAt pairWords)
    let tagAt ← checked truncated (difference? pairsAt 1)
    let pairs ← wordsBetween words pairsAt lengthAt
    let tag ← wordOf words tagAt
    before words count tagAt (⟨⟨tag⟩, pairsOf pairs⟩ :: done)

end MetadataMapping

def MachineWindow.mappings (w : MachineWindow) : Except Mishap (List MetadataMapping) :=
  if w.length % 4 ≠ 0 then .error (.refused (.format (.mappingSectionRagged w.length.toNat)))
  else do
    let words ← (MachineScan.words (w.length / 4)).value { w with position := 0 }
    match words.getLast? with
    | none => .ok []
    | some count => do
      let stop ← Machine.unchecked (Machine.difference? words.length.toUInt64 1)
      MetadataMapping.before words count.toNat stop []

end DartKernel
