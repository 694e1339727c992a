import DartKernel.Decoder
import DartKernel.Reference

namespace DartKernel

structure SourceInfo where
  uri : String
  /-- The text of the file, empty when it was left out. -/
  source : String
  /-- The offset of each line start. -/
  lineStarts : List UInt32
  deriving DecidableEq, Repr

namespace SourceInfo

/-- `count` line starts, stored as distances from the one before. -/
def lineStartsOnto (uri : String) : (count : Nat) → (previous : UInt32) → (done : List UInt32) →
    TableDecoder (List UInt32)
  | 0, _, done => return done.reverse
  | count + 1, previous, done => do
    let next := previous.toNat + (← Decoder.uint).toNat
    if next < UInt32.size then
      lineStartsOnto uri count next.toUInt32 (next.toUInt32 :: done)
    else .fail (.format (.lineStartsOverflow uri))

def decoder : TableDecoder SourceInfo := do
  let uri ← Decoder.text .sourceUri
  let source ← Decoder.text .sourceText
  let lineStarts ← lineStartsOnto uri (← Decoder.uint).toNat 0 []
  return { uri, source, lineStarts }

/-- The line and column of an offset, both counted from one in words. -/
def location? (info : SourceInfo) (offset : UInt32) : Option (UInt32 × UInt32) :=
  let before := info.lineStarts.takeWhile (· ≤ offset)
  before.getLast?.map fun start => (before.length.toUInt32, offset - start + 1)

end SourceInfo

structure SourceTable where
  sources : List SourceInfo
  /-- Where each source lies in the file. -/
  index : List UInt32
  deriving DecidableEq, Repr

namespace SourceTable

def decoder : TableDecoder SourceTable := do
  let count := (← Decoder.word).toNat
  let sources ← Decoder.many SourceInfo.decoder count
  let index ← Decoder.words count
  return { sources, index }

def size (table : SourceTable) : Nat := table.sources.length

def isEmpty (table : SourceTable) : Bool := table.sources.isEmpty

def get? (table : SourceTable) (r : SourceRef) : Option SourceInfo := table.sources[r.raw.toNat]?

end SourceTable
end DartKernel
