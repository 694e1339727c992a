import DartKernel.Decoder
import DartKernel.Reference

namespace DartKernel

/-- On the wire the strings are a list of end offsets that starts with zero, followed by one blob of
UTF-8 that the offsets cut into pieces. -/
structure StringTable where
  entries : Array String
  deriving DecidableEq, Repr, Inhabited

namespace StringTable

def ofList (texts : List String) : StringTable := ⟨texts.toArray⟩

def toList (table : StringTable) : List String := table.entries.toList

def size (table : StringTable) : Nat := table.entries.size

def isEmpty (table : StringTable) : Bool := table.size == 0

def get (table : StringTable) (r : StringRef) : Except Fault (Option String) :=
  match r.slot? with
  | none => .ok none
  | some slot =>
    match table.entries[slot]? with
    | some text => .ok (some text)
    | none => .error (.invalidReference .string r.raw table.size)

def text (table : StringTable) (r : StringRef) : Except Fault String :=
  return (← table.get r).getD ""

/-- Cuts a blob at its end offsets. `rest` is what lies after `start`. -/
def cut (blobSize : UInt32) : (start : UInt32) → (ends : List UInt32) → (rest : List UInt8) →
    Except Fault (List String)
  | _, [], _ => .ok []
  | start, stop :: ends, rest => do
    if stop < start then throw (.format (.stringOffsetsDecrease start stop))
    if blobSize < stop then throw (.format (.stringOffsetPastBlob stop blobSize))
    let size := stop.toNat - start.toNat
    let text ← Decoder.utf8 .stringTable (rest.take size)
    return text :: (← cut blobSize stop ends (rest.drop size))

def decoder : TableDecoder StringTable := do
  match ← Decoder.list Decoder.uint with
  | [] => .fail (.format .stringOffsetsMissing)
  | first :: ends =>
    if first ≠ 0 then .fail (.format (.firstStringOffset first))
    else
      let blobSize := ends.getLastD 0
      let blob ← Decoder.bytes blobSize.toNat
      return ofList (← Decoder.ofExcept (cut blobSize 0 ends blob))

end StringTable
end DartKernel
