import DartKernel.Fault

namespace DartKernel

/-- The slice `[base, base + length)` of a shared buffer, with a cursor inside it. `Window.bytes` is
what a window shows, and `Window.rest` what is left of it from the cursor on. -/
structure Window where
  data : ByteArray
  base : Nat
  length : Nat
  position : Nat
  inside : base + length ≤ data.size
  cursor : position ≤ length

/-- An action on a window: it moves the cursor, and says where it stopped also when it fails. -/
abbrev Scan := EStateM Fault Window

def bigEndian (bytes : List UInt8) : Nat :=
  bytes.foldl (fun n b => 256 * n + b.toNat) 0

def wordsOf : List UInt8 → List UInt32
  | a :: b :: c :: d :: rest => (bigEndian [a, b, c, d]).toUInt32 :: wordsOf rest
  | _ => []

namespace Window

def ofBytes (data : ByteArray) : Window where
  data
  base := 0
  length := data.size
  position := 0
  inside := by omega
  cursor := Nat.zero_le _

def isEmpty (w : Window) : Bool := w.length == 0

def remaining (w : Window) : Nat := w.length - w.position

def bytes (w : Window) : List UInt8 :=
  (w.data.extract w.base (w.base + w.length)).data.toList

def rest (w : Window) : List UInt8 := w.bytes.drop w.position

def outOfBounds (w : Window) (position wanted : Nat) : Fault :=
  .outOfBounds position wanted w.length w.base

/-- The window `[offset, offset + length)` of this window, cursor at its start. -/
def slice (w : Window) (offset length : Nat) : Except Fault Window :=
  if h : offset + length ≤ w.length then
    .ok {
      data := w.data
      base := w.base + offset
      length
      position := 0
      inside := by have := w.inside; omega
      cursor := Nat.zero_le _ }
  else .error (w.outOfBounds offset length)

def sliceFrom (w : Window) (offset : Nat) : Except Fault Window :=
  if offset ≤ w.length then w.slice offset (w.length - offset)
  else .error (w.outOfBounds offset 0)

/-- The window between two offsets that count from the start of the buffer. -/
def sliceAbsolute (w : Window) (start stop : UInt32) : Except Fault Window :=
  if start.toNat < w.base then .error (w.outOfBounds 0 (stop.toNat - start.toNat))
  else if stop < start then .error (.format (.windowReversed start stop))
  else w.slice (start.toNat - w.base) (stop.toNat - start.toNat)

def relative (w : Window) (absolute : UInt32) : Except Fault Nat :=
  if w.base ≤ absolute.toNat ∧ absolute.toNat ≤ w.base + w.length then
    .ok (absolute.toNat - w.base)
  else .error (w.outOfBounds absolute.toNat 0)

/-- `count` words that start `offset` bytes into the window, whatever the cursor. -/
def wordsAt? (w : Window) (offset count : Nat) : Option (List UInt32) :=
  if offset + 4 * count ≤ w.length then
    some (wordsOf (w.data.extract (w.base + offset) (w.base + offset + 4 * count)).data.toList)
  else none

def summary (w : Window) : String :=
  s!"ByteWindow \x7b base: {w.base}, len: {w.length}, pos: {w.position} \x7d"

end Window

namespace Scan

def seek (position : Nat) : Scan Unit := fun w =>
  if h : position ≤ w.length then .ok () { w with position, cursor := h }
  else .error (w.outOfBounds position 0) w

def skip (count : Nat) : Scan Unit := fun w =>
  if h : w.position + count ≤ w.length then
    .ok () { w with position := w.position + count, cursor := h }
  else .error (w.outOfBounds w.position count) w

def peek : Scan UInt8 := fun w =>
  if h : w.position < w.length then
    have : w.base + w.position < w.data.size := by have := w.inside; omega
    .ok w.data[w.base + w.position] w
  else .error (w.outOfBounds w.position 1) w

def byte : Scan UInt8 := do
  let b ← peek
  skip 1
  return b

/-- Reads `count` bytes, or none of them. -/
def bytes (count : Nat) : Scan (List UInt8) := do
  let start ← get
  skip count
  let first := start.base + start.position
  return (start.data.extract first (first + count)).data.toList

def word : Scan UInt32 := return (bigEndian (← bytes 4)).toUInt32

/-- The most bytes that a refused request is reported to want. -/
def requestLimit : Nat := UInt64.size - 1

def words (count : Nat) : Scan (List UInt32) := fun w =>
  if w.position + 4 * count ≤ w.length then (wordsOf <$> bytes (4 * count)) w
  else .error (w.outOfBounds w.position (min (4 * count) requestLimit)) w

/-- Reads the 64 bits of a double, the one value stored with its low byte first. -/
def double : Scan UInt64 := return (bigEndian (← bytes 8).reverse).toUInt64

/-- Reads the variable-length integer: the top bits of its first byte tell whether it takes one,
two or four bytes, and leave 7, 14 or 30 bits for the value. -/
def uint : Scan UInt32 := do
  let first ← byte
  if first < 0x80 then return first.toUInt32
  if first < 0xC0 then return (bigEndian [first - 0x80, ← byte]).toUInt32
  return (bigEndian [first - 0xC0, ← byte, ← byte, ← byte]).toUInt32

def byteList : Scan (List UInt8) := do bytes (← uint).toNat

def checkTag (expected : UInt8) : Scan Unit := do
  let actual ← byte
  if actual ≠ expected then throw (.tagMismatch actual expected)

def ofExcept : Except Fault α → Scan α
  | .ok a => pure a
  | .error fault => throw fault

/-- What a scan answers on a window, without where it stopped. -/
def value (scan : Scan α) (w : Window) : Except Fault α :=
  match scan w with
  | .ok a _ => .ok a
  | .error fault _ => .error fault

/-- Reads `count` elements in front of those already read, which are kept newest first. -/
def manyOnto (element : Scan α) : Nat → List α → Scan (List α)
  | 0, done => return done.reverse
  | count + 1, done => do manyOnto element count ((← element) :: done)

def many (element : Scan α) (count : Nat) : Scan (List α) := manyOnto element count []

def list (element : Scan α) : Scan (List α) := do many element (← uint).toNat

def option (element : Scan α) : Scan (Option α) := do
  let tag ← byte
  if tag = 0 then return none
  if tag = 1 then return some (← element)
  throw (.optionTag tag)

end Scan
end DartKernel
