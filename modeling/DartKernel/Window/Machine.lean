import DartKernel.Window

namespace DartKernel

/-- Why a computation in machine words stops. -/
inductive Mishap where
  | refused (fault : Fault)
  /-- An unchecked result has wrapped around. -/
  | wrapped
  deriving DecidableEq, Repr

namespace Machine

def sum? (a b : UInt64) : Option UInt64 :=
  if a.toNat + b.toNat < UInt64.size then some (a + b) else none

def difference? (a b : UInt64) : Option UInt64 := if b ≤ a then some (a - b) else none

def product? (a b : UInt64) : Option UInt64 :=
  if a.toNat * b.toNat < UInt64.size then some (a * b) else none

def top : UInt64 := 0xFFFFFFFFFFFFFFFF

def unchecked : Option UInt64 → Except Mishap UInt64
  | some a => .ok a
  | none => .error .wrapped

def checked (fault : Fault) : Option UInt64 → Except Mishap UInt64
  | some a => .ok a
  | none => .error (.refused fault)

end Machine

/-- A window in 64-bit words. Its operations are those of `Window` with the sums, differences and
products of a machine: some of them are checked, and one that is not stops the computation when its
result is no word. -/
structure MachineWindow where
  data : ByteArray
  base : UInt64
  length : UInt64
  position : UInt64

namespace MachineWindow
open Machine

def outOfBounds (w : MachineWindow) (position wanted : UInt64) : Mishap :=
  .refused (.outOfBounds position.toNat wanted.toNat w.length.toNat w.base.toNat)

def slice (w : MachineWindow) (offset length : UInt64) : Except Mishap MachineWindow :=
  match (sum? offset length).filter (· ≤ w.length) with
  | some _ => do
    let base ← unchecked (sum? w.base offset)
    return { data := w.data, base, length, position := 0 }
  | none => .error (w.outOfBounds offset length)

def sliceFrom (w : MachineWindow) (offset : UInt64) : Except Mishap MachineWindow :=
  if w.length < offset then .error (w.outOfBounds offset 0)
  else do
    let length ← unchecked (difference? w.length offset)
    w.slice offset length

def sliceAbsolute (w : MachineWindow) (start stop : UInt32) : Except Mishap MachineWindow :=
  match difference? start.toUInt64 w.base with
  | none => .error (w.outOfBounds 0 ((difference? stop.toUInt64 start.toUInt64).getD 0))
  | some offset =>
    if stop.toUInt64 < start.toUInt64 then .error (.refused (.format (.windowReversed start stop)))
    else do
      let length ← unchecked (difference? stop.toUInt64 start.toUInt64)
      w.slice offset length

def relative (w : MachineWindow) (absolute : UInt32) : Except Mishap UInt64 :=
  match (difference? absolute.toUInt64 w.base).filter (· ≤ w.length) with
  | some position => .ok position
  | none => .error (w.outOfBounds absolute.toUInt64 0)

end MachineWindow

/-- An action on a window in machine words. -/
abbrev MachineScan := EStateM Mishap MachineWindow

namespace MachineScan
open Machine

def ofExcept : Except Mishap α → MachineScan α
  | .ok a => pure a
  | .error mishap => throw mishap

def ensure (count : UInt64) : MachineScan Unit := fun w =>
  match (sum? w.position count).filter (· ≤ w.length) with
  | some _ => .ok () w
  | none => .error (w.outOfBounds w.position count) w

def skip (count : UInt64) : MachineScan Unit := do
  ensure count
  let w ← get
  let position ← ofExcept (unchecked (sum? w.position count))
  set { w with position }

def bytes (count : UInt64) : MachineScan (List UInt8) := do
  ensure count
  let w ← get
  let first ← ofExcept (unchecked (sum? w.base w.position))
  let position ← ofExcept (unchecked (sum? w.position count))
  set { w with position }
  let last ← ofExcept (unchecked (sum? first count))
  return (w.data.extract first.toNat last.toNat).data.toList

def word : MachineScan UInt32 := return (bigEndian (← bytes 4)).toUInt32

def manyWords : (count : Nat) → MachineScan (List UInt32)
  | 0 => return []
  | count + 1 => return (← word) :: (← manyWords count)

def words (count : UInt64) : MachineScan (List UInt32) := do
  let w ← get
  match product? count 4 with
  | some needed => do
    ensure needed
    manyWords count.toNat
  | none => throw (w.outOfBounds w.position top)

def value (scan : MachineScan α) (w : MachineWindow) : Except Mishap α :=
  match scan w with
  | .ok a _ => .ok a
  | .error mishap _ => .error mishap

end MachineScan

/-- The window in words. Its numbers are the same, as long as the buffer has no more bytes than
there are words. -/
def Window.toMachine (w : Window) : MachineWindow where
  data := w.data
  base := w.base.toUInt64
  length := w.length.toUInt64
  position := w.position.toUInt64

namespace Machine

def answer (f : α → β) : Except Fault α → Except Mishap β
  | .ok a => .ok (f a)
  | .error fault => .error (.refused fault)

def result : EStateM.Result Fault Window α → EStateM.Result Mishap MachineWindow α
  | .ok a w => .ok a w.toMachine
  | .error fault w => .error (.refused fault) w.toMachine

end Machine
end DartKernel
