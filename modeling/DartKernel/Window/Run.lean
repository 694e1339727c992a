import DartKernel.Window.Pool

namespace DartKernel

inductive WindowOperation where
  | seek (position : Nat)
  | skip (count : Nat)
  | byte | peek | word
  | words (count : Nat)
  | uint | double
  | bytes (count : Nat)
  | byteList
  | checkTag (expected : UInt8)
  | relative (absolute : UInt32)
  deriving DecidableEq, Repr

namespace WindowOperation

@[reducible]
def Answer : WindowOperation → Type
  | .seek _ | .skip _ | .checkTag _ => Unit
  | .byte | .peek => UInt8
  | .word | .uint => UInt32
  | .words _ => List UInt32
  | .double => UInt64
  | .bytes _ | .byteList => List UInt8
  | .relative _ => Nat

def scan : (operation : WindowOperation) → Scan operation.Answer
  | .seek position => Scan.seek position
  | .skip count => Scan.skip count
  | .byte => Scan.byte
  | .peek => Scan.peek
  | .word => Scan.word
  | .words count => Scan.words count
  | .uint => Scan.uint
  | .double => Scan.double
  | .bytes count => Scan.bytes count
  | .byteList => Scan.byteList
  | .checkTag expected => Scan.checkTag expected
  | .relative absolute => do Scan.ofExcept ((← get).relative absolute)

end WindowOperation

inductive WindowStep where
  | carve (i : Nat) (carving : Carving)
  | scan (i : Nat) (operation : WindowOperation)
  deriving DecidableEq, Repr

namespace WindowPool

/-- The pool after a step, as it was when there is no such window. -/
def step (pool : WindowPool) : WindowStep → WindowPool
  | .carve i carving => ((pool.carve i carving).map Prod.snd).getD pool
  | .scan i operation => ((pool.scan i operation.scan).map Prod.snd).getD pool

def run (pool : WindowPool) (steps : List WindowStep) : WindowPool := steps.foldl step pool

end WindowPool
end DartKernel
