import DartKernel.Window

namespace DartKernel

inductive Carving where
  | slice (offset length : Nat)
  | sliceFrom (offset : Nat)
  | sliceAbsolute (start stop : UInt32)
  /-- The same slice, its cursor where it is. -/
  | copy
  deriving DecidableEq, Repr

def Carving.apply (w : Window) : Carving → Except Fault Window
  | .slice offset length => w.slice offset length
  | .sliceFrom offset => w.sliceFrom offset
  | .sliceAbsolute start stop => w.sliceAbsolute start stop
  | .copy => .ok w

/-- Windows in the order in which they were carved. -/
structure WindowPool where
  windows : List Window

namespace WindowPool

def ofWindow (root : Window) : WindowPool := ⟨[root]⟩

def size (pool : WindowPool) : Nat := pool.windows.length

def get? (pool : WindowPool) (i : Nat) : Option Window := pool.windows[i]?

def carve (pool : WindowPool) (i : Nat) (carving : Carving) :
    Option (Except Fault Window × WindowPool) := do
  let carved := carving.apply (← pool.get? i)
  return (carved, ⟨pool.windows ++ carved.toOption.toList⟩)

def scan (pool : WindowPool) (i : Nat) (action : Scan α) :
    Option (Except Fault α × WindowPool) := do
  match action (← pool.get? i) with
  | .ok a w => return (.ok a, ⟨pool.windows.set i w⟩)
  | .error fault w => return (.error fault, ⟨pool.windows.set i w⟩)

end WindowPool
end DartKernel
