import DartKernel.Window

namespace DartKernel

inductive Query (σ : Type) where
  | byte
  /-- The next byte, left unread. -/
  | peek
  /-- A variable-length integer. -/
  | uint
  /-- A byte that means yes or no. -/
  | flag (means : UInt8 → Bool)
  /-- A run of bytes, all or nothing. -/
  | bytes (count : Nat)
  /-- A tree of the grammar: its tag byte and what the tag calls for. -/
  | tree (sort : σ)

@[reducible]
def Query.Answer {σ : Type} (Tree : σ → Type) : Query σ → Type
  | .byte | .peek => UInt8
  | .uint => UInt32
  | .flag _ => Bool
  | .bytes _ => List UInt8
  | .tree sort => Tree sort

/-- A decoder is done, has failed, or asks for input and goes on with the answer. It never sees a
window: only `Decoder.run` does, so what holds of the few requests holds of every decoder. -/
inductive Decoder {σ : Type} (Tree : σ → Type) (α : Type) where
  | done (value : α)
  | fail (fault : Fault)
  | ask (query : Query σ) (next : query.Answer Tree → Decoder Tree α)

/-- For each tree that can be asked for and the tag byte it starts with, the decoder of the
rest. -/
abbrev Grammar {σ : Type} (Tree : σ → Type) := (sort : σ) → UInt8 → Decoder Tree (Tree sort)

namespace Decoder

variable {σ : Type} {Tree : σ → Type} {α β : Type}

def bind : Decoder Tree α → (α → Decoder Tree β) → Decoder Tree β
  | done value, f => f value
  | fail fault, _ => fail fault
  | ask query next, f => ask query fun answer => (next answer).bind f

instance : Monad (Decoder Tree) where
  pure := done
  bind := bind

/-- Answers one request; `subtree` reads the trees. -/
def answer (subtree : (sort : σ) → Scan (Tree sort)) :
    (query : Query σ) → Scan (query.Answer Tree)
  | .byte => Scan.byte
  | .peek => Scan.peek
  | .uint => Scan.uint
  | .flag means => do return means (← Scan.byte)
  | .bytes count => Scan.bytes count
  | .tree sort => subtree sort

def runWith (subtree : (sort : σ) → Scan (Tree sort)) : Decoder Tree α → Scan α
  | done value => pure value
  | fail fault => throw fault
  | ask query next => do runWith subtree (next (← answer subtree query))

/-- Reads a tree that nests at most `depth` deep. Each level reads a tag byte, so at depth zero
there is no byte left to read when `depth` starts as the number of bytes at hand. -/
def subtree (grammar : Grammar Tree) : Nat → (sort : σ) → Scan (Tree sort)
  | 0, _ => fun w => .error (w.outOfBounds w.position 1) w
  | depth + 1, sort => do
    let tag ← Scan.byte
    runWith (subtree grammar depth) (grammar sort tag)

def run (grammar : Grammar Tree) (decoder : Decoder Tree α) : Scan α := fun w =>
  runWith (subtree grammar w.remaining) decoder w

def byte : Decoder Tree UInt8 := ask .byte done

def peek : Decoder Tree UInt8 := ask .peek done

def uint : Decoder Tree UInt32 := ask .uint done

def boolean : Decoder Tree Bool := ask (.flag (· ≠ 0)) done

def lowBit : Decoder Tree Bool := ask (.flag (· &&& 1 ≠ 0)) done

def bytes (count : Nat) : Decoder Tree (List UInt8) := ask (.bytes count) done

def tree (sort : σ) : Decoder Tree (Tree sort) := ask (.tree sort) done

def word : Decoder Tree UInt32 := return (bigEndian (← bytes 4)).toUInt32

def words (count : Nat) : Decoder Tree (List UInt32) := return wordsOf (← bytes (4 * count))

def double : Decoder Tree UInt64 := return (bigEndian (← bytes 8).reverse).toUInt64

def byteList : Decoder Tree (List UInt8) := do bytes (← uint).toNat

def checkTag (expected : UInt8) : Decoder Tree Unit := do
  let actual ← byte
  if actual ≠ expected then fail (.tagMismatch actual expected)

def ofExcept : Except Fault α → Decoder Tree α
  | .ok value => done value
  | .error fault => fail fault

/-- `count` elements in front of those already read, which are kept newest first. -/
def manyOnto (element : Decoder Tree α) : Nat → List α → Decoder Tree (List α)
  | 0, read => done read.reverse
  | count + 1, read => do manyOnto element count ((← element) :: read)

def many (element : Decoder Tree α) (count : Nat) : Decoder Tree (List α) :=
  manyOnto element count []

def list (element : Decoder Tree α) : Decoder Tree (List α) := do many element (← uint).toNat

def option (element : Decoder Tree α) : Decoder Tree (Option α) := do
  let tag ← byte
  if tag = 0 then return none
  if tag = 1 then return some (← element)
  fail (.optionTag tag)

def utf8 (place : TextPlace) (encoded : List UInt8) : Except Fault String :=
  match String.fromUTF8? ⟨encoded.toArray⟩ with
  | some text => .ok text
  | none => .error (.invalidText place)

def text (place : TextPlace) : Decoder Tree String := do ofExcept (utf8 place (← byteList))

end Decoder

abbrev TableDecoder := Decoder (Empty.elim : Empty → Type)

/-- Runs a decoder that asks for no trees. -/
def TableDecoder.run (decoder : TableDecoder α) : Scan α :=
  Decoder.run (fun sort _ => sort.elim) decoder

end DartKernel
