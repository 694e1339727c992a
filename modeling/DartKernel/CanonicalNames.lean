import DartKernel.StringTable

namespace DartKernel

structure CanonicalName where
  parent : NameRef
  name : StringRef
  deriving DecidableEq, Repr, Inhabited

/-- Every entry has a parent and a text of its own. The name of an entity is read off the chain of
parents, from the root to the entity. -/
structure CanonicalNames where
  entries : Array CanonicalName
  deriving DecidableEq, Repr, Inhabited

namespace CanonicalNames

def ofList (names : List CanonicalName) : CanonicalNames := ⟨names.toArray⟩

def toList (names : CanonicalNames) : List CanonicalName := names.entries.toList

def size (names : CanonicalNames) : Nat := names.entries.size

def isEmpty (names : CanonicalNames) : Bool := names.size == 0

def get (names : CanonicalNames) (r : NameRef) : Except Fault (Option CanonicalName) :=
  match r.slot? with
  | none => .ok none
  | some slot =>
    match names.entries[slot]? with
    | some entry => .ok (some entry)
    | none => .error (.invalidReference .canonicalName r.raw names.size)

def decoder : TableDecoder CanonicalNames := do
  return ofList (← Decoder.list do return ⟨⟨← Decoder.uint⟩, ⟨← Decoder.uint⟩⟩)

/-- The texts on the way from the root to `current`, in front of `below`. A chain that ends visits
no entry twice, so a walk of more than `budget` steps from `start` never ends. -/
def chain (strings : StringTable) (names : CanonicalNames) (start : NameRef) :
    (budget : Nat) → (current : NameRef) → (below : List String) → Except Fault (List String)
  | budget, current, below => do
    match ← names.get current with
    | none => return below
    | some entry =>
      match budget with
      | 0 => throw (.format (.endlessNameChain start.raw))
      | budget + 1 =>
        let text ← strings.get entry.name
        chain strings names start budget entry.parent (text.toList ++ below)

/-- The full name of a reference: the texts of its chain from the root down, joined by dots. None
when no entry of the chain has a text. -/
def resolve (strings : StringTable) (names : CanonicalNames) (r : NameRef) :
    Except Fault (Option String) := do
  match ← chain strings names r (names.size + 1) r [] with
  | [] => return none
  | segments => return some (String.intercalate "." segments)

def display (strings : StringTable) (names : CanonicalNames) (r : NameRef) :
    Except Fault String :=
  return (← resolve strings names r).getD ""

def memberText (strings : StringTable) (names : CanonicalNames) (name : Name) :
    Except Fault String := do
  let text ← strings.text name.text
  match name.library with
  | none => return text
  | some library =>
    match ← resolve strings names library.canonicalName with
    | none => return text
    | some owner => return owner ++ "." ++ text

end CanonicalNames
end DartKernel
