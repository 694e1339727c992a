import DartKernel.Session

namespace DartKernel

inductive BuilderCall where
  | attachStrings (strings : StringTable)
  | setNames (names : CanonicalNames)
  | hasStrings
  deriving DecidableEq, Repr

namespace BuilderCall

@[reducible]
def Answer : BuilderCall → Type
  | .attachStrings _ | .setNames _ => Unit
  | .hasStrings => Bool

/-- Carries the call out on a builder in place: what is written by then stays, also when the call
fails. -/
def perform : (call : BuilderCall) → EStateM Fault SessionBuilder call.Answer
  | .attachStrings strings => do
    if (← get).hasStrings then throw .stringTableAttached
    modify ({ · with strings? := some strings })
  | .setNames names => modify (·.setNames names)
  | .hasStrings => return (← get).hasStrings

def strings? : BuilderCall → Option StringTable
  | .attachStrings strings => some strings
  | .setNames _ | .hasStrings => none

def names? : BuilderCall → Option CanonicalNames
  | .setNames names => some names
  | .attachStrings _ | .hasStrings => none

end BuilderCall

namespace SessionBuilder

/-- The builder after a call, whether or not the call fails. -/
def step (b : SessionBuilder) (call : BuilderCall) : SessionBuilder :=
  match call.perform b with
  | .ok _ b' => b'
  | .error _ b' => b'

def run (b : SessionBuilder) (calls : List BuilderCall) : SessionBuilder := calls.foldl step b

end SessionBuilder
end DartKernel
