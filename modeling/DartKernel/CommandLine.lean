import DartKernel.Report.Summary

namespace DartKernel

structure Request where
  input : String
  json : Bool := false
  assertSynthetic : SyntheticFlag := .auto
  /-- The one library to summarize, if not all. -/
  library : Option Nat := none
  parallel : Bool := false
  deriving DecidableEq, Repr

structure Exit where
  code : UInt32
  stdout : String
  stderr : String
  deriving DecidableEq, Repr

/-- Why a run fails: what it was about, and what went wrong there if that is another matter. -/
structure Failure where
  context : String
  cause : Option String := none
  deriving DecidableEq, Repr

namespace Failure

/-- The failure as it is printed. Further lines of a cause are set in like its first one. -/
def render (failure : Failure) : String :=
  match failure.cause with
  | none => s!"Error: {failure.context}\n"
  | some cause =>
    let indented := cause.toList.flatMap fun c => if c = '\n' then "\n    ".toList else [c]
    s!"Error: {failure.context}\n\nCaused by:\n    {String.ofList indented}\n"

end Failure

namespace Request

def options (request : Request) : DecodeOptions :=
  { assertSynthetic := request.assertSynthetic, parallel := request.parallel }

def emit (request : Request) (lines : List String) (json : Json) : String :=
  if request.json then json.pretty ++ "\n" else String.join (lines.map (· ++ "\n"))

def within (context : String) (result : Except Fault α) : Except Failure α :=
  result.mapError fun fault => { context, cause := some fault.message }

def plain (result : Except Fault α) : Except Failure α :=
  result.mapError fun fault => { context := fault.message }

def libraryOutput (request : Request) (content : ByteArray) (index : Nat) :
    Except Failure String := do
  let view ← within s!"failed to open {request.input}"
    (View.openFile content request.options)
  if view.libraryCount ≤ index then
    let context :=
      s!"library {index} out of range: component has {view.libraryCount} libraries"
    throw { context }
  let library ← within s!"failed to decode library {index}" (view.library index)
  let summary ← plain (LibrarySummary.ofLibrary view.session library)
  return request.emit summary.lines summary.json

def componentOutput (request : Request) (content : ByteArray) : Except Failure String := do
  let component ← within s!"failed to decode {request.input}"
    (Component.load content request.options)
  let summary ← plain (ComponentSummary.ofComponent component)
  return request.emit summary.lines summary.json

/-- The output of a run, given what the input holds or why it cannot be read. -/
def output (request : Request) (content : Except String ByteArray) : Except Failure String :=
  match content with
  | .error cause => .error { context := s!"failed to read {request.input}", cause := some cause }
  | .ok bytes =>
    match request.library with
    | some index => request.libraryOutput bytes index
    | none => request.componentOutput bytes

/-- How a run ends: a failure prints nothing but itself. -/
def run (request : Request) (content : Except String ByteArray) : Exit :=
  match request.output content with
  | .ok text => { code := 0, stdout := text, stderr := "" }
  | .error failure => { code := 1, stdout := "", stderr := failure.render }

end Request
end DartKernel
