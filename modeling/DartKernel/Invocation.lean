import DartKernel.CommandLine

namespace DartKernel

inductive CommandOption where
  | json | parallel | assertSynthetic | library
  deriving DecidableEq, Repr

namespace CommandOption

def ofLong? : String → Option CommandOption
  | "json" => some .json
  | "parallel" => some .parallel
  | "assert-synthetic" => some .assertSynthetic
  | "library" => some .library
  | _ => none

def ofShort? : Char → Option CommandOption
  | 'j' => some .json
  | 'p' => some .parallel
  | 'a' => some .assertSynthetic
  | 'l' => some .library
  | _ => none

def takesValue : CommandOption → Bool
  | .json | .parallel => false
  | .assertSynthetic | .library => true

end CommandOption

/-- What the arguments of a summary have said so far. Other options than its own are unknown here,
those for help among them. -/
structure Invocation where
  request : Request := { input := "" }
  input : Option String := none
  given : List CommandOption := []
  /-- The option that the next argument is the value of. -/
  pending : Option CommandOption := none
  /-- Behind two dashes alone no argument is an option any more. -/
  inputsOnly : Bool := false

namespace Invocation

/-- The number that digits spell, with or without a plus sign, if 64 bits can hold it. -/
def index? (text : String) : Option Nat := do
  let digits := match text.toList with
    | '+' :: rest => rest
    | chars => chars
  guard (!digits.isEmpty && digits.all Char.isDigit)
  let value : Nat := digits.foldl (fun n c => 10 * n + (c.toNat - '0'.toNat)) 0
  guard (value < UInt64.size)
  return value

def takeInput (it : Invocation) (text : String) : Except String Invocation :=
  match it.input with
  | some _ => .error s!"unexpected argument `{text}`"
  | none => .ok { it with input := some text }

def takeValue (it : Invocation) (option : CommandOption) (value : String) :
    Except String Invocation :=
  match option with
  | .assertSynthetic => do
    let assertSynthetic ← SyntheticFlag.parse value
    return { it with request.assertSynthetic := assertSynthetic, pending := none }
  | .library =>
    match index? value with
    | some index => .ok { it with request.library := some index, pending := none }
    | none => .error s!"`{value}` is no library index"
  | .json | .parallel => .error s!"unexpected value `{value}`"

def takeOption (it : Invocation) (option : CommandOption) (value : Option String) :
    Except String Invocation :=
  if option ∈ it.given then .error "an option is given twice"
  else
    let it := { it with given := option :: it.given }
    match value, option with
    | some value, option => it.takeValue option value
    | none, .json => .ok { it with request.json := true }
    | none, .parallel => .ok { it with request.parallel := true }
    | none, option => .ok { it with pending := some option }

def takeShort (it : Invocation) : List Char → Except String Invocation
  | [] => .ok it
  | letter :: rest =>
    match CommandOption.ofShort? letter with
    | none => .error s!"unexpected argument `-{letter}`"
    | some option =>
      if option.takesValue then
        let value := if rest.head? = some '=' then rest.tail else rest
        it.takeOption option (if rest.isEmpty then none else some (String.ofList value))
      else do (← it.takeOption option none).takeShort rest

def takeLong (it : Invocation) (text : List Char) : Except String Invocation :=
  let name := String.ofList (text.takeWhile (· ≠ '='))
  match CommandOption.ofLong? name, text.dropWhile (· ≠ '=') with
  | none, _ => .error s!"unexpected argument `--{name}`"
  | some option, [] => it.takeOption option none
  | some option, _ :: value => it.takeOption option (some (String.ofList value))

def take (it : Invocation) (argument : String) : Except String Invocation :=
  match it.pending with
  | some option =>
    if argument.startsWith "-" && argument ≠ "-" then .error s!"no value before `{argument}`"
    else it.takeValue option argument
  | none =>
    if it.inputsOnly then it.takeInput argument
    else
      match argument.toList with
      | ['-', '-'] => .ok { it with inputsOnly := true }
      | '-' :: '-' :: long => it.takeLong long
      | '-' :: letter :: rest => it.takeShort (letter :: rest)
      | _ => it.takeInput argument

end Invocation

def Request.parse (arguments : List String) : Except String Request := do
  let it ← arguments.foldlM Invocation.take {}
  match it.pending, it.input with
  | some _, _ => throw "the last option has no value"
  | none, none => throw "the input file is missing"
  | none, some input => return { it.request with input }

end DartKernel
