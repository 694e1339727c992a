import DartKernel.Invocation

open DartKernel

def readInput (path : String) : IO (Except String ByteArray) := do
  try
    return .ok (← IO.FS.readBinFile path)
  catch
    | .noFileOrDirectory .. => return .error "No such file or directory (os error 2)"
    | problem => return .error (toString problem)

def main (arguments : List String) : IO UInt32 := do
  match Request.parse arguments with
  | .error problem =>
    IO.eprintln s!"error: {problem}"
    return 2
  | .ok request =>
    let exit := request.run (← readInput request.input)
    IO.print exit.stdout
    IO.eprint exit.stderr
    return exit.code
