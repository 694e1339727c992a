import DartKernel.Component.Diagnostic
import DartKernel.Decoder

namespace DartKernel

structure Header where
  version : FormatVersion
  /-- Problems as the front end encoded them. -/
  problems : List String
  deriving DecidableEq, Repr

namespace Header

def magic : UInt32 := 0x90ABCDEF

def decoder : TableDecoder Header := do
  let found ← Decoder.word
  if found ≠ magic then .fail (.badMagic magic found)
  else
    let version : FormatVersion := ⟨← Decoder.word⟩
    if version.hasProblems then
      return ⟨version, ← Decoder.list (Decoder.text .problems)⟩
    return ⟨version, []⟩

def diagnostics (header : Header) : List Diagnostic :=
  if header.version.hasProblems then
    if header.problems.isEmpty then [] else [.problems header.problems.length]
  else if header.version.isKnown then []
  else [.unknownFormatVersion header.version.number]

end Header
end DartKernel
