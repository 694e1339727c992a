import DartKernel.Component.View

namespace DartKernel

structure Component where
  header : Header
  directory : Directory
  session : Session
  sources : SourceTable
  metadata : Metadata
  constants : List Constant
  libraries : List Library
  diagnostics : List Diagnostic

namespace Component

/-- Reads all parts. The order matters where more than one is broken. -/
def ofView (view : View) : Except Fault Component := do
  let mappings ← view.mappings
  let sources ← view.sources
  let constants ← view.constants
  let libraries ← (List.range view.libraryCount).mapM view.library
  let metadata ← Metadata.ofMappings (← view.payloads) mappings view.session.strings
  let deprecated := constants.filter Constant.isDeprecated
  return {
    header := view.header
    directory := view.directory
    session := view.session
    sources, metadata, constants, libraries
    diagnostics := deprecated.foldl (fun reported constant =>
      Diagnostic.report reported (.deprecatedConstant constant.tag)) view.diagnostics }

def load (content : ByteArray) (options : DecodeOptions) : Except Fault Component := do
  ofView (← View.openFile content options)

def constant? (component : Component) (r : ConstantRef) : Option Constant :=
  component.constants[r.raw.toNat]?

def mainMethod (component : Component) : Except Fault (Option String) :=
  component.session.resolve component.directory.mainMethod.canonicalName

end Component
end DartKernel
