import DartKernel.Component.Directory
import DartKernel.Component.Header
import DartKernel.Component.Metadata
import DartKernel.Component.Source
import DartKernel.Declaration.Library
import DartKernel.Node.Constant

namespace DartKernel

structure View where
  file : Window
  header : Header
  directory : Directory
  session : Session

namespace View

/-- Reads the header, the directory, the strings and the canonical names. Every other part is read
when it is asked for. -/
def openFile (content : ByteArray) (options : DecodeOptions) : Except Fault View := do
  let file := Window.ofBytes content
  let header ← Scan.value (TableDecoder.run Header.decoder) file
  let directory ← Directory.ofFile file
  let strings ← Scan.value (TableDecoder.run StringTable.decoder)
    (← file.sliceFrom directory.stringTable.toNat)
  let names ← Scan.value (TableDecoder.run CanonicalNames.decoder)
    (← file.sliceFrom directory.canonicalNames.toNat)
  let builder : SessionBuilder := { version := header.version, options }
  let session ← ((← builder.attachStrings strings).setNames names).build
  return { file, header, directory, session }

def diagnostics (view : View) : List Diagnostic := view.header.diagnostics

def libraryCount (view : View) : Nat := view.directory.libraryCount.toNat

def libraryWindow (view : View) (i : Nat) : Except Fault Window :=
  match view.directory.libraryRange? i with
  | some (start, stop) => view.file.sliceAbsolute start stop
  | none => .error (.invalidReference .library i.toUInt32 view.libraryCount)

def library (view : View) (i : Nat) : Except Fault Library := do
  Scan.value (Library.scan view.session.conventions) (← view.libraryWindow i)

def libraryIndex (view : View) (i : Nat) : Except Fault LibraryIndex := do
  LibraryIndex.ofWindow (← view.libraryWindow i)

def classAt (view : View) (i j : Nat) : Except Fault Class := do
  let w ← view.libraryWindow i
  Library.classAt view.session.conventions w (← LibraryIndex.ofWindow w) j

def procedureAt (view : View) (i j : Nat) : Except Fault Procedure := do
  let w ← view.libraryWindow i
  Library.procedureAt view.session.conventions w (← LibraryIndex.ofWindow w) j

def memberAt (view : View) (offset : UInt32) : Except Fault Member := do
  let c := view.session.conventions
  Scan.value (NodeDecoder.scan c (NodeDecoder.member c)) (← view.file.sliceFrom offset.toNat)

def constants (view : View) : Except Fault (List Constant) := do
  Scan.value (NodeDecoder.scan view.session.conventions (Decoder.list NodeDecoder.constant))
    (← view.file.sliceFrom view.directory.constantTable.toNat)

def sources (view : View) : Except Fault SourceTable := do
  Scan.value (TableDecoder.run SourceTable.decoder)
    (← view.file.sliceFrom view.directory.sourceTable.toNat)

def mappings (view : View) : Except Fault (List MetadataMapping) := do
  let (start, stop) := view.directory.mappingRange
  MetadataMapping.ofSection (← view.file.sliceAbsolute start stop)

def payloads (view : View) : Except Fault Window :=
  let (start, stop) := view.directory.payloadRange
  view.file.sliceAbsolute start stop

end View
end DartKernel
