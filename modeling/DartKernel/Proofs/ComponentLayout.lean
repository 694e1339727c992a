import DartKernel.Component.Load
import DartKernel.Proofs.MetadataTable
import DartKernel.Proofs.NodeTokens
import DartKernel.Proofs.Placement
import DartKernel.Proofs.TableLayout

namespace DartKernel

namespace TableLayout

def trees : (sort : Empty) → Empty.elim sort → List Token := fun sort => sort.elim

theorem written (grammar : Grammar (Empty.elim : Empty → Type)) :
    Decoder.Written grammar trees := fun _ _ sort => sort.elim

end TableLayout

/-- A class, and whether an index of its procedures follows it. -/
structure ClassDescription where
  body : Class
  indexed : Bool

def procedureBytes (session : Session) (_ : Nat) (it : Procedure) : List UInt8 :=
  (NodeLayout.procedure session it).write (NodeLayout.treeTokens session)

namespace ClassDescription

variable (session : Session) (it : ClassDescription)

def bare : Class := { it.body with procedureOffsets := none }

/-- What is written before the first procedure. -/
def front : List UInt8 :=
  (NodeLayout.classHead session it.body ++ Layout.uint it.body.procedures.length).write
    (NodeLayout.treeTokens session)

def back : List UInt8 :=
  (Layout.list (NodeLayout.redirectingFactory session) it.body.redirectingFactories).write
    (NodeLayout.treeTokens session)

/-- Where the procedures lie, and where the last one ends, when the class starts at `start`. -/
def procedureOffsets (start : Nat) : List UInt32 :=
  bounds (procedureBytes session) (start + (it.front session).length) it.body.procedures

def indexBytes (start : Nat) : List UInt8 :=
  if it.indexed then
    wordsBytes (it.procedureOffsets session start) ++ wordBytes it.body.procedures.length.toUInt32
  else []

def write (start : Nat) : List UInt8 :=
  it.front session
    ++ stretch (procedureBytes session) (start + (it.front session).length) it.body.procedures
    ++ it.back session ++ it.indexBytes session start

/-- The class as it is read where it is written. -/
def placed (start : Nat) : Class :=
  { it.body with
    procedureOffsets := if it.indexed then some (it.procedureOffsets session start) else none }

def WellFormed : Prop := (NodeLayout.classBody session it.bare).Fits (NodeLayout.treeTokens session)

end ClassDescription

structure LibraryDescription where
  head : LibraryHead
  classes : List ClassDescription
  fields : List Field
  procedures : List Procedure

namespace LibraryDescription

variable (session : Session) (it : LibraryDescription) (start : Nat)

def headBytes : List UInt8 :=
  (NodeLayout.libraryHead it.head).write (NodeLayout.treeTokens session)

def fieldBytes : List UInt8 :=
  (Layout.list (NodeLayout.field session) it.fields).write (NodeLayout.treeTokens session)

def classStart : Nat := start + (it.headBytes session).length

def classBytes : List UInt8 :=
  stretch (fun start it => it.write session start) (it.classStart session start) it.classes

def procedureStart : Nat :=
  it.classStart session start + (it.classBytes session start).length
    + (it.fieldBytes session).length

def index : LibraryIndex where
  classOffsets :=
    bounds (fun start it => it.write session start) (it.classStart session start) it.classes
  procedureOffsets :=
    bounds (procedureBytes session) (it.procedureStart session start) it.procedures

def indexBytes : List UInt8 :=
  wordsBytes (it.index session start).classOffsets ++ wordBytes it.classes.length.toUInt32
    ++ wordsBytes (it.index session start).procedureOffsets
    ++ wordBytes it.procedures.length.toUInt32

def declarationBytes : List UInt8 :=
  it.headBytes session ++ it.classBytes session start ++ it.fieldBytes session
    ++ stretch (procedureBytes session) (it.procedureStart session start) it.procedures

def write : List UInt8 := it.declarationBytes session start ++ it.indexBytes session start

def placed : Library :=
  { it.head with
    classes := (place (fun start it => it.write session start) (it.classStart session start)
      it.classes).map fun part => part.2.placed session part.1
    fields := it.fields
    procedures := it.procedures
    index := it.index session start }

structure WellFormed : Prop where
  head : (NodeLayout.libraryHead it.head).Fits (NodeLayout.treeTokens session)
  classes : ∀ description ∈ it.classes, description.WellFormed session
  fields :
    (Layout.list (NodeLayout.field session) it.fields).Fits (NodeLayout.treeTokens session)
  procedures :
    ∀ procedure ∈ it.procedures,
      (NodeLayout.procedure session procedure).Fits (NodeLayout.treeTokens session)

end LibraryDescription

structure ComponentDescription where
  version : UInt32
  problems : List String
  strings : List String
  names : List CanonicalName
  /-- Each source with its word in the index of the source table. -/
  sources : List (SourceInfo × UInt32)
  payloads : List UInt8
  mappings : List MetadataMapping
  constants : List Constant
  mainMethod : ProcedureRef
  libraries : List LibraryDescription

namespace ComponentDescription

variable (it : ComponentDescription)

def header : Header := ⟨⟨it.version⟩, it.problems⟩

def sourceTable : SourceTable := ⟨it.sources.map Prod.fst, it.sources.map Prod.snd⟩

variable (options : DecodeOptions)

def session : Session :=
  ⟨.ofList it.strings, .ofList it.names, options, ⟨it.version⟩⟩

def headerBytes : List UInt8 := (TableLayout.header it.header).write TableLayout.trees

def libraryBytes : List UInt8 :=
  stretch (fun start library => library.write (it.session options) start) it.headerBytes.length
    it.libraries

def sourceBytes : List UInt8 := (TableLayout.sources it.sourceTable).write TableLayout.trees

def nameBytes : List UInt8 :=
  (TableLayout.canonicalNames (.ofList it.names)).write TableLayout.trees

def mappingBytes : List UInt8 := wordsBytes (MetadataMapping.sectionWords it.mappings)

def stringBytes : List UInt8 := (TableLayout.strings (.ofList it.strings)).write TableLayout.trees

def constantBytes : List UInt8 :=
  (Layout.list NodeLayout.constant it.constants).write
    (NodeLayout.treeTokens (it.session options))

def sourceStart : Nat := it.headerBytes.length + (it.libraryBytes options).length

def nameStart : Nat := it.sourceStart options + it.sourceBytes.length

def payloadStart : Nat := it.nameStart options + it.nameBytes.length

def mappingStart : Nat := it.payloadStart options + it.payloads.length

def stringStart : Nat := it.mappingStart options + it.mappingBytes.length

def constantStart : Nat := it.stringStart options + it.stringBytes.length

def directoryStart : Nat := it.constantStart options + (it.constantBytes options).length

def directory : Directory where
  sourceTable := (it.sourceStart options).toUInt32
  canonicalNames := (it.nameStart options).toUInt32
  metadataPayloads := (it.payloadStart options).toUInt32
  metadataMappings := (it.mappingStart options).toUInt32
  stringTable := (it.stringStart options).toUInt32
  constantTable := (it.constantStart options).toUInt32
  mainMethod := it.mainMethod
  libraryOffsets :=
    bounds (fun start library => library.write (it.session options) start) it.headerBytes.length
      it.libraries
  libraryCount := it.libraries.length.toUInt32
  fileSize := (it.directoryStart options + 4 * (it.libraries.length + 10)).toUInt32

def sectionBytes : List UInt8 :=
  it.headerBytes ++ it.libraryBytes options ++ it.sourceBytes ++ it.nameBytes ++ it.payloads
    ++ it.mappingBytes ++ it.stringBytes ++ it.constantBytes options

def write : List UInt8 :=
  it.sectionBytes options ++ wordsBytes (TableLayout.directoryWords (it.directory options))

def placedLibraries : List Library :=
  (place (fun start library => library.write (it.session options) start) it.headerBytes.length
    it.libraries).map fun part => part.2.placed (it.session options) part.1

/-- A description that can be laid out: what is written as a variable-length integer has a tier that
holds it, the nodes can be written in the session, there are problems only where the version has
room for them, the tags of the metadata are strings that differ from one another, and the file is
not too long for its offsets. -/
structure WellFormed : Prop where
  header : (TableLayout.header it.header).Fits TableLayout.trees
  strings : (TableLayout.strings (.ofList it.strings)).Fits TableLayout.trees
  names : (TableLayout.canonicalNames (.ofList it.names)).Fits TableLayout.trees
  sources : ∀ source ∈ it.sources, (TableLayout.sourceInfo source.1).Fits TableLayout.trees
  tags : ∀ mapping ∈ it.mappings,
    ∃ text, StringTable.text (.ofList it.strings) mapping.tag = .ok text
  tagsDiffer : it.mappings.Pairwise fun mapping other =>
    StringTable.text (.ofList it.strings) mapping.tag ≠
      StringTable.text (.ofList it.strings) other.tag
  constants :
    (Layout.list NodeLayout.constant it.constants).Fits
      (NodeLayout.treeTokens (it.session options))
  libraries : ∀ library ∈ it.libraries, library.WellFormed (it.session options)
  size : (it.write options).length < UInt32.size

end ComponentDescription

/-- The component holds what a description says, each part where the layout puts it. -/
structure Component.Holds (component : Component) (description : ComponentDescription)
    (options : DecodeOptions) : Prop where
  header : component.header = description.header
  directory : component.directory = description.directory options
  session : component.session = description.session options
  sources : component.sources = description.sourceTable
  payloads : component.metadata.payloads.bytes = description.payloads
  mappings : component.metadata.mappings.map Prod.snd = description.mappings
  tags : ∀ keyed ∈ component.metadata.mappings,
    component.session.strings.text keyed.2.tag = .ok keyed.1
  constants : component.constants = description.constants
  libraries : component.libraries = description.placedLibraries options

end DartKernel
