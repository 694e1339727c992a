import DartKernel.Component.Load
import DartKernel.Report.Json

namespace DartKernel

structure ClassSummary where
  name : String
  fields : List String
  constructors : List String
  procedures : List String
  deriving DecidableEq, Repr

structure LibrarySummary where
  name : String
  isExternal : Bool
  dependencies : Nat
  typeAliases : Nat
  classes : List ClassSummary
  fields : List String
  procedures : List String
  deriving DecidableEq, Repr

structure ComponentSummary where
  version : UInt32
  problems : List String
  mainMethod : Option String
  strings : Nat
  canonicalNames : Nat
  constants : Nat
  sources : Nat
  metadata : List String
  diagnostics : List String
  libraries : List LibrarySummary
  deriving DecidableEq, Repr

namespace ClassSummary

def ofClass (session : Session) (it : Class) : Except Fault ClassSummary := do
  return {
    name := (← session.string it.name).getD "<anonymous>"
    fields := ← it.fields.mapM (session.memberText ·.name)
    constructors := ← it.constructors.mapM (session.memberText ·.name)
    procedures := ← it.procedures.mapM (session.memberText ·.name) }

def lines (summary : ClassSummary) : List String :=
  [s!"  class {summary.name}"] ++
    summary.fields.map (s!"    field {·}") ++
    summary.constructors.map (s!"    constructor {·}") ++
    summary.procedures.map (s!"    procedure {·}")

def json (summary : ClassSummary) : Json :=
  .object [
    ("name", .text summary.name),
    ("fields", .list (summary.fields.map .text)),
    ("constructors", .list (summary.constructors.map .text)),
    ("procedures", .list (summary.procedures.map .text))]

end ClassSummary

namespace LibrarySummary

/-- A library without a name of its own goes by its canonical name. -/
def displayName (session : Session) (it : Library) : Except Fault String := do
  match ← session.string it.name with
  | some name => return name
  | none => session.display it.canonicalName.canonicalName

def ofLibrary (session : Session) (it : Library) : Except Fault LibrarySummary := do
  return {
    name := ← displayName session it
    isExternal := it.isExternal
    dependencies := it.dependencies.length
    typeAliases := it.typeAliases.length
    classes := ← it.classes.mapM (ClassSummary.ofClass session)
    fields := ← it.fields.mapM (session.memberText ·.name)
    procedures := ← it.procedures.mapM (session.memberText ·.name) }

def lines (summary : LibrarySummary) : List String :=
  [s!"library {summary.name}" ++ if summary.isExternal then " (external)" else ""] ++
    summary.classes.flatMap ClassSummary.lines ++
    summary.fields.map (s!"  field {·}") ++
    summary.procedures.map (s!"  procedure {·}")

def json (summary : LibrarySummary) : Json :=
  .object [
    ("name", .text summary.name),
    ("external", .bool summary.isExternal),
    ("dependencies", .number summary.dependencies),
    ("typedefs", .number summary.typeAliases),
    ("classes", .list (summary.classes.map ClassSummary.json)),
    ("fields", .list (summary.fields.map .text)),
    ("procedures", .list (summary.procedures.map .text))]

end LibrarySummary

namespace ComponentSummary

def ofComponent (it : Component) : Except Fault ComponentSummary := do
  return {
    version := it.header.version.number
    problems := it.header.problems
    mainMethod := ← it.mainMethod
    strings := it.session.strings.size
    canonicalNames := it.session.names.size
    constants := it.constants.length
    sources := it.sources.size
    metadata := it.metadata.mappings.map Prod.fst
    diagnostics := it.diagnostics.map Diagnostic.message
    libraries := ← it.libraries.mapM (LibrarySummary.ofLibrary it.session) }

def headLines (summary : ComponentSummary) : List String :=
  [s!"format version {summary.version}"] ++
    (summary.mainMethod.map (s!"main method {·}")).toList ++
    [s!"{summary.strings} strings, {summary.canonicalNames} canonical names, " ++
      s!"{summary.constants} constants, {summary.sources} sources"] ++
    summary.metadata.map (s!"metadata {·}") ++
    summary.diagnostics.map (s!"warning: {·}")

def lines (summary : ComponentSummary) : List String :=
  summary.headLines ++ summary.libraries.flatMap LibrarySummary.lines

def json (summary : ComponentSummary) : Json :=
  .object [
    ("version", .number summary.version.toNat),
    ("problems", .list (summary.problems.map .text)),
    ("main_method", summary.mainMethod.elim .null .text),
    ("strings", .number summary.strings),
    ("canonical_names", .number summary.canonicalNames),
    ("constants", .number summary.constants),
    ("sources", .number summary.sources),
    ("metadata", .list (summary.metadata.map .text)),
    ("diagnostics", .list (summary.diagnostics.map .text)),
    ("libraries", .list (summary.libraries.map LibrarySummary.json))]

end ComponentSummary
end DartKernel
