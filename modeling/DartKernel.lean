import DartKernel.Main
import DartKernel.Node.Mentions
import DartKernel.Window.Pool
import DartKernel.Window.Run
import DartKernel.Proofs.Cursor
import DartKernel.Proofs.Numerals
import DartKernel.Proofs.Reading
import DartKernel.Proofs.Nesting
import DartKernel.Proofs.Layout
import DartKernel.Proofs.Tags
import DartKernel.Proofs.NodeAgreement
import DartKernel.Proofs.NodeTokens
import DartKernel.Proofs.Taken
import DartKernel.Proofs.NodeRoundTrip
import DartKernel.Proofs.Carving
import DartKernel.Proofs.PartialLoading
import DartKernel.Proofs.TableLayout
import DartKernel.Proofs.ComponentLayout
import DartKernel.Proofs.DeclarationRoundTrip
import DartKernel.Proofs.ComponentRoundTrip
import DartKernel.Proofs.Locality
import DartKernel.Proofs.Confinement
import DartKernel.Proofs.WindowRuns
import DartKernel.Proofs.PrivateNames
import DartKernel.Proofs.Extent
import DartKernel.Proofs.DisjointRanges
import DartKernel.Proofs.RandomAccess
import DartKernel.Proofs.SessionDependence
import DartKernel.Proofs.JsonText
import DartKernel.Proofs.Inspection
import DartKernel.Proofs.TrailingTables
import DartKernel.Proofs.Stopping
import DartKernel.Proofs.NodeFaults
import DartKernel.Node.Measure
import DartKernel.Proofs.Consumption
import DartKernel.Window.Machine
import DartKernel.Proofs.Addressing
import DartKernel.Proofs.SourceLines
import DartKernel.Proofs.SourceLocations
import DartKernel.Proofs.MetadataLookup
import DartKernel.Proofs.IntegerCode
import DartKernel.Proofs.NameChains
import DartKernel.Component.Machine
import DartKernel.Proofs.DirectoryTrailer
import DartKernel.Proofs.MetadataSection
import DartKernel.Proofs.StringTiles
import DartKernel.Proofs.IntegerConstants
import DartKernel.Proofs.DiagnosticReports
import DartKernel.Node.TagByte
import DartKernel.Proofs.Visits
import DartKernel.Proofs.NodeVisits
import DartKernel.Proofs.TagBytes
import DartKernel.Proofs.SessionRuns
import DartKernel.Proofs.Requests
