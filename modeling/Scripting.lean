import Scripting.Main
import Scripting.Proofs.Ensures
import Scripting.Proofs.ImportTables
import Scripting.Proofs.Forms
import Scripting.Proofs.Requests
import Scripting.Proofs.Sound
import Scripting.Proofs.Store
import Scripting.Proofs.Evaluation
import Scripting.Proofs.Bindings
import Scripting.Proofs.Invocations
import Scripting.Proofs.Moments
import Scripting.Proofs.Frame
import Scripting.Proofs.LogIntegrity
import Scripting.Proofs.Attachment
import Scripting.Proofs.CalleeView
import Scripting.Proofs.Dependence
import Scripting.Proofs.Publication
import Scripting.Proofs.Raising
import Scripting.Proofs.Conduct
import Scripting.Proofs.StatementConduct
import Scripting.Proofs.Outcomes
import Scripting.Proofs.Settled
import Scripting.Proofs.Runs
import Scripting.Proofs.Atomicity
import Scripting.Proofs.Locality
import Scripting.Proofs.Unwinding
import Scripting.Proofs.Depth
import Scripting.Proofs.Provenance
import Scripting.Proofs.Attribution
import Scripting.Proofs.Grammar
import Scripting.Proofs.Grammatical
import Scripting.Proofs.Reading
import Scripting.Proofs.WellFormed
import Scripting.Proofs.Alike
import Scripting.Proofs.Printing
import Scripting.Proofs.Recovery
import Scripting.Proofs.LikeStates
import Scripting.Proofs.Blind
import Scripting.Proofs.LikeRuns
import Scripting.Proofs.Displacement
import Scripting.Proofs.Chunks
import Scripting.Proofs.Origins
import Scripting.Proofs.Rendering
import Scripting.Proofs.Lossless
import Scripting.Proofs.Refusals
import Scripting.Proofs.Loading
import Scripting.Proofs.ImportGraph
import Scripting.Proofs.ExportClosure
import Scripting.Proofs.Rewriting
import Scripting.Proofs.Order
import Scripting.Proofs.Headroom
import Scripting.Proofs.DeadCode
import Scripting.Proofs.Asking
import Scripting.Proofs.Pending
import Scripting.Proofs.Pointing
import Scripting.Proofs.EntryPoints
import Scripting.Proofs.LikeReadings
import Scripting.Proofs.Layout
import Scripting.Proofs.Holdings
import Scripting.Proofs.Building
import Scripting.Proofs.Upkeep
import Scripting.Proofs.FitRuns
import Scripting.Proofs.References
import Scripting.Proofs.MixedArrays
import Scripting.Proofs.Agreement
import Scripting.Proofs.Unaided
import Scripting.Proofs.Handover
import Scripting.Proofs.Defects
import Scripting.Proofs.Slices
import Scripting.Proofs.Indices
import Scripting.Proofs.InRange
import Scripting.Proofs.Placeholders
import Scripting.Proofs.Braces
import Scripting.Proofs.Entering
import Scripting.Proofs.Entries
import Scripting.Proofs.Decoration
import Scripting.Proofs.Snapshots
