import FaultRepair.Main
import FaultRepair.Server.Options
import FaultRepair.Server.Respond
import FaultRepair.Proofs.Fault.Deepening
import FaultRepair.Proofs.Fault.SliceAgreement
import FaultRepair.Proofs.Graph.Boundary
import FaultRepair.Proofs.Module.Containment
import FaultRepair.Proofs.Module.Workspaces
import FaultRepair.Proofs.Store.Numbering
import FaultRepair.Proofs.Graph.Dispatching
import FaultRepair.Proofs.Trace.RoundTrip
import FaultRepair.Proofs.Trace.Symbols
import FaultRepair.Proofs.Repair.Account
import FaultRepair.Proofs.Repair.Concatenation
import FaultRepair.Proofs.Repair.Locality
import FaultRepair.Proofs.Config.Acceptance
import FaultRepair.Proofs.Server.Interleaving
import FaultRepair.Proofs.Command.OnePass
import FaultRepair.Proofs.Fault.HandOff
import FaultRepair.Proofs.Fault.Reachability
import FaultRepair.Proofs.Fault.Saturation
import FaultRepair.Proofs.Server.SliceClosure
import FaultRepair.Proofs.Number.Clamping
import FaultRepair.Proofs.Fault.RankOrder
import FaultRepair.Proofs.Trace.FirstStack
import FaultRepair.Proofs.Repair.Unwrapping
import FaultRepair.Proofs.Fault.Staleness
