import HostBridge.Bench.Code
import HostBridge.LogSettings
import HostBridge.Native.Render
import HostBridge.Proofs.Abi.RoundTrip
import HostBridge.Proofs.Heap.Balance
import HostBridge.Proofs.Native.Comments
import HostBridge.Proofs.Native.Constants
import HostBridge.Proofs.Region.Balance
import HostBridge.Proofs.Region.Interruption
import HostBridge.Proofs.Region.Labelling
import HostBridge.Proofs.Region.Naming
import HostBridge.Proofs.Region.Refinement
import HostBridge.Proofs.Region.Shadowing
import HostBridge.Proofs.Region.Terminals
import HostBridge.Proofs.Run.Embedding
import HostBridge.Proofs.Run.Soundness
import HostBridge.Proofs.Value.Roles
import HostBridge.Proofs.Value.Sharing
import HostBridge.Proofs.Value.Widening
