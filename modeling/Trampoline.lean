import Trampoline.Expr.Outline
import Trampoline.Machine.Batch
import Trampoline.Main
import Trampoline.Number.Reader
import Trampoline.Prompt.Highlight
import Trampoline.Proofs.Accounts
import Trampoline.Proofs.Assignment
import Trampoline.Proofs.Awaiting
import Trampoline.Proofs.CallCC
import Trampoline.Proofs.Chains
import Trampoline.Proofs.Containment
import Trampoline.Proofs.Deferral
import Trampoline.Proofs.Dumps
import Trampoline.Proofs.FrontEnds
import Trampoline.Proofs.Highlighting
import Trampoline.Proofs.HostStack
import Trampoline.Proofs.JoinedSessions
import Trampoline.Proofs.LetForms
import Trampoline.Proofs.Metering
import Trampoline.Proofs.ModeIndependence
import Trampoline.Proofs.Modes
import Trampoline.Proofs.Nesting
import Trampoline.Proofs.Outlines
import Trampoline.Proofs.Progress
import Trampoline.Proofs.Renderings
import Trampoline.Proofs.Schedule
import Trampoline.Proofs.Scoping
import Trampoline.Proofs.Written
import Trampoline.Session
import Trampoline.Proofs.Positions
import Trampoline.Proofs.FaultPlaces
import Trampoline.Proofs.LazyStream
import Trampoline.Proofs.Termination
