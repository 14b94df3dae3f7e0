import Quill.Main
import Quill.Proofs.Bisimilarity
import Quill.Proofs.Erasure.Noninterference
import Quill.Proofs.Heap.Elements
import Quill.Proofs.Heap.Objects
import Quill.Proofs.Method.Cutting
import Quill.Proofs.Method.Flattening
import Quill.Proofs.Method.Searching
import Quill.Proofs.Method.Splitting
import Quill.Proofs.Number.Keys
import Quill.Proofs.Order
import Quill.Proofs.Run.CallerScope
import Quill.Proofs.Run.CallingBack
import Quill.Proofs.Run.Frames
import Quill.Proofs.Run.Lines
import Quill.Proofs.Run.LoopControl
import Quill.Proofs.Run.Messages
import Quill.Proofs.Run.Reachable
import Quill.Proofs.Run.Registers
import Quill.Proofs.Run.Sessions
import Quill.Proofs.Run.Targets
import Quill.Proofs.Run.Termination
import Quill.Proofs.Script.HeaderTokens
import Quill.Proofs.Syntax.Fault.Order
import Quill.Proofs.Syntax.Indexed.Safety
import Quill.Proofs.Syntax.Layout.Contexts
import Quill.Proofs.Syntax.Layout.Programs
import Quill.Proofs.Syntax.RoundTrip
import Quill.Proofs.Syntax.Sequence.Programs
import Quill.Proofs.Syntax.Soundness.Stmt
import Quill.Proofs.Token.Quoting
import Quill.Proofs.Token.Spacing
