import Scriptlet.Main
import Scriptlet.Value.Equality
import Scriptlet.Proofs.Syntax.Program
import Scriptlet.Proofs.Scopes.Session
import Scriptlet.Proofs.Scopes.NameSafety
import Scriptlet.Proofs.Scopes.Isolation
import Scriptlet.Proofs.Source.Tiling
import Scriptlet.Proofs.Value.Reread
import Scriptlet.Proofs.Source.Positions
import Scriptlet.Proofs.Syntax.Progress
import Scriptlet.Proofs.Syntax.Frames
import Scriptlet.Proofs.Syntax.Recovery
import Scriptlet.Proofs.Transform.Unrolling
import Scriptlet.Proofs.Transform.Pruning
import Scriptlet.Proofs.Front.Layout
import Scriptlet.Proofs.Scopes.History
import Scriptlet.Proofs.Front.Agreement
import Scriptlet.Proofs.Source.Lines
import Scriptlet.Proofs.Syntax.Branches
import Scriptlet.Proofs.Syntax.Brackets
import Scriptlet.Proofs.Value.Indexing
import Scriptlet.Proofs.Eval.ObjectLiteral
import Scriptlet.Proofs.Eval.Steps
import Scriptlet.Proofs.Eval.Counting
import Scriptlet.Proofs.Front.Counting
