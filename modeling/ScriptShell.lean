import ScriptShell.Main
import ScriptShell.Proofs.Program.Height
import ScriptShell.Proofs.Loader.Transparent
import ScriptShell.Proofs.Program.Frame
import ScriptShell.Proofs.Token.Below
import ScriptShell.Proofs.Token.Line
import ScriptShell.Proofs.Program.Line
import ScriptShell.Proofs.Eval.Lockstep
import ScriptShell.Proofs.Eval.LoopFree
import ScriptShell.Proofs.Eval.Stopped
import ScriptShell.Proofs.Eval.Observed
import ScriptShell.Proofs.Interrupt.Conserved
import ScriptShell.Proofs.Session.Stale
import ScriptShell.Proofs.Session.Typed
import ScriptShell.Proofs.Expr.Complete
import ScriptShell.Proofs.Eval.Home
import ScriptShell.Proofs.Session.File
import ScriptShell.Proofs.Expr.Print
import ScriptShell.Proofs.Program.Print
import ScriptShell.Proofs.Program.Layout
import ScriptShell.Proofs.Program.RoundTrip
import ScriptShell.Proofs.Program.Nesting
import ScriptShell.Proofs.Program.Modes
import ScriptShell.Proofs.Session.Script
import ScriptShell.Proofs.Eval.Stack
import ScriptShell.Proofs.Eval.Traceback
import ScriptShell.Proofs.Eval.Arithmetic
import ScriptShell.Proofs.Program.Returns
import ScriptShell.Proofs.Program.Concat
import ScriptShell.Proofs.Program.Alone
import ScriptShell.Proofs.Token.Place
import ScriptShell.Proofs.Expr.Built
import ScriptShell.Proofs.Program.Made
import ScriptShell.Proofs.Program.Place
import ScriptShell.Proofs.Eval.Effect
import ScriptShell.Proofs.Program.WellFormed
import ScriptShell.Proofs.Eval.Targets
import ScriptShell.Proofs.Lines.Reading
import ScriptShell.Proofs.Eval.Display
import ScriptShell.Proofs.Program.Bracketed
