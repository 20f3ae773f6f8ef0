import Lox.Main
import Lox.Console.Highlight
import Lox.Proofs.Console.Marks
import Lox.Proofs.Console.Nesting
import Lox.Proofs.Console.Prompts
import Lox.Proofs.Grammar.Blame
import Lox.Proofs.Grammar.Bounds
import Lox.Proofs.Grammar.Derivation
import Lox.Proofs.Grammar.Excess
import Lox.Proofs.Grammar.Movement
import Lox.Proofs.Grammar.Precedence
import Lox.Proofs.Grammar.Recognition
import Lox.Proofs.Grammar.Recovery
import Lox.Proofs.Grammar.Spelling
import Lox.Proofs.Machine.Access
import Lox.Proofs.Machine.Agreement
import Lox.Proofs.Machine.Likeness
import Lox.Proofs.Machine.Returns
import Lox.Proofs.Machine.Simulation
import Lox.Proofs.Outline.Programs
import Lox.Proofs.Scope.Survival
import Lox.Proofs.Scope.Verdict
import Lox.Proofs.Session.Activations
import Lox.Proofs.Session.Blame
import Lox.Proofs.Session.DeadCode
import Lox.Proofs.Session.Distance
import Lox.Proofs.Session.ForLoop
import Lox.Proofs.Session.Globals
import Lox.Proofs.Session.Endings
import Lox.Proofs.Session.Joining
import Lox.Proofs.Session.Layout
import Lox.Proofs.Session.Phases
import Lox.Proofs.Session.Renaming
import Lox.Proofs.Session.Restoration
import Lox.Proofs.Session.Turns
import Lox.Proofs.Token.LongestMatch
import Lox.Proofs.Token.Position
import Lox.Proofs.Token.Spacing
import Lox.Proofs.Console.Prompts
