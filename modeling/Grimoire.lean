import Grimoire.Main
import Grimoire.Scope.Family
import Grimoire.Proofs.Text.Quoted
import Grimoire.Proofs.Number.Numeral
import Grimoire.Proofs.Number.Rounding
import Grimoire.Proofs.Number.Decimal
import Grimoire.Proofs.Number.Nearest
import Grimoire.Proofs.Number.Notation
import Grimoire.Proofs.Value.Domain
import Grimoire.Proofs.Value.Arithmetic
import Grimoire.Proofs.Value.Comparison
import Grimoire.Proofs.Token.Shape
import Grimoire.Proofs.Token.Scanning
import Grimoire.Proofs.Token.Lines
import Grimoire.Proofs.Value.Reply
import Grimoire.Proofs.Token.Segments
import Grimoire.Proofs.Token.Rendering
import Grimoire.Proofs.Token.Failing
import Grimoire.Proofs.Token.Pieces
import Grimoire.Proofs.Tree.Spelling
import Grimoire.Proofs.Tree.Contract
import Grimoire.Proofs.Tree.Reading
import Grimoire.Proofs.Tree.Grammatical
import Grimoire.Proofs.Tree.Parsing
import Grimoire.Proofs.Tree.Within
import Grimoire.Proofs.Tree.Parts
import Grimoire.Proofs.Tree.Relining
import Grimoire.Proofs.Tree.Likeness
import Grimoire.Proofs.Tree.Conduct
import Grimoire.Proofs.Tree.Completion
import Grimoire.Proofs.Tree.Lenient
import Grimoire.Proofs.Tree.Listing
import Grimoire.Proofs.Tree.Sketch
import Grimoire.Proofs.Scope.Chain
import Grimoire.Proofs.Scope.Agreement
import Grimoire.Proofs.Scope.Branching
import Grimoire.Proofs.Run.Congruence
import Grimoire.Proofs.Run.Course
import Grimoire.Proofs.Run.Transport
import Grimoire.Proofs.Run.Layout
import Grimoire.Proofs.Run.Halting
import Grimoire.Proofs.Run.StepLimit
import Grimoire.Proofs.Run.Accounting
import Grimoire.Proofs.Run.BlockScope
import Grimoire.Proofs.Run.Mention
import Grimoire.Proofs.Run.Domain
import Grimoire.Proofs.Run.Expression
import Grimoire.Proofs.Run.Effect
import Grimoire.Proofs.Run.Outcome
import Grimoire.Proofs.Run.Report
import Grimoire.Proofs.Run.Printing
import Grimoire.Proofs.Run.Sequence
import Grimoire.Proofs.Run.Numerals
import Grimoire.Proofs.Run.Unrolling
import Grimoire.Proofs.Run.Concatenation
import Grimoire.Proofs.Console.Brackets
import Grimoire.Proofs.Console.Layout
import Grimoire.Proofs.Console.Counting
import Grimoire.Proofs.Console.Dialogue
import Grimoire.Proofs.Console.Showing
import Grimoire.Proofs.Console.Survival
import Grimoire.Proofs.Console.Running
import Grimoire.Proofs.Console.Arguments
import Grimoire.Proofs.Token.Placing
import Grimoire.Proofs.Tree.Calls
import Grimoire.Proofs.Console.Sample
import Grimoire.Proofs.Tree.Leniency
