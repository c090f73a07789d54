import Allotment.Lab
import Allotment.Store.Memory
import Allotment.Store.Unreliable
import Allotment.Proofs.Stateful
import Allotment.Proofs.Eval.Simulation
import Allotment.Proofs.Dict
import Allotment.Proofs.Eval.Inputs
import Allotment.Proofs.Eval.Ordered
import Allotment.Proofs.Store.Journal
import Allotment.Proofs.Trial.Request
import Allotment.Proofs.Trial.Recording
import Allotment.Proofs.Trial.AtMostOnce
import Allotment.Proofs.Trial.Completeness
import Allotment.Proofs.Store.Reachable
import Allotment.Proofs.Trial.InMemory
import Allotment.Proofs.Lab.Joining
import Allotment.Proofs.Lab.Preview
import Allotment.Proofs.Trial.Simulation
import Allotment.Proofs.Json.Parts
import Allotment.Proofs.Expr.Fields
import Allotment.Proofs.Expr.RoundTrip
import Allotment.Proofs.Expr.Grammar
import Allotment.Proofs.Expr.Acceptance
import Allotment.Proofs.Store.Outages
import Allotment.Proofs.Lab.Seeding
import Allotment.Proofs.Eval.Verdict
import Allotment.Proofs.Eval.Appending
import Allotment.Proofs.Eval.Outputs
import Allotment.Proofs.Store.OnePerKey
import Allotment.Proofs.Lab.Commands
import Allotment.Proofs.Results
import Allotment.Proofs.Expr.Plain
import Allotment.Proofs.Trial.Lifecycle
import Allotment.Proofs.Lab.FirstControl
import Allotment.Proofs.Eval.Independence
import Allotment.Proofs.Eval.Overrides
import Allotment.Proofs.Eval.Salts
import Allotment.Proofs.Expr.Origins
import Allotment.Proofs.Expr.Rereading
import Allotment.Proofs.Definition.Rereading
import Allotment.Proofs.Json.Tokens
import Allotment.Proofs.Json.Rereading
import Allotment.Proofs.Json.Records
import Allotment.Proofs.Definition.Text
import Allotment.Proofs.Time.Calendar
import Allotment.Proofs.Time.Rereading
import Allotment.Proofs.Record.Rereading
import Allotment.Proofs.Draw.Shuffle
import Allotment.Proofs.Draw.Operands
import Allotment.Proofs.Draw.Sample
import Allotment.Proofs.Draw.Filter
import Allotment.Proofs.Draw.Uniform
import Allotment.Proofs.Draw.Range
import Allotment.Proofs.Draw.Refusals
import Allotment.Proofs.Operation.Round
import Allotment.Proofs.Operation.Aggregate
import Allotment.Proofs.Operation.Overflow
import Allotment.Proofs.Eval.Numeric
import Allotment.Proofs.Operation.Comparison
import Allotment.Proofs.Operation.Equality
import Allotment.Proofs.Totals
import Allotment.Proofs.Trial.Additions
import Allotment.Proofs.Trial.Retrying
import Allotment.Proofs.Eval.Faults
import Allotment.Proofs.Eval.Frame
import Allotment.Proofs.Eval.VisibleSalt
import Allotment.Proofs.Record.ControlValues
import Allotment.Proofs.Text.Quoted
import Allotment.Proofs.Json.Separated
import Allotment.Proofs.Json.Spelling
import Allotment.Proofs.Text.Printable
import Allotment.Proofs.Json.Printable
import Allotment.Proofs.Operation.Modulo
import Allotment.Proofs.Draw.Guarded
import Allotment.Proofs.Eval.Guarded
