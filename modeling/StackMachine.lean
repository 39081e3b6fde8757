import StackMachine.Main
import StackMachine.Native.Decoder
import StackMachine.Value.Inspect
import StackMachine.Proofs.Collection.Entries
import StackMachine.Proofs.Memory.Accounts
import StackMachine.Proofs.Memory.Resources
import StackMachine.Proofs.Memory.Reachability
import StackMachine.Proofs.Machine.Effect
import StackMachine.Proofs.Machine.Step
import StackMachine.Proofs.Control.Structured
import StackMachine.Proofs.Control.Simulation
import StackMachine.Proofs.Control.Equivalence
import StackMachine.Proofs.Control.LoopStack
import StackMachine.Proofs.Native.Encoding
import StackMachine.Proofs.Native.Memory
import StackMachine.Proofs.Native.Arithmetic
import StackMachine.Proofs.Native.Code
import StackMachine.Proofs.Native.Emission
import StackMachine.Proofs.Native.Instruction
import StackMachine.Proofs.Native.Agreement
import StackMachine.Proofs.Native.Correctness
import StackMachine.Proofs.Machine.Evolution
import StackMachine.Proofs.Session.Basic
import StackMachine.Proofs.Session.Collection
import StackMachine.Proofs.Session.Ledger
import StackMachine.Proofs.Session.Lifetime
import StackMachine.Proofs.Session.HeapLimit
import StackMachine.Proofs.Native.Discipline
import StackMachine.Proofs.Native.Printing
import StackMachine.Proofs.Native.Convention
import StackMachine.Proofs.Native.RefusedOutput
import StackMachine.Proofs.Debug.Breakpoints
import StackMachine.Proofs.Debug.Transparency
import StackMachine.Proofs.Native.UniqueReading
import StackMachine.Proofs.Machine.Control
import StackMachine.Proofs.Session.Control
import StackMachine.Proofs.Machine.FaultLine
import StackMachine.Proofs.Text.Blank
import StackMachine.Proofs.Code.Rendering
import StackMachine.Proofs.Memory.History
import StackMachine.Proofs.Machine.Past
import StackMachine.Proofs.Session.Reset
import StackMachine.Proofs.Machine.Nesting
import StackMachine.Proofs.Control.Forward
import StackMachine.Proofs.Session.NestedRuns
import StackMachine.Proofs.Native.Completeness
import StackMachine.Proofs.Memory.Figures
import StackMachine.Proofs.Memory.Freeing
import StackMachine.Proofs.Machine.PointerFlow
import StackMachine.Proofs.Memory.Enumeration
import StackMachine.Proofs.Session.References
import StackMachine.Proofs.Machine.StackTop
import StackMachine.Proofs.Debug.Conditions
import StackMachine.Proofs.Debug.Endings
import StackMachine.Proofs.Debug.Console
import StackMachine.Proofs.Native.Patching
import StackMachine.Proofs.Native.RepeatedPatching
import StackMachine.Proofs.Code.LineByLine
import StackMachine.Proofs.Native.Pages
import StackMachine.Proofs.Code.Literal
import StackMachine.Proofs.Number.Rounding
import StackMachine.Proofs.Number.Significant
import StackMachine.Proofs.Number.Positional
import StackMachine.Proofs.Number.Printed
import StackMachine.Proofs.Value.Arithmetic
import StackMachine.Proofs.Value.Comparison
import StackMachine.Proofs.Code.Matching
import StackMachine.Proofs.Machine.Builtin
import StackMachine.Proofs.Value.Repetition
import StackMachine.Proofs.Value.Subtext
import StackMachine.Proofs.Value.LeadingInteger
