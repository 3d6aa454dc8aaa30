import StackMachine.Main
import StackMachine.Proofs.Assembly.Grammar
import StackMachine.Proofs.Assembly.Reports
import StackMachine.Proofs.Command.Exit
import StackMachine.Proofs.Command.RunOrder
import StackMachine.Proofs.Command.Session
import StackMachine.Proofs.Machine.Budget
import StackMachine.Proofs.Machine.Ending
import StackMachine.Proofs.Machine.Engine
import StackMachine.Proofs.Machine.Extension
import StackMachine.Proofs.Machine.Frame
import StackMachine.Proofs.Machine.Trace
import StackMachine.Proofs.Machine.Unbounded
import StackMachine.Proofs.Random.Uniform
import StackMachine.Proofs.Sample.Image
import StackMachine.Proofs.Sample.Promises
import StackMachine.Proofs.Sample.Tags
import StackMachine.Proofs.Sample.Template
import StackMachine.Proofs.Python.Parity
import StackMachine.Proofs.Java.Parity
import StackMachine.Proofs.Rust.Parity
import StackMachine.Proofs.Render.Blocks
import StackMachine.Proofs.Render.Resolved
import StackMachine.Proofs.Render.Texts
import StackMachine.Proofs.Policy.Resolution
import StackMachine.Proofs.Text.Cursor
import StackMachine.Proofs.Word.Exact
import StackMachine.Proofs.Decimal.Conversion
import StackMachine.Proofs.Assembly.Runs
import StackMachine.Proofs.Command.InputList
