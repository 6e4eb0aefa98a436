import ChipEight.Arcade
import ChipEight.Main
import ChipEight.Proofs.Checked.Safety
import ChipEight.Proofs.Flat.Refinement
import ChipEight.Proofs.Scheduler.Batching
import ChipEight.Proofs.Scheduler.Viewer
import ChipEight.Proofs.Scheduler.Stopping
import ChipEight.Proofs.Scheduler.Status
import ChipEight.Proofs.Scheduler.Termination
import ChipEight.Proofs.Machine.Calls
import ChipEight.Proofs.Machine.WriteSet
import ChipEight.Proofs.Machine.LeftBehind
import ChipEight.Proofs.Instruction.Words
import ChipEight.Proofs.Instruction.Disassembly
import ChipEight.Proofs.Machine.Counter
import ChipEight.Proofs.Display.Cancellation
import ChipEight.Proofs.Display.Queue
import ChipEight.Proofs.Keypad.Shared
import ChipEight.Proofs.Keypad.Unseen
import ChipEight.Proofs.Keypad.Interleaving
import ChipEight.Proofs.Console.WholeRun
import ChipEight.Proofs.Console.Fields
import ChipEight.Proofs.Display.Torus
import ChipEight.Proofs.Machine.Drawing
import ChipEight.Proofs.Machine.Operands
import ChipEight.Proofs.Machine.LongNumbers
import ChipEight.Proofs.Machine.Transfers
import ChipEight.Proofs.Machine.Loading
import ChipEight.Proofs.Machine.Timers
import ChipEight.Proofs.Keypad.Waiting
import ChipEight.Proofs.Console.Spellings
import ChipEight.Proofs.Keypad.Held
