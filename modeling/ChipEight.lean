import ChipEight.Host.Session
import ChipEight.Host.Worker
import ChipEight.Host.Handle
import ChipEight.Machine.Dump
import ChipEight.Proofs.Cycle.Step
import ChipEight.Proofs.Cycle.Actions
import ChipEight.Proofs.Cycle.Program
import ChipEight.Proofs.Decode.Patterns
import ChipEight.Proofs.Decode.Words
import ChipEight.Proofs.InPlace.Basic
import ChipEight.Proofs.InPlace.Agreement
import ChipEight.Proofs.Cycle.Faults
import ChipEight.Proofs.Cycle.Bounds
import ChipEight.Proofs.Cycle.Crash
import ChipEight.Proofs.Cycle.Executed
import ChipEight.Proofs.Cycle.Nesting
import ChipEight.Proofs.Keypad.Accounting
import ChipEight.Proofs.Observers.SideChannel
import ChipEight.Proofs.Host.Display
import ChipEight.Proofs.Observers.Delivery
import ChipEight.Proofs.Host.FirstCrash
import ChipEight.Proofs.Memory.Origin
import ChipEight.Proofs.Random.Lockstep
import ChipEight.Proofs.Timers.Countdown
import ChipEight.Proofs.Cycle.Frame
import ChipEight.Proofs.Memory.Glyphs
import ChipEight.Proofs.Screen.Dirty
import ChipEight.Proofs.Screen.Coverage
import ChipEight.Proofs.Host.Lifecycle
import ChipEight.Proofs.Host.Driving
import ChipEight.Proofs.Text.Reading
import ChipEight.Proofs.Dump.Rows
import ChipEight.Proofs.Dump.Tiling
import ChipEight.Proofs.Dump.Snapshot
import ChipEight.Proofs.Dump.Machine
import ChipEight.Proofs.Cycle.Counter
import ChipEight.Proofs.Keypad.Waiting
import ChipEight.Proofs.Screen.Stamps
import ChipEight.Proofs.Registers.Arithmetic
import ChipEight.Proofs.Registers.Transfer
import ChipEight.Proofs.Keypad.Interleaving
import ChipEight.Proofs.InPlace.Calls
import ChipEight.Proofs.Memory.ByteMap
import ChipEight.Proofs.Keypad.Queue
import ChipEight.Proofs.Screen.Parity
import ChipEight.Proofs.Observers.Numbering
import ChipEight.Proofs.Text.Listing
import ChipEight.Proofs.Dump.Collapsing
