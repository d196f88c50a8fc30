import SuperChip.Main
import SuperChip.Window.Inputs
import SuperChip.Proofs.Display
import SuperChip.Machine.Operation
import SuperChip.Handover
import SuperChip.Proofs.WellFormed
import SuperChip.Proofs.Step
import SuperChip.Proofs.Reachable
import SuperChip.Proofs.Shown
import SuperChip.Proofs.Timing
import SuperChip.Proofs.Footprint
import SuperChip.Proofs.CallStack
import SuperChip.Proofs.Twin
import SuperChip.Proofs.Reset
import SuperChip.Proofs.Handover
import SuperChip.Machine.Thread
import SuperChip.Proofs.Timers
import SuperChip.Proofs.HeldKeys
import SuperChip.Proofs.Requests
import SuperChip.Proofs.Pixels
import SuperChip.Proofs.PutAway
import SuperChip.Proofs.Execution
import SuperChip.Proofs.Overlooked
import SuperChip.Proofs.UserFlags
import SuperChip.Proofs.LiveTrace
import SuperChip.Proofs.Course
import SuperChip.Terminal.Scribe
import SuperChip.Proofs.Scribe
import SuperChip.Proofs.Scrolling
import SuperChip.Proofs.Drawing
import SuperChip.Proofs.Unsupported
import SuperChip.Proofs.Pad
import SuperChip.Proofs.Terminal
import SuperChip.Proofs.Arithmetic
import SuperChip.Proofs.Transfer
import SuperChip.Proofs.Congruence
import SuperChip.Proofs.Overprinting
import SuperChip.Proofs.Double
import SuperChip.Proofs.Rounding
import SuperChip.Proofs.Burst
import SuperChip.Proofs.Waiting
import SuperChip.Proofs.Conversion
import SuperChip.Proofs.Speed
import SuperChip.Proofs.Typing
import SuperChip.Proofs.Numerals
import SuperChip.Proofs.Keymaps
import SuperChip.Proofs.Palette
import SuperChip.Proofs.Disassembly
import SuperChip.Proofs.Quotients
import SuperChip.Proofs.SpeedKeys
import SuperChip.Proofs.WindowKeys
import SuperChip.Proofs.Dump
import SuperChip.Proofs.CatchingUp
import SuperChip.Proofs.Holder
import SuperChip.Proofs.Torus
