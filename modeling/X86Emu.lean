import X86Emu.Run.Api
import X86Emu.Ops.Conditions
import X86Emu.Lib.Cells
import X86Emu.Memory.Flat
import X86Emu.Memory.Pages
import X86Emu.Memory.Acts
import X86Emu.Memory.Refinement
import X86Emu.Memory.Invalid
import X86Emu.Memory.Marked
import X86Emu.Run.Steps
import X86Emu.Memory.Protection
import X86Emu.Run.Protection
import X86Emu.Run.PortProtection
import X86Emu.Run.PortCalls
import X86Emu.Run.Twins
import X86Emu.Run.Inert
import X86Emu.Run.Ends
import X86Emu.Run.Slices
import X86Emu.Run.Replay
import X86Emu.Effects.Basic
import X86Emu.Effects.Decode
import X86Emu.Effects.Handlers
import X86Emu.Effects.TwoByte
import X86Emu.Effects.Frame
import X86Emu.Run.Budget
import X86Emu.Effects.Unchanged
import X86Emu.Run.View
import X86Emu.Alu.Compare
import X86Emu.Run.RealMode
import X86Emu.Run.Reserved
import X86Emu.Lib.Mailbox
import X86Emu.Run.Raised
import X86Emu.Decode.Seen
import X86Emu.Decode.Effective
import X86Emu.Decode.Rm
import X86Emu.Ops.Results
import X86Emu.Ops.Encodings
import X86Emu.Ops.Stack
import X86Emu.Ops.StackForms
import X86Emu.Ops.Rep
import X86Emu.Alu.Sums
import X86Emu.Alu.Rotates
import X86Emu.Alu.Shifts
import X86Emu.Alu.Counts
import X86Emu.Lib.Divide
import X86Emu.Ops.Divide
import X86Emu.Memory.Bytes
import X86Emu.Memory.Range
import X86Emu.Ops.BitString
import X86Emu.Memory.Ports
import X86Emu.Memory.PortAccess
import X86Emu.Memory.Alike
import X86Emu.Ops.PortString
import X86Emu.Decode.Limit
import X86Emu.Ops.Packed
import X86Emu.Decode.SegLoad
import X86Emu.Ops.Slots
import X86Emu.Ops.Lldt
import X86Emu.Ops.SavedFlags
import X86Emu.Ops.AllRegs
import X86Emu.Ops.Calls
import X86Emu.Ops.Delivery
import X86Emu.Ops.RealInt
import X86Emu.Ops.Frames
import X86Emu.Ops.PushPop
import X86Emu.Ops.SseMoves
import X86Emu.Alu.Decimal
import X86Emu.Memory.Stats
import X86Emu.Ops.Multiply
import X86Emu.Ops.Counters
import X86Emu.Run.Prefixes
import X86Emu.Run.Disasm
import X86Emu.Decode.Granularity
import X86Emu.Run.InfiniteLoop
import X86Emu.Ops.ProtInt
import X86Emu.Lib.Blocks
import X86Emu.Ops.Blocks
import X86Emu.Ops.Search
import X86Emu.Ops.ShiftCounts
import X86Emu.Run.NoExec
import X86Emu.Run.LogBounds
import X86Emu.Run.Undefined
