import EmotionEngine.Arith.Integer
import EmotionEngine.Arith.Lanes
import EmotionEngine.Arith.MulDiv
import EmotionEngine.Block.Basic
import EmotionEngine.Block.Build
import EmotionEngine.Block.Run
import EmotionEngine.Cache.Arena
import EmotionEngine.Cache.Basic
import EmotionEngine.Cache.Check
import EmotionEngine.Cache.Insert
import EmotionEngine.Code.Basic
import EmotionEngine.Code.Draft
import EmotionEngine.Code.OfBlock
import EmotionEngine.Code.OfInsn
import EmotionEngine.Code.Site
import EmotionEngine.Config.Machine
import EmotionEngine.Cpu.Basic
import EmotionEngine.Cpu.Control
import EmotionEngine.Cpu.Field
import EmotionEngine.Cpu.Float
import EmotionEngine.Cpu.Layout
import EmotionEngine.Error
import EmotionEngine.Float.Dyadic
import EmotionEngine.Float.Single
import EmotionEngine.Host.Assembly
import EmotionEngine.Host.Call
import EmotionEngine.Host.CodeByte
import EmotionEngine.Host.Decode
import EmotionEngine.Host.Flags
import EmotionEngine.Host.Insn
import EmotionEngine.Host.Opcode
import EmotionEngine.Host.Reg
import EmotionEngine.Host.Run
import EmotionEngine.Host.State
import EmotionEngine.Insn.Basic
import EmotionEngine.Insn.Decode
import EmotionEngine.Insn.Describe
import EmotionEngine.Insn.Disasm
import EmotionEngine.Insn.Encode
import EmotionEngine.Insn.Uses
import EmotionEngine.Machine.Basic
import EmotionEngine.Machine.Native
import EmotionEngine.Machine.Run
import EmotionEngine.Machine.Step
import EmotionEngine.Main
import EmotionEngine.Memory.Access
import EmotionEngine.Memory.Basic
import EmotionEngine.Memory.Device
import EmotionEngine.Memory.Guest
import EmotionEngine.Memory.Map
import EmotionEngine.Memory.Observe
import EmotionEngine.Memory.Table
import EmotionEngine.Plan.Allocate
import EmotionEngine.Plan.Basic
import EmotionEngine.Proofs.Block.Alike
import EmotionEngine.Proofs.Block.Build
import EmotionEngine.Proofs.Block.Constants
import EmotionEngine.Proofs.Block.Control
import EmotionEngine.Proofs.Block.Current
import EmotionEngine.Proofs.Block.Effect
import EmotionEngine.Proofs.Block.Exec
import EmotionEngine.Proofs.Block.Precise
import EmotionEngine.Proofs.Block.Shape
import EmotionEngine.Proofs.Block.Successors
import EmotionEngine.Proofs.Block.Units
import EmotionEngine.Proofs.Block.Uses
import EmotionEngine.Proofs.Block.Watch
import EmotionEngine.Proofs.Cache.Arena
import EmotionEngine.Proofs.Cache.Consistent
import EmotionEngine.Proofs.Cache.Evict
import EmotionEngine.Proofs.Cache.Insert
import EmotionEngine.Proofs.Cache.Operations
import EmotionEngine.Proofs.Cache.Partition
import EmotionEngine.Proofs.Cache.Pins
import EmotionEngine.Proofs.Cache.Session
import EmotionEngine.Proofs.Cache.Stock
import EmotionEngine.Proofs.Cache.Total
import EmotionEngine.Proofs.Cache.Traffic
import EmotionEngine.Proofs.Code.Blind
import EmotionEngine.Proofs.Code.Blot
import EmotionEngine.Proofs.Code.Calls
import EmotionEngine.Proofs.Code.Control
import EmotionEngine.Proofs.Code.Correct
import EmotionEngine.Proofs.Code.Draft
import EmotionEngine.Proofs.Code.Exits
import EmotionEngine.Proofs.Code.Helpers
import EmotionEngine.Proofs.Code.Jumps
import EmotionEngine.Proofs.Code.Link
import EmotionEngine.Proofs.Code.Moves
import EmotionEngine.Proofs.Code.Native
import EmotionEngine.Proofs.Code.Operands
import EmotionEngine.Proofs.Code.Sites
import EmotionEngine.Proofs.Code.Size
import EmotionEngine.Proofs.Code.Total
import EmotionEngine.Proofs.Cpu.Computed
import EmotionEngine.Proofs.Cpu.File
import EmotionEngine.Proofs.Cpu.Float
import EmotionEngine.Proofs.Cpu.Rest
import EmotionEngine.Proofs.Cpu.System
import EmotionEngine.Proofs.Float.Double
import EmotionEngine.Proofs.Float.Dyadic
import EmotionEngine.Proofs.Float.Nearest
import EmotionEngine.Proofs.Float.Operations
import EmotionEngine.Proofs.Float.Pattern
import EmotionEngine.Proofs.Float.Round
import EmotionEngine.Proofs.Float.Truncate
import EmotionEngine.Proofs.Host.Assembly
import EmotionEngine.Proofs.Host.Decode
import EmotionEngine.Proofs.Host.Perform
import EmotionEngine.Proofs.Insn.Decode
import EmotionEngine.Proofs.Insn.Encode
import EmotionEngine.Proofs.Machine.Balance
import EmotionEngine.Proofs.Machine.Breakpoints
import EmotionEngine.Proofs.Machine.Constants
import EmotionEngine.Proofs.Machine.Dispatch
import EmotionEngine.Proofs.Machine.Enduring
import EmotionEngine.Proofs.Machine.Fresh
import EmotionEngine.Proofs.Machine.Handlers
import EmotionEngine.Proofs.Machine.History
import EmotionEngine.Proofs.Machine.Lines
import EmotionEngine.Proofs.Machine.Mapping
import EmotionEngine.Proofs.Machine.Modes
import EmotionEngine.Proofs.Machine.Native
import EmotionEngine.Proofs.Machine.Prepared
import EmotionEngine.Proofs.Machine.Privilege
import EmotionEngine.Proofs.Machine.Ready
import EmotionEngine.Proofs.Machine.Search
import EmotionEngine.Proofs.Machine.Solo
import EmotionEngine.Proofs.Machine.Step
import EmotionEngine.Proofs.Machine.Timer
import EmotionEngine.Proofs.Memory.Contents
import EmotionEngine.Proofs.Memory.Evolve
import EmotionEngine.Proofs.Memory.Flat
import EmotionEngine.Proofs.Memory.Pages
import EmotionEngine.Proofs.Memory.Pieces
import EmotionEngine.Proofs.Memory.Refine
import EmotionEngine.Proofs.Memory.Report
import EmotionEngine.Proofs.Memory.Table
import EmotionEngine.Proofs.Memory.Validity
import EmotionEngine.Proofs.Plan.Copies
import EmotionEngine.Proofs.Plan.Operands
import EmotionEngine.Proofs.Plan.Simulation
import EmotionEngine.Proofs.Plan.Steps
import EmotionEngine.Text.Number
import EmotionEngine.Text.Utf8
import EmotionEngine.Toml.Basic
import EmotionEngine.Toml.Document
import EmotionEngine.Toml.Number
import EmotionEngine.Toml.Text
import EmotionEngine.Tool.Args
import EmotionEngine.Tool.BlockDump
import EmotionEngine.Tool.Failure
import EmotionEngine.Tool.Run
import EmotionEngine.Word
