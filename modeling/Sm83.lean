import Sm83.Arithmetic
import Sm83.Bus
import Sm83.CommandLine.Arguments
import Sm83.CommandLine.Help
import Sm83.CommandLine.Program
import Sm83.Config
import Sm83.Conformance.Case
import Sm83.Conformance.Reader
import Sm83.Conformance.Summary
import Sm83.Cpu
import Sm83.Files.Access
import Sm83.Files.Tree
import Sm83.Instruction.Basic
import Sm83.Instruction.Text
import Sm83.Interrupt
import Sm83.Json.Basic
import Sm83.Json.Number
import Sm83.Json.Reader
import Sm83.Json.Token
import Sm83.Listing
import Sm83.Loading
import Sm83.Machine
import Sm83.Machine.Play
import Sm83.Main
import Sm83.Memory.Basic
import Sm83.Memory.Image
import Sm83.Memory.Io
import Sm83.Memory.Region
import Sm83.Operation.Basic
import Sm83.Operation.Decode
import Sm83.Operation.Execute
import Sm83.Proofs.Arithmetic.Carries
import Sm83.Proofs.Arithmetic.LongNumbers
import Sm83.Proofs.Arithmetic.LongShifts
import Sm83.Proofs.Arithmetic.Rounds
import Sm83.Proofs.Arithmetic.ShiftChains
import Sm83.Proofs.Arithmetic.WordAddition
import Sm83.Proofs.Bus.Invariant
import Sm83.Proofs.Bus.Journal
import Sm83.Proofs.Bus.Simulation
import Sm83.Proofs.Conformance.Summary
import Sm83.Proofs.Conformance.Verdict
import Sm83.Proofs.Cpu.Failure
import Sm83.Proofs.Cpu.Step
import Sm83.Proofs.Instruction.Acceptance
import Sm83.Proofs.Instruction.Reading
import Sm83.Proofs.Instruction.Targets
import Sm83.Proofs.InstructionSet
import Sm83.Proofs.Interrupt.Dispatch
import Sm83.Proofs.Interrupt.Enable
import Sm83.Proofs.Interrupt.Handler
import Sm83.Proofs.Interrupt.Requests
import Sm83.Proofs.Listing.Program
import Sm83.Proofs.Machine.Accesses
import Sm83.Proofs.Machine.Flat
import Sm83.Proofs.Machine.Halt
import Sm83.Proofs.Machine.Host
import Sm83.Proofs.Machine.Images
import Sm83.Proofs.Machine.Latches
import Sm83.Proofs.Machine.Play
import Sm83.Proofs.Machine.Reset
import Sm83.Proofs.Machine.Rom
import Sm83.Proofs.Machine.Standstill
import Sm83.Proofs.Machine.Step
import Sm83.Proofs.Machine.WellFormed
import Sm83.Proofs.Memory.AddressMap
import Sm83.Proofs.Memory.Bounds
import Sm83.Proofs.Memory.Devices
import Sm83.Proofs.Memory.Places
import Sm83.Proofs.Memory.PlainRam
import Sm83.Proofs.Memory.ReadWrite
import Sm83.Proofs.Memory.Slices
import Sm83.Proofs.Memory.Transfer
import Sm83.Proofs.Memory.Watched
import Sm83.Proofs.Operation.Clocks
import Sm83.Proofs.Operation.Decoding
import Sm83.Proofs.Operation.Encoding
import Sm83.Proofs.Operation.Frame
import Sm83.Proofs.Operation.Locality
import Sm83.Proofs.Operation.MemoryOperand
import Sm83.Proofs.Operation.OpcodeTables
import Sm83.Proofs.Operation.Program
import Sm83.Proofs.Serial.Capture
import Sm83.Proofs.Stack.Nesting
import Sm83.Proofs.Stack.Words
import Sm83.Proofs.Symbol.Columns
import Sm83.Proofs.Symbol.Comments
import Sm83.Proofs.Symbol.Loading
import Sm83.Proofs.Symbol.Names
import Sm83.Proofs.Symbol.Ranges
import Sm83.Proofs.Symbol.Spelling
import Sm83.Proofs.Text.Clipping
import Sm83.Proofs.Text.Numerals
import Sm83.Proofs.Timer.Counter
import Sm83.Proofs.Timer.Divider
import Sm83.Proofs.Timer.Edges
import Sm83.Proofs.Timer.Elapse
import Sm83.Proofs.Timer.Signal
import Sm83.Register
import Sm83.RegisterFile
import Sm83.Serial
import Sm83.Symbol.Basic
import Sm83.Symbol.Table
import Sm83.Text.Lines
import Sm83.Text.Numerals
import Sm83.Timer
import Sm83.Toml.Reader
import Sm83.Toml.Scalar
import Sm83.Toml.Scope
import Sm83.Toml.Token
import Sm83.Word
