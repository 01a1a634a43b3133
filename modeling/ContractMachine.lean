import ContractMachine.Quantity
import ContractMachine.Word
import ContractMachine.Word.Signed
import ContractMachine.Word.Arithmetic
import ContractMachine.Text.Blank
import ContractMachine.Text.Hex
import ContractMachine.Digest.Keccak
import ContractMachine.Encoding.Rlp
import ContractMachine.Address
import ContractMachine.Instruction
import ContractMachine.Opcode
import ContractMachine.Exit
import ContractMachine.Action
import ContractMachine.Stack
import ContractMachine.Memory
import ContractMachine.JumpTable
import ContractMachine.Machine
import ContractMachine.Context
import ContractMachine.Footprint
import ContractMachine.Operation
import ContractMachine.InstructionSet
import ContractMachine.Rules
import ContractMachine.Environment
import ContractMachine.Gas.Schedule
import ContractMachine.Gas.Price
import ContractMachine.Gas.Meter
import ContractMachine.World.Account
import ContractMachine.World.Journal
import ContractMachine.World
import ContractMachine.Frame
import ContractMachine.Trace
import ContractMachine.Executor
import ContractMachine.Execution.Local
import ContractMachine.Execution.Nested
import ContractMachine.Execution.Step
import ContractMachine.Execution.Run
import ContractMachine.Execution.Stepwise
import ContractMachine.GasPool
import ContractMachine.Message
import ContractMachine.Json.Token
import ContractMachine.Json
import ContractMachine.Json.Record
import ContractMachine.StateTest
import ContractMachine.Fixture
import ContractMachine.FileTree
import ContractMachine.FileTree.Fixtures
import ContractMachine.Report
import ContractMachine.CommandLine
import ContractMachine.Main
import ContractMachine.Proofs.Evolution
import ContractMachine.Proofs.AccountLookup
import ContractMachine.Proofs.FrameExecution
import ContractMachine.Proofs.FailedFrames
import ContractMachine.Proofs.FrameFaults
import ContractMachine.Proofs.InstructionTolls
import ContractMachine.Proofs.Termination
import ContractMachine.Proofs.Transactions
import ContractMachine.Proofs.MessageRejection
import ContractMachine.Proofs.BlockGas
import ContractMachine.Proofs.FrameTree
import ContractMachine.Proofs.NestedGas
import ContractMachine.Proofs.FuelIndependence
import ContractMachine.Proofs.ReadOnlyFrames
import ContractMachine.Proofs.ValueConservation
import ContractMachine.Proofs.MachineLayout
import ContractMachine.Proofs.InstructionStarts
import ContractMachine.Proofs.PaidMemory
import ContractMachine.Proofs.ExecutionSteps
import ContractMachine.Proofs.AccountIsolation
import ContractMachine.Proofs.Refunds
import ContractMachine.Proofs.FrameStack
import ContractMachine.Proofs.FailedMessages
import ContractMachine.Proofs.ForkCompatibility
import ContractMachine.Proofs.KeptEffects
import ContractMachine.Proofs.Nonces
import ContractMachine.Proofs.Applications
import ContractMachine.Proofs.LogsAndMarks
import ContractMachine.Proofs.VettedOperands
import ContractMachine.Proofs.TraceNesting
import ContractMachine.Proofs.RicherFrames
import ContractMachine.Proofs.SucceedingOrders
import ContractMachine.Proofs.GasIndependence
import ContractMachine.Proofs.SignedDivision
import ContractMachine.Proofs.SignedOrder
import ContractMachine.Proofs.MemoryNeeds
import ContractMachine.Proofs.OperandResults
import ContractMachine.Proofs.StackEffects
import ContractMachine.Proofs.MemoryAccesses
import ContractMachine.Proofs.PricedOperations
import ContractMachine.Proofs.FrameExits
import ContractMachine.Proofs.MeterUses
import ContractMachine.Proofs.ChargeOrder
import ContractMachine.Proofs.OutputWindow
import ContractMachine.Proofs.CodeOrigins
import ContractMachine.Proofs.CodeDeposit
import ContractMachine.Proofs.RejectedSteps
import ContractMachine.Proofs.TrailingZeros
import ContractMachine.Proofs.MemoryContents
import ContractMachine.Proofs.InputWords
import ContractMachine.Proofs.SparseStorage
import ContractMachine.Proofs.Exponentiation
import ContractMachine.Proofs.SignExtension
import ContractMachine.Proofs.Overlays
import ContractMachine.Proofs.FixtureDiscovery
import ContractMachine.Proofs.FaithfulReports
import ContractMachine.Proofs.ExactCosts
import ContractMachine.Proofs.StackRoom
import ContractMachine.Proofs.BlockHashes
