import Microkernel.Attempt
import Microkernel.Client.Calls
import Microkernel.Client.LineEditor
import Microkernel.Client.ProcessDump
import Microkernel.Client.Program
import Microkernel.Client.Serial
import Microkernel.Client.Session
import Microkernel.Console
import Microkernel.Decimal.Shortest
import Microkernel.Decimal.Single
import Microkernel.Entry.Boundary
import Microkernel.Entry.ControlCell
import Microkernel.Entry.Gate
import Microkernel.Entry.Machine
import Microkernel.Entry.Metered
import Microkernel.Entry.Replayed
import Microkernel.Kernel.Basic
import Microkernel.Kernel.Calls
import Microkernel.Kernel.Dispatch
import Microkernel.Kernel.ProcessDump
import Microkernel.Kernel.Requests
import Microkernel.Log
import Microkernel.Machine.IrqLines
import Microkernel.Machine.IrqMask
import Microkernel.Machine.TrapFrame
import Microkernel.Memory.Allocator
import Microkernel.Memory.Log
import Microkernel.Memory.Region
import Microkernel.Process.Basic
import Microkernel.Process.Log
import Microkernel.Process.Schedule
import Microkernel.Process.Table
import Microkernel.Proofs.Client.LineEditor
import Microkernel.Proofs.Client.Operations
import Microkernel.Proofs.Client.ProcessDump
import Microkernel.Proofs.Client.SerialLine
import Microkernel.Proofs.Client.SoleWriter
import Microkernel.Proofs.Client.Writers
import Microkernel.Proofs.Decimal.Nearness
import Microkernel.Proofs.Entries
import Microkernel.Proofs.Entry.Gate
import Microkernel.Proofs.Entry.MaskDiscipline
import Microkernel.Proofs.Entry.Routes
import Microkernel.Proofs.Kernel.CallerStorage
import Microkernel.Proofs.Kernel.DumpBuffer
import Microkernel.Proofs.Kernel.Events
import Microkernel.Proofs.Kernel.FirstResume
import Microkernel.Proofs.Kernel.Handlers
import Microkernel.Proofs.Kernel.Ledger
import Microkernel.Proofs.Kernel.Mask
import Microkernel.Proofs.Kernel.Reboot
import Microkernel.Proofs.Kernel.Reception
import Microkernel.Proofs.Kernel.Reclaims
import Microkernel.Proofs.Kernel.Refusal
import Microkernel.Proofs.Kernel.RoundRobin
import Microkernel.Proofs.Kernel.Separation
import Microkernel.Proofs.Kernel.Serial
import Microkernel.Proofs.Kernel.Shelter
import Microkernel.Proofs.Kernel.Sides
import Microkernel.Proofs.Kernel.Waiting
import Microkernel.Proofs.Machine.Brackets
import Microkernel.Proofs.Memory.Backing
import Microkernel.Proofs.Memory.Budget
import Microkernel.Proofs.Memory.Chain
import Microkernel.Proofs.Memory.Coalesced
import Microkernel.Proofs.Memory.Extents
import Microkernel.Proofs.Memory.FirstFit
import Microkernel.Proofs.Memory.Grants
import Microkernel.Proofs.Memory.Handout
import Microkernel.Proofs.Memory.Partition
import Microkernel.Proofs.Memory.Release
import Microkernel.Proofs.Memory.Rounding
import Microkernel.Proofs.Memory.Stale
import Microkernel.Proofs.Memory.Starts
import Microkernel.Proofs.Memory.Vacancy
import Microkernel.Proofs.Process.Congruence
import Microkernel.Proofs.Process.Killed
import Microkernel.Proofs.Process.Ownership
import Microkernel.Proofs.Process.Reclaim
import Microkernel.Proofs.Process.Rotation
import Microkernel.Proofs.Process.Slots
import Microkernel.Proofs.Process.Switch
import Microkernel.Proofs.Process.Turn
import Microkernel.Proofs.Routine
import Microkernel.Proofs.Uart.BoundedQueue
import Microkernel.Proofs.Uart.Delivery
import Microkernel.Proofs.Uart.Drain
import Microkernel.Proofs.Uart.Mask
import Microkernel.Proofs.Uart.Queueing
import Microkernel.Proofs.Uart.Receive
import Microkernel.Proofs.Uart.Ring
import Microkernel.Proofs.Uart.Simulated
import Microkernel.Proofs.Uart.Transmit
import Microkernel.Proofs.Value.Equality
import Microkernel.Proofs.Value.FiniteMap
import Microkernel.Proofs.Value.Nodes
import Microkernel.Proofs.Value.Storage
import Microkernel.Proofs.Value.Table
import Microkernel.Routine
import Microkernel.Syscall.Id
import Microkernel.Text.Bytes
import Microkernel.Text.Hex
import Microkernel.Uart.Controller
import Microkernel.Uart.Driver
import Microkernel.Uart.Mapped
import Microkernel.Uart.Replayed
import Microkernel.Uart.Ring
import Microkernel.Uart.Simulated
import Microkernel.Uart.Traced
import Microkernel.Value.Basic
import Microkernel.Value.Equality
import Microkernel.Value.Path
import Microkernel.Value.Table
import Microkernel.Value.Text
