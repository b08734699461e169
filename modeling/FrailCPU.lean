import FrailCPU.Bypass.Delivery
import FrailCPU.Bypass.InPair
import FrailCPU.Core.CacheOp
import FrailCPU.Core.Conditional
import FrailCPU.Core.Cpu
import FrailCPU.Core.Division
import FrailCPU.Core.Multiplication
import FrailCPU.Core.Enabled
import FrailCPU.Core.FetchFault
import FrailCPU.Core.Hazard
import FrailCPU.Core.Hilo
import FrailCPU.Core.InOrder
import FrailCPU.Core.Integer
import FrailCPU.Core.Interrupt
import FrailCPU.Core.Liveness
import FrailCPU.Core.Load
import FrailCPU.Core.LoadStore
import FrailCPU.Core.Numbered
import FrailCPU.Core.Operands
import FrailCPU.Core.PairException
import FrailCPU.Core.Queue
import FrailCPU.Core.Step
import FrailCPU.Core.Sweep
import FrailCPU.Core.Target
import FrailCPU.Core.TlbAccess
import FrailCPU.Core.TlbWrite
import FrailCPU.Cp0.Record
import FrailCPU.Cp0.Timer
import FrailCPU.DCache.Agree
import FrailCPU.DCache.Answer
import FrailCPU.DCache.Cache
import FrailCPU.DCache.Dirty
import FrailCPU.DCache.Operation
import FrailCPU.DCache.Phase
import FrailCPU.DCache.Refused
import FrailCPU.DCache.SameWord
import FrailCPU.DCache.System
import FrailCPU.DCache.Tags
import FrailCPU.DCache.Transactions
import FrailCPU.DCache.Writeback
import FrailCPU.Decode.Accepted
import FrailCPU.Decode.Decoder
import FrailCPU.Decode.Facts
import FrailCPU.Execute.MulDiv
import FrailCPU.Execute.Redirect
import FrailCPU.Fetch.Path
import FrailCPU.Fetch.Record
import FrailCPU.ICache.Cache
import FrailCPU.ICache.Transparent
import FrailCPU.ICache.Wedge
import FrailCPU.Include.Pipes
import FrailCPU.Issue.DelaySlot
import FrailCPU.Library.ByteMemory
import FrailCPU.Library.Lanes
import FrailCPU.Library.Machine
import FrailCPU.Library.PendingWrites
import FrailCPU.Memory.Bytes
import FrailCPU.Memory.Charge
import FrailCPU.Mmu.Translate
import FrailCPU.Util.Pipe
import FrailCPU.Library.PortWrites
import FrailCPU.Library.Recency
import FrailCPU.Util.MultiPortRam
import FrailCPU.Bus.View
import FrailCPU.Bus.Arbiter
import FrailCPU.Bus.Bridge
import FrailCPU.Core.Cp0Access
import FrailCPU.DCache.OneWay
import FrailCPU.DCache.Victim
import FrailCPU.DCache.Replacement
import FrailCPU.Bp.Bht
import FrailCPU.Bp.Bpu
import FrailCPU.Bp.Jht
import FrailCPU.Bp.Learning
import FrailCPU.DCache.Transparent
import FrailCPU.Library.Refinement
import FrailCPU.RefCpu.Cp0
import FrailCPU.RefCpu.Context
import FrailCPU.RefCpu.Implementers
import FrailCPU.RefCpu.Core
import FrailCPU.RefCpu.Isa
import FrailCPU.RefCpu.Port
import FrailCPU.RefCpu.Execute
import FrailCPU.RefCpu.View
import FrailCPU.RefCpu.Stage
import FrailCPU.RefCpu.Refine
import FrailCPU.RefCpu.Progress
import FrailCPU.RefCpu.Trace
import FrailCPU.RefCpu.SramTop
import FrailCPU.Verilate.CBusDevice
import FrailCPU.RefCpu.StupidBuffer
import FrailCPU.RefCpu.VCacheTop
import FrailCPU.Bus.CBusArbiter
import FrailCPU.RefCpu.Kseg1
import FrailCPU.RefCpu.Latency
