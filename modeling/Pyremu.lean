import Pyremu.State
import Pyremu.Lib.ByteMem
import Pyremu.Lib.Bits
import Pyremu.Lib.Run
import Pyremu.Mem
import Pyremu.Pmp
import Pyremu.Translate
import Pyremu.Imsic
import Pyremu.Trap
import Pyremu.Clint
import Pyremu.Devices
import Pyremu.Csr
import Pyremu.Decode
import Pyremu.Alu
import Pyremu.Fpu
import Pyremu.OpDispatcher
import Pyremu.LoadStore
import Pyremu.AtomInstr
import Pyremu.Handlers
import Pyremu.HartSched
import Pyremu.Frames
import Pyremu.Walk
import Pyremu.PageTable
import Pyremu.TlbFence
import Pyremu.TlbPython
import Pyremu.TlbSound
import Pyremu.Transparency
import Pyremu.DirtyBit
import Pyremu.Lib.FirstMatch
import Pyremu.PmpExact
import Pyremu.PmpPython
import Pyremu.Lib.Interleave
import Pyremu.WalkSteps
import Pyremu.Shootdown
import Pyremu.LrSc
import Pyremu.MipWrite
import Pyremu.ClintPaths
import Pyremu.PlicLevel
import Pyremu.Lib.Backlog
import Pyremu.ImsicSteps
import Pyremu.ImsicRaces
import Pyremu.ImsicClaim
import Pyremu.Lib.Tally
import Pyremu.Wfi
import Pyremu.Lib.RingBuf
import Pyremu.Termio
import Pyremu.Outcome
import Pyremu.PreciseLoad
import Pyremu.DomainIsolation
import Pyremu.MachineState
import Pyremu.Encode
import Pyremu.Compressed
import Pyremu.CompressedMem
import Pyremu.Expansion
import Pyremu.StatusDirty
import Pyremu.Lib.Sweep
import Pyremu.Sittim.Runtime
import Pyremu.Sittim.Signal
import Pyremu.Sittim.Process
import Pyremu.Sittim.Kernel
import Pyremu.Sittim.Futex
import Pyremu.Sittim.Calm
import Pyremu.Sittim.Steps
import Pyremu.Sittim.ExitPaths
import Pyremu.Sittim.Family
import Pyremu.Sittim.Wait4
import Pyremu.Sittim.Sigreturn
import Pyremu.Lib.Radix
import Pyremu.Sittim.Paging
import Pyremu.Sittim.PageView
import Pyremu.Sittim.Rounding
import Pyremu.Sittim.MemCalls
import Pyremu.ImsicBoundary
import Pyremu.Sittim.SigMask
import Pyremu.Sittim.ModuleTable
import Pyremu.Sittim.ModuleFaults
import Pyremu.Sittim.FdTable
import Pyremu.Sittim.FdExact
import Pyremu.Sittim.FdCalls
import Pyremu.Sittim.Ramfs
import Pyremu.Lib.Splice
import Pyremu.Sittim.RamfsFiles
import Pyremu.Lib.Links
import Pyremu.Sittim.RamfsTree
import Pyremu.Sittim.RamfsOffsets
import Pyremu.Sittim.RamfsPath
import Pyremu.Sittim.Mount
import Pyremu.Sittim.FailedOpen
import Pyremu.Sittim.MountPaths
import Pyremu.Sittim.RamfsGrowth
import Pyremu.Sittim.Dirents
import Pyremu.Sittim.DirScan
import Pyremu.Sittim.SigFrames
import Pyremu.Sittim.Itimer
import Pyremu.ImsicPython
import Pyremu.Aplic
import Pyremu.AplicLevel
import Pyremu.L2Cache
import Pyremu.L2Coherent
import Pyremu.MainMem
import Pyremu.PieWindow
import Pyremu.Virtqueue
import Pyremu.VirtqueueRuns
import Pyremu.VirtqueueServe
import Pyremu.VirtqueueReceive
import Pyremu.Lib.Unbounded
import Pyremu.AluPython
import Pyremu.AluAgree
import Pyremu.PmpViews
import Pyremu.PmpCoherent
import Pyremu.WalkPython
import Pyremu.WalkAgree
import Pyremu.PyInterrupt
import Pyremu.PyInterruptRuns
import Pyremu.VirtioBlk
import Pyremu.VirtioBlkChain
import Pyremu.PmpPartial
import Pyremu.AmoSerial
import Pyremu.AccessedDirty
import Pyremu.IdleWake
import Pyremu.IdleWakeRuns
import Pyremu.IdleSinks
import Pyremu.IpiSteps
import Pyremu.IpiKept
import Pyremu.TrapAgree
import Pyremu.Fetch
import Pyremu.Sittim.NetDriver
import Pyremu.Sittim.NetRings
import Pyremu.Sittim.NetDriverRuns
import Pyremu.Sittim.NetOwnership
import Pyremu.PageHit
import Pyremu.ByteAccess
import Pyremu.ByteAgree
import Pyremu.Bytewise
import Pyremu.BytewiseExact
import Pyremu.StoreTrap
import Pyremu.CsrReadOnly
import Pyremu.ImsicDrain
import Pyremu.TimerSync
import Pyremu.TrapReturn
import Pyremu.Sittim.Translation
import Pyremu.Sittim.Munmap
import Pyremu.Sittim.Mprotect
import Pyremu.Sittim.Reclass
import Pyremu.Sittim.MemRuns
import Pyremu.Sittim.ShrinkServes
import Pyremu.Lib.Rv64
import Pyremu.AluIsa
import Pyremu.Lib.Sv39
import Pyremu.Lib.Lexical
import Pyremu.WalkSpec
import Pyremu.Sittim.Brk
import Pyremu.NanBoxing
import Pyremu.FpAccess
import Pyremu.Debug.Breakpoint
import Pyremu.Debug.CondWatch
import Pyremu.Debug.Continue
import Pyremu.Debug.Rollback
import Pyremu.DevTree.RootCells
import Pyremu.Sittim.TimedWait
import Pyremu.PlicPython
import Pyremu.PlicAgree
import Pyremu.SerialInput
import Pyremu.Sittim.RoundRobin
import Pyremu.Sittim.Forked
