import Stackplz.Basic.Machine
import Stackplz.Basic.RuleChain
import Stackplz.Basic.Bytes
import Stackplz.Probe.Types
import Stackplz.Probe.Filtering
import Stackplz.Probe.Fork
import Stackplz.Probe.ForkReuse
import Stackplz.Probe.Buffer
import Stackplz.Probe.StrcmpByMap
import Stackplz.Probe.ReadArgs
import Stackplz.Probe.Arguments
import Stackplz.User.EventProcessor
import Stackplz.Probe.Syscall
import Stackplz.Probe.SavedRegs
import Stackplz.Probe.Stack
import Stackplz.Probe.Isolation
import Stackplz.Probe.Loops
import Stackplz.Probe.Progress
import Stackplz.User.PointIndex
import Stackplz.User.ReadMore
import Stackplz.User.RoundTrip
import Stackplz.User.SaveRecords
import Stackplz.User.Iovec
import Stackplz.User.ReadAddress
import Stackplz.User.ValueFilter
import Stackplz.User.FilterHelper
import Stackplz.User.BufferFilter
import Stackplz.User.StringFilter
import Stackplz.Probe.Verdict
import Stackplz.Probe.Budget
import Stackplz.User.ParseEvent
import Stackplz.User.DumpFile
import Stackplz.User.StructArgs
import Stackplz.User.ArrayArgs
import Stackplz.User.StringArray
import Stackplz.User.TypeData
import Stackplz.User.RetArg
import Stackplz.User.OpBudget
import Stackplz.User.DataReadBack
import Stackplz.User.SavedArgs
import Stackplz.User.Leftover
import Stackplz.Probe.Submit
import Stackplz.User.Sample
import Stackplz.User.SyscallNames
import Stackplz.User.HookGrammar
import Stackplz.Basic.Numeral
import Stackplz.User.NumText
import Stackplz.User.NumReadBack
import Stackplz.Basic.Scan
import Stackplz.User.MapsRefresh
import Stackplz.User.ForkMaps
import Stackplz.User.UnwindTail
import Stackplz.User.EventOrder
import Stackplz.User.TypeRegistry
import Stackplz.User.ParseJson
import Stackplz.User.Replay
import Stackplz.User.FindIns
import Stackplz.User.ByteText
import Stackplz.User.HexDump
import Stackplz.Probe.ArgsBuffer
import Stackplz.User.OpTable
import Stackplz.User.ThreadFilter
import Stackplz.User.Startup
import Stackplz.User.PointRun
import Stackplz.User.StackStartup
import Stackplz.User.UprobeSample
import Stackplz.User.SyscallSample
import Stackplz.User.Targets
import Stackplz.User.Breakpoint
import Stackplz.User.Stopped
import Stackplz.Probe.FreshReads
import Stackplz.User.History
import Stackplz.User.Limits
