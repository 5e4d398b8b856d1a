import Mathlib.Data.Vector.Basic
import Stackplz.Basic.BoundedMap

/-!
# The data of the BPF programs

The constants of `consts.h`, the records of `types.h` and the maps of `maps.h`, as the
64-bit ARM build has them. Machine words are bit vectors of the C width. A record field that
no modelled function reads (time stamps, host ids) is left out.
-/

set_option autoImplicit false

namespace Stackplz

abbrev u8 := BitVec 8
abbrev u32 := BitVec 32
abbrev u64 := BitVec 64

instance lawfulBEq_u32 : LawfulBEq u32 := inferInstance

/-! ## `consts.h` -/

def sysWhitelistStart : u32 := 0x400
def sysBlacklistStart : u32 := sysWhitelistStart + 0x400
def uidWhitelistStart : u32 := sysBlacklistStart + 0x400
def uidBlacklistStart : u32 := uidWhitelistStart + 0x400
def pidWhitelistStart : u32 := uidBlacklistStart + 0x400
def pidBlacklistStart : u32 := pidWhitelistStart + 0x400
def tidWhitelistStart : u32 := pidBlacklistStart + 0x400
def tidBlacklistStart : u32 := tidWhitelistStart + 0x400

def threadNameWhitelist : u32 := 1
def threadNameBlacklist : u32 := 2

/-- `TRACE_COMMON`: only the system calls of the white list are traced. -/
def traceCommon : u32 := 0

def maxLoopCount : u8 := 32
def maxStrcmpLen : Nat := 256
def strarrMagicLen : u32 := 0xffff0000
def ptrSize : Nat := 8
def argsBufSize : Nat := 32000
def maxStringSize : Nat := 4096
def maxBytesArrSize : Nat := 4096

/-- `MAX_OP_COUNT` of the uprobe object (`__MODULE_STACK`). -/
def stackMaxOpCount : Nat := 64

/-- `MAX_OP_COUNT` of the system call object (`__MODULE_SYSCALL`). -/
def syscallMaxOpCount : Nat := 256

/-! ## Registers -/

/-- `ctx_regs_t`: the registers of one stop of a thread; `flag` marks a system call whose
entry was skipped. -/
structure CtxRegs where
  regs : Vector u64 31
  sp : u64
  pc : u64
  flag : u64
deriving DecidableEq

/-- Registers of which `x0` only is set. -/
def CtxRegs.ofX0 (x0 : u64) : CtxRegs := ⟨(Vector.replicate 31 0).set 0 x0, 0, 0, 0⟩

/-- `ctx_regs->regs[i]` for `i < REG_ARM64_MAX`: `sp` and `pc` follow the array in memory. -/
def CtxRegs.get (r : CtxRegs) (i : Nat) : u64 :=
  if h : i < 31 then r.regs[i] else if i = 31 then r.sp else r.pc

/-! ## Filters -/

/-- A thread name, `char comm[TASK_COMM_LEN]`. -/
abbrev ThreadName := Vector u8 16

/-- The part of `event_context_t` that a filter looks at. -/
structure EventContext where
  tid : u32
  pid : u32
  uid : u32
  comm : ThreadName
deriving DecidableEq

/-- The current task: `bpf_get_current_pid_tgid` gives `hostTid`, `init_context` the rest. -/
structure Task where
  is32 : Bool
  hostTid : u32
  context : EventContext

/-- `config_entry_t`. -/
structure ConfigEntry where
  stackplzPid : u32
  threadWhitelist : u32

/-- `common_filter_t`; the signals sent after an event are not part of any model here. -/
structure CommonFilter where
  is32bit : u32
  traceMode : u32
  traceUidGroup : u32

/-- `enum arg_filter_e`. -/
inductive FilterType where
  | unknown | equal | greater | less | whitelist | blacklist | replace
deriving DecidableEq, Repr

/-- A fixed text buffer, `str_buf_t`. -/
abbrev StrBuf := Vector u8 256

/-- `arg_filter_t`. -/
structure ArgFilter where
  filterType : FilterType
  strVal : StrBuf
  strLen : u32
  numVal : u64
deriving DecidableEq

/-! ## The op list -/

/-- `enum op_code_e`, and the word 0 of a cleared `op_ctx_t`, which no `case` matches. -/
inductive OpCode where
  | zero
  | skip | resetCtx | setRegIndex | setReadLen | setReadLenRegValue
  | setReadLenPointerValue | setReadCount | addOffset | subOffset | moveRegValue
  | movePointerValue | moveTmpValue | setTmpValue | forBreak | setBreakCount
  | setBreakCountRegValue | setBreakCountPointerValue | saveAddr | addReg | subReg
  | readReg | saveReg | readPointer | savePointer | saveStruct | filterValue
  | filterBuffer | filterString | saveString | savePtrString | readStdString | readRet
deriving DecidableEq, Repr

/-- `op_config_t`. -/
structure OpConfig where
  code : OpCode
  preCode : OpCode
  postCode : OpCode
  value : u64
deriving DecidableEq, Repr

/-- `point_args_t` of an object compiled with `MAX_OP_COUNT = maxOp`. -/
structure PointArgs (maxOp : Nat) where
  enterKey : u32
  opCount : u32
  opKeyList : Vector u32 maxOp

/-! ## Shared maps -/

abbrev CommonList := BoundedMap u32 u32 1024
abbrev ChildParentMap := BoundedMap u32 u32 512
abbrev CtxRegsMap := BoundedMap u64 CtxRegs 1024
abbrev StrBufMap := BoundedMap StrBuf u32 256
abbrev ThreadFilterMap := BoundedMap ThreadName u32 40
abbrev ArgFilterMap := BoundedMap u64 ArgFilter 40
abbrev OpListMap := BoundedMap u32 OpConfig 256

end Stackplz
