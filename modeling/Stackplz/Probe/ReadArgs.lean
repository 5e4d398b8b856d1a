import Stackplz.Probe.StrcmpByMap

/-!
# The op interpreter

`read_args` (`utils.h`) runs the op list of a point on the per-CPU record `op_ctx`. One pass
of its loop fetches an op (the `post_code` left by the op before, or the next key of the
point), then executes it. The record is split in two: `OpData` holds what ops read and
write, and `OpCtx` adds the control part, which besides the fetch only `OP_FOR_BREAK`
touches.
-/

set_option autoImplicit false

namespace Stackplz

/-! ## The interpreter state -/

/-- The part of `op_ctx_t` that ops compute with. -/
structure OpData where
  saveIndex : u8
  regIndex : u8
  loopCount : u8
  breakCount : u8
  applyFilter : Bool
  skipFlag : Bool
  matchWhitelist : Bool
  matchBlacklist : Bool
  strLen : u32
  readLen : u32
  readAddr : u64
  regValue : u64
  pointerValue : u64
  tmpValue : u64
  reg0 : u64
deriving DecidableEq

/-- `op_ctx_t`. -/
structure OpCtx extends OpData where
  loopIndex : u32
  opKeyIndex : u32
  opCode : OpCode
  postCode : OpCode
deriving DecidableEq

/-- An entry of `op_ctx_map` as the kernel creates it. -/
def OpCtx.cleared : OpCtx where
  saveIndex := 0
  regIndex := 0
  loopCount := 0
  breakCount := 0
  applyFilter := false
  skipFlag := false
  matchWhitelist := false
  matchBlacklist := false
  strLen := 0
  readLen := 0
  readAddr := 0
  regValue := 0
  pointerValue := 0
  tmpValue := 0
  reg0 := 0
  loopIndex := 0
  opKeyIndex := 0
  opCode := .zero
  postCode := .zero

/-- What the ops of one event read but never write. -/
structure ProbeEnv where
  mem : UserMem
  regs : CtxRegs
  opList : OpListMap
  argFilter : ArgFilterMap

/-- What an op can change besides the control part. -/
structure OpState where
  data : OpData
  event : EventData
  strBuf : StrBufMap

/-- The mask that takes the tag off an address. -/
def untag (addr : u64) : u64 := addr &&& 0xffffffffffff

/-! ## One op -/

def OpState.setData (st : OpState) (f : OpData → OpData) : OpState :=
  { st with data := f st.data }

/-- Save one word under the running index. -/
def OpState.saveWord (st : OpState) (value : u64) : OpState where
  data := { st.data with saveIndex := st.data.saveIndex + 1 }
  event := (saveToSubmitBuf st.event (LittleEndian.ofWord 8 value) st.data.saveIndex).1
  strBuf := st.strBuf

/-- `OP_SAVE_STRUCT`; a read that faults saves an empty string of bytes. -/
def OpState.saveStruct (mem : UserMem) (op : OpConfig) (st : OpState) : OpState :=
  let readAddr := untag st.data.readAddr
  let readLen := if op.preCode = .setReadCount then
    (st.data.readLen.setWidth 64 * op.value).setWidth 32 else st.data.readLen
  let readLen := if readLen > BitVec.ofNat 32 maxBytesArrSize then
    BitVec.ofNat 32 maxBytesArrSize else readLen
  let (event, saved) := saveBytesToBuf mem st.event readAddr readLen st.data.saveIndex
  let event := if saved then event else (saveBytesToBuf mem event 0 0 st.data.saveIndex).1
  { st with
    data := { st.data with
      readAddr := readAddr, readLen := readLen, saveIndex := st.data.saveIndex + 1 }
    event := event }

/-- `OP_SAVE_STRING`; the length of the string is kept for a filter that follows. -/
def OpState.saveString (mem : UserMem) (st : OpState) : OpState :=
  let readAddr := untag st.data.readAddr
  let oldOff := st.event.bufOff
  let (event, saved) := saveStrToBuf mem st.event readAddr st.data.saveIndex
  let strLen := if saved then BitVec.ofNat 32 (event.bufOff - (oldOff + 4 + 1))
    else st.data.strLen
  let event := if saved then event else (saveBytesToBuf mem event 0 0 st.data.saveIndex).1
  { st with
    data := { st.data with
      readAddr := readAddr, strLen := strLen, saveIndex := st.data.saveIndex + 1 }
    event := event }

/-- `OP_SAVE_PTR_STRING`: the pointer, then the string it points to; a string that cannot be
read ends the loop around the op. -/
def OpState.savePtrString (mem : UserMem) (st : OpState) : OpState :=
  let ptr := mem.readWord (untag st.data.readAddr)
  let st := st.saveWord ptr
  let (event, saved) := saveStrToBuf mem st.event (untag ptr) st.data.saveIndex
  let event := if saved then event
    else (saveBytesToBuf mem event 0 strarrMagicLen st.data.saveIndex).1
  { st with
    data := { st.data with
      loopCount := if saved then st.data.loopCount else st.data.breakCount
      saveIndex := st.data.saveIndex + 1 }
    event := event }

/-- `OP_READ_STD_STRING`: the address of the characters of a `std::string`. -/
def stdStringData (mem : UserMem) (readAddr : u64) : u64 :=
  let base := untag readAddr
  let last : u8 := (mem (base + BitVec.ofNat 64 (ptrSize * 3 - 1))).getD 0
  if last &&& 0x80 ≠ 0 then mem.readWord base else base

/-- `OP_FILTER_VALUE` against the register value. -/
def filterValueRejects (filter : ArgFilter) (regValue : u64) : Bool :=
  match filter.filterType with
  | .equal => filter.numVal != regValue
  | .greater => decide (filter.numVal ≤ regValue)
  | .less => decide (filter.numVal ≥ regValue)
  | _ => false

/-- `OP_FILTER_BUFFER`: the eight bytes at the read address, masked to the length to compare.
The shift count is taken modulo 64, as the BPF instruction does. -/
def filterBufferMatches (mem : UserMem) (filter : ArgFilter) (readAddr : u64) : Bool :=
  let ptr := mem.readWord (untag readAddr)
  filter.numVal == (ptr &&& (BitVec.allOnes 64 >>> (filter.strLen.toNat % 64)))

/-- `OP_FILTER_STRING` once its filter is found. -/
def OpState.filterString (mem : UserMem) (filter : ArgFilter) (st : OpState) : OpState :=
  let (isMatch, strBuf) :=
    strcmpByMap st.strBuf (StrcmpCall.ofRead mem st.data.strLen st.data.readAddr filter)
  let data :=
    match filter.filterType with
    | .whitelist => { st.data with
        applyFilter := true, matchWhitelist := st.data.matchWhitelist || isMatch }
    | .blacklist => { st.data with matchBlacklist := st.data.matchBlacklist || isMatch }
    | _ => st.data
  { st with data := data, strBuf := strBuf }

/-- The break count a loop gets from `value`, at most `MAX_LOOP_COUNT`. -/
def breakCountOf (value : u64) : u8 :=
  if maxLoopCount.setWidth 64 > value then value.setWidth 8 else maxLoopCount

/-- The read length cut down to `value`. -/
def minReadLen (readLen : u32) (value : u64) : u32 :=
  if readLen.setWidth 64 > value then value.setWidth 32 else readLen

/-- The register `OP_READ_REG` reads, set by the op itself if it says so. -/
def OpConfig.readIndex (op : OpConfig) (regIndex : u8) : u8 :=
  if op.preCode = .setRegIndex then op.value.setWidth 8 else regIndex

/-- The `switch` of `read_args`, for every code but `OP_FOR_BREAK`. The flag says whether the
loop goes on; `false` is the early `return 0`. -/
def execOp (env : ProbeEnv) (op : OpConfig) (code : OpCode) (st : OpState) : Bool × OpState :=
  let d := st.data
  match code with
  | .resetCtx => (true, st.setData fun d => { d with
      breakCount := 0, regIndex := 0, readAddr := 0, readLen := 0, regValue := 0,
      pointerValue := 0 })
  | .setRegIndex => (true, st.setData fun d => { d with regIndex := op.value.setWidth 8 })
  | .setReadLen => (true, st.setData fun d => { d with readLen := op.value.setWidth 32 })
  | .setReadLenRegValue =>
      (true, st.setData fun d => { d with readLen := minReadLen d.readLen d.regValue })
  | .setReadLenPointerValue =>
      (true, st.setData fun d => { d with readLen := minReadLen d.readLen d.pointerValue })
  | .setReadCount => (true, st.setData fun d => { d with
      readLen := (d.readLen.setWidth 64 * op.value).setWidth 32 })
  | .addOffset => (true, st.setData fun d => { d with readAddr := d.readAddr + op.value })
  | .subOffset => (true, st.setData fun d => { d with readAddr := d.readAddr - op.value })
  | .moveRegValue => (true, st.setData fun d => { d with readAddr := d.regValue })
  | .movePointerValue => (true, st.setData fun d => { d with readAddr := d.pointerValue })
  | .moveTmpValue => (true, st.setData fun d => { d with readAddr := d.tmpValue })
  | .setTmpValue => (true, st.setData fun d => { d with tmpValue := d.readAddr })
  | .setBreakCount => (true, st.setData fun d => { d with breakCount := breakCountOf op.value })
  | .setBreakCountRegValue =>
      (true, st.setData fun d => { d with breakCount := breakCountOf d.regValue })
  | .setBreakCountPointerValue =>
      (true, st.setData fun d => { d with breakCount := breakCountOf d.pointerValue })
  | .saveAddr => (true, st.saveWord d.readAddr)
  | .addReg => (true, st.setData fun d => { d with readAddr := d.readAddr + d.regValue })
  | .subReg => (true, st.setData fun d => { d with readAddr := d.readAddr - d.regValue })
  | .readReg =>
      let regIndex := op.readIndex d.regIndex
      if regIndex.toNat ≥ 33 then (false, st.setData fun d => { d with regIndex := regIndex })
      else (true, st.setData fun d => { d with
        regIndex := regIndex, regValue := env.regs.get regIndex.toNat })
  | .readRet => (true, st.setData fun d => { d with regValue := d.reg0 })
  | .saveReg => (true, st.saveWord d.regValue)
  | .readPointer =>
      let addr :=
        match op.preCode with
        | .addOffset => d.readAddr + op.value
        | .subOffset => d.readAddr - op.value
        | _ => d.readAddr
      (true, st.setData fun d => { d with pointerValue := env.mem.readWord addr })
  | .savePointer => (true, st.saveWord d.pointerValue)
  | .saveStruct => (true, st.saveStruct env.mem op)
  | .filterValue =>
      match env.argFilter.lookup op.value with
      | none => (false, st)
      | some filter => (true, st.setData fun d => { d with
          matchBlacklist := d.matchBlacklist || filterValueRejects filter d.regValue })
  | .filterBuffer =>
      match env.argFilter.lookup op.value with
      | none => (false, st)
      | some filter =>
          if filter.filterType = .whitelist then
            (true, st.setData fun d => { d with
              applyFilter := true
              matchWhitelist := d.matchWhitelist || filterBufferMatches env.mem filter d.readAddr })
          else (true, st)
  | .filterString =>
      match env.argFilter.lookup op.value with
      | none => (false, st)
      | some filter => (true, st.filterString env.mem filter)
  | .saveString => (true, st.saveString env.mem)
  | .savePtrString => (true, st.savePtrString env.mem)
  | .readStdString =>
      (true, st.setData fun d => { d with readAddr := stdStringData env.mem d.readAddr })
  | .zero | .skip | .forBreak => (true, st)

/-! ## The loop -/

/-- The state of the loop: `op_ctx`, the op last looked up, the event and the string map. -/
structure LoopState where
  op : Option OpConfig
  ctx : OpCtx
  event : EventData
  strBuf : StrBufMap

/-- Why the loop ended: the terminator, a black list match, the iteration bound, or an early
`return 0`. -/
inductive LoopEnd where
  | done | blacklisted | bound | returned
deriving DecidableEq, Repr

/-- The head of an iteration: the pending `post_code`, or the next op of the point. `none`
is the early `return 0`. -/
def LoopState.fetch {maxOp : Nat} (env : ProbeEnv) (keys : Vector u32 maxOp) (st : LoopState) :
    Option (OpConfig × LoopState) :=
  match st.op with
  | some op =>
      if st.ctx.postCode ≠ .skip then
        some (op, { st with ctx := { st.ctx with opCode := st.ctx.postCode, postCode := .skip } })
      else fetchKey env
  | none => fetchKey env
where
  fetchKey (env : ProbeEnv) : Option (OpConfig × LoopState) :=
    if h : st.ctx.opKeyIndex.toNat < maxOp then
      (env.opList.lookup (keys[st.ctx.opKeyIndex.toNat])).map fun op =>
        (op, { st with
          op := some op
          ctx := { st.ctx with
            opCode := op.code, postCode := op.postCode, opKeyIndex := st.ctx.opKeyIndex + 1 } })
    else none

/-- `OP_FOR_BREAK`: go back to the op after this one's first arrival until `break_count`
rounds are done. -/
def OpCtx.forBreak (ctx : OpCtx) : OpCtx :=
  let loopIndex := if ctx.loopCount = 0 then ctx.opKeyIndex else ctx.loopIndex
  if ctx.loopCount ≥ ctx.breakCount then
    { ctx with loopCount := 0, breakCount := 0, loopIndex := 0 }
  else
    { ctx with loopCount := ctx.loopCount + 1, loopIndex := loopIndex, opKeyIndex := loopIndex }

/-- The body of an iteration after the fetch. -/
def LoopState.exec (env : ProbeEnv) (op : OpConfig) (st : LoopState) : Bool × LoopState :=
  if st.ctx.opCode = .forBreak then (true, { st with ctx := st.ctx.forBreak })
  else
    let (goesOn, o) := execOp env op st.ctx.opCode ⟨st.ctx.toOpData, st.event, st.strBuf⟩
    (goesOn, { st with
      ctx := { st.ctx with toOpData := o.data }, event := o.event, strBuf := o.strBuf })

/-- At most `n` iterations of the loop of `read_args`. -/
def readArgsLoop {maxOp : Nat} (env : ProbeEnv) (keys : Vector u32 maxOp) :
    Nat → LoopState → LoopEnd × LoopState
  | 0, st => (.bound, st)
  | n + 1, st =>
      match st.fetch env keys with
      | none => (.returned, st)
      | some (op, st) =>
          if st.ctx.opCode = .skip then (.done, st)
          else
            match st.exec env op with
            | (false, st) => (.returned, st)
            | (true, st) =>
                if st.ctx.matchBlacklist then (.blacklisted, st)
                else readArgsLoop env keys n st

/-- The skip logic after the loop. -/
def OpCtx.applySkip (ctx : OpCtx) : OpCtx :=
  if ctx.matchBlacklist then { ctx with skipFlag := true }
  else if ctx.applyFilter && !ctx.matchWhitelist then { ctx with skipFlag := true }
  else ctx

/-- `read_args`, with the reason its loop ended. -/
def readArgs {maxOp : Nat} (env : ProbeEnv) (pointArgs : PointArgs maxOp) (ctx : OpCtx)
    (event : EventData) (strBuf : StrBufMap) : LoopEnd × LoopState :=
  match readArgsLoop env pointArgs.opKeyList maxOp ⟨env.opList.lookup 0, ctx, event, strBuf⟩ with
  | (.returned, st) => (.returned, st)
  | (reason, st) => (reason, { st with ctx := st.ctx.applySkip })

/-! ## What a probe does with it -/

/-- `__builtin_memset(op_ctx, 0, sizeof(op_ctx))`, where `op_ctx` is a pointer: the first
eight bytes of the record. -/
def OpCtx.memset (ctx : OpCtx) : OpCtx :=
  { ctx with
    saveIndex := 0, regIndex := 0, loopCount := 0, breakCount := 0, applyFilter := false
    skipFlag := false, matchWhitelist := false, matchBlacklist := false }

/-- The initialisation every probe makes before `read_args`. -/
def OpCtx.start (ctx : OpCtx) (reg0 : u64) (saveIndex : u8) : OpCtx :=
  { ctx.memset with reg0 := reg0, saveIndex := saveIndex, opKeyIndex := 0 }

/-- The programs that run the interpreter: `probe_stack_warp`, `uretprobe_stack_warp`,
`raw_syscalls_sys_enter` and `raw_syscalls_sys_exit`. -/
inductive Probe where
  | probeStack | uretprobeStack | sysEnter | sysExit
deriving DecidableEq

/-- `op_ctx->reg_0`: the return value for the uretprobe, else the first saved register. -/
def Probe.reg0 (p : Probe) (regs : CtxRegs) (ret : u64) : u64 :=
  if p = .uretprobeStack then ret else regs.get 0

/-- The first index of an argument: `sys_exit` saves one word before them, the others four. -/
def Probe.saveIndex (p : Probe) : u8 := if p = .sysExit then 1 else 4

/-- No op is pending: the record is as the kernel created it, or the last run reached its
terminator. -/
def OpCtx.Idle (ctx : OpCtx) : Prop := ctx.postCode = .zero ∨ ctx.postCode = .skip

/-- The state in which a probe enters the loop of `read_args`. -/
def Probe.enter (p : Probe) (env : ProbeEnv) (ret : u64) (leftover : OpCtx) (event : EventData)
    (strBuf : StrBufMap) : LoopState where
  op := env.opList.lookup 0
  ctx := leftover.start (p.reg0 env.regs ret) p.saveIndex
  event := event
  strBuf := strBuf

/-- The part of a program around `read_args`, on what earlier events left in `op_ctx`. Only
the uretprobe leaves `read_args` out for an empty op list. -/
def Probe.run {maxOp : Nat} (p : Probe) (env : ProbeEnv) (pointArgs : PointArgs maxOp)
    (ret : u64) (leftover : OpCtx) (event : EventData) (strBuf : StrBufMap) : LoopState :=
  let ctx := leftover.start (p.reg0 env.regs ret) p.saveIndex
  if p = .uretprobeStack ∧ pointArgs.opCount = 0 then ⟨none, ctx, event, strBuf⟩
  else (readArgs env pointArgs ctx event strBuf).2

end Stackplz
