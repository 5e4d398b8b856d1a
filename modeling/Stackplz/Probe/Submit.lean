import Stackplz.Probe.Arguments

/-!
# The event that is submitted

`init_context` (`context.h`) and `events_perf_submit` (`buffer.h`). The context of an event is
written to the perf buffer with the arguments behind it, cut to `MAX_EVENT_SIZE`. No save goes
past `ARGS_BUF_SIZE`, so nothing is ever cut off.
-/

set_option autoImplicit false

namespace Stackplz

/-! ## The context -/

/-- `event_context_t`, without its padding. -/
structure EventHeader where
  ts : u64
  eventid : u32
  hostTid : u32
  hostPid : u32
  tid : u32
  pid : u32
  uid : u32
  comm : ThreadName
  argnum : u8
deriving DecidableEq

/-- The bytes of the struct; nothing writes the padding. -/
def EventHeader.bytes (h : EventHeader) : List u8 :=
  LittleEndian.ofWord 8 h.ts ++ LittleEndian.ofWord 4 h.eventid ++
    LittleEndian.ofWord 4 h.hostTid ++ LittleEndian.ofWord 4 h.hostPid ++
    LittleEndian.ofWord 4 h.tid ++ LittleEndian.ofWord 4 h.pid ++ LittleEndian.ofWord 4 h.uid ++
    h.comm.toList ++ LittleEndian.ofWord 1 h.argnum ++ List.replicate 7 0

/-- `sizeof(event_context_t)`. -/
def eventContextSize : Nat := 56

theorem EventHeader.length_bytes (h : EventHeader) : h.bytes.length = eventContextSize := by
  unfold EventHeader.bytes
  simp [eventContextSize]

/-- What `init_context` asks the kernel beside the task that the filters see. -/
structure ContextSource where
  task : Task
  hostPid : u32
  ts : u64

/-- `init_context`, with the fields that are set later: the saves count `argnum`, and the event id
comes with the submission. -/
def ContextSource.initContext (c : ContextSource) (id : u32) (event : EventData) : EventHeader where
  ts := c.ts
  eventid := id
  hostTid := c.task.hostTid
  hostPid := c.hostPid
  tid := c.task.context.tid
  pid := c.task.context.pid
  uid := c.task.context.uid
  comm := c.task.context.comm
  argnum := event.argnum

/-- `MAX_EVENT_SIZE`. -/
def maxEventSize : Nat := eventContextSize + argsBufSize

/-- `events_perf_submit`: the bytes that are handed to the perf buffer. -/
def ContextSource.eventsPerfSubmit (c : ContextSource) (id : u32) (event : EventData) : List u8 :=
  let size := eventContextSize + event.bufOff
  let size := if size < maxEventSize then size else maxEventSize
  ((c.initContext id event).bytes ++ event.args).take size

/-! ## The event stays in its buffer -/

/-- What is committed fits into `args`. -/
def EventData.Within (event : EventData) : Prop := event.bufOff ≤ argsBufSize

theorem within_init : EventData.init.Within := Nat.zero_le _

theorem within_commit {event : EventData} {bytes : List u8}
    (h : event.bufOff + bytes.length ≤ argsBufSize) : (event.commit bytes).Within := by
  unfold EventData.Within EventData.bufOff EventData.commit
  rw [List.length_append]
  exact h

section Saves

variable {mem : UserMem} {event : EventData} {index : u8}

theorem saveToSubmitBuf_within {value : List u8} (hvalue : value.length ≤ maxElementSize)
    (h : event.Within) : (saveToSubmitBuf event value index).1.Within := by
  unfold saveToSubmitBuf
  split
  · exact h
  · split
    · exact h
    · split
      · exact h
      · rename_i hroom
        have hlimit : maxElementSize + 1 ≤ argsBufSize := by decide
        refine within_commit ?_
        rw [List.length_cons]
        omega

/-- The size of a save is masked, so that its bytes fit behind the limit. -/
theorem maskedLength_le (size : u32) :
    (if size ≠ BitVec.ofNat 32 maxBytesArrSize then
      size &&& (BitVec.ofNat 32 maxBytesArrSize - 1) else size).toNat ≤ maxBytesArrSize := by
  split
  · have hmask : (BitVec.ofNat 32 maxBytesArrSize - 1).toNat = 2 ^ 12 - 1 := by decide
    rw [BitVec.toNat_and, hmask, Nat.and_two_pow_sub_one_eq_mod]
    have hlt : size.toNat % 2 ^ 12 < 2 ^ 12 := Nat.mod_lt _ (by decide)
    exact Nat.le_of_lt hlt
  · rename_i hsize
    rw [not_not.mp hsize]
    decide

theorem saveBytesToBuf_within {ptr : u64} {size : u32} (h : event.Within) :
    (saveBytesToBuf mem event ptr size index).1.Within := by
  rcases Nat.lt_or_ge saveLimit event.bufOff with hfull | hroom
  · rw [saveBytesToBuf_of_full ptr size hfull]
    exact h
  · rw [saveBytesToBuf_of_low hroom]
    have hlimit : saveLimit + (maxBytesArrSize + 1 + 4) = argsBufSize := by decide
    split
    · split
      · rename_i bytes hread
        refine within_commit ?_
        have hlen := UserMem.length_read hread
        have hmask := maskedLength_le size
        rw [List.length_cons, List.length_append, LittleEndian.length_ofWord, hlen]
        omega
      · exact h
    · refine within_commit ?_
      rw [List.length_cons, LittleEndian.length_ofWord]
      omega

theorem saveStrToBuf_within {ptr : u64} (h : event.Within) :
    (saveStrToBuf mem event ptr index).1.Within := by
  rcases Nat.lt_or_ge saveLimit event.bufOff with hfull | hroom
  · rw [saveStrToBuf_of_full ptr hfull]
    exact h
  · rw [saveStrToBuf_of_room hroom]
    have hlimit : saveLimit + (maxStringSize + 1 + 4) = argsBufSize := by decide
    split
    · rename_i bytes hread
      have hlen := UserMem.length_readStr_le hread
      refine within_commit ?_
      rw [List.length_cons, List.length_append, LittleEndian.length_ofWord]
      omega
    · exact h

end Saves

section Ops

variable {env : ProbeEnv} {st : OpState}

theorem saveWord_within (value : u64) (h : st.event.Within) :
    (st.saveWord value).event.Within :=
  saveToSubmitBuf_within (by simp [maxElementSize]) h

theorem saveStruct_within (mem : UserMem) (op : OpConfig) (h : st.event.Within) :
    (st.saveStruct mem op).event.Within := by
  have hsave (ptr : u64) (size : u32) : (if (saveBytesToBuf mem st.event ptr size
      st.data.saveIndex).2 = true then (saveBytesToBuf mem st.event ptr size st.data.saveIndex).1
      else (saveBytesToBuf mem (saveBytesToBuf mem st.event ptr size st.data.saveIndex).1 0 0
        st.data.saveIndex).1).Within := by
    split
    · exact saveBytesToBuf_within h
    · exact saveBytesToBuf_within (saveBytesToBuf_within h)
  exact hsave _ _

theorem saveString_within (mem : UserMem) (h : st.event.Within) :
    (st.saveString mem).event.Within := by
  unfold OpState.saveString
  dsimp only
  split
  · exact saveStrToBuf_within h
  · exact saveBytesToBuf_within (saveStrToBuf_within h)

theorem savePtrString_within (mem : UserMem) (h : st.event.Within) :
    (st.savePtrString mem).event.Within := by
  have hword := saveWord_within (mem.readWord (untag st.data.readAddr)) h
  unfold OpState.savePtrString
  dsimp only
  split
  · exact saveStrToBuf_within hword
  · exact saveBytesToBuf_within (saveStrToBuf_within hword)

/-- One code keeps the event inside its buffer. -/
theorem execOp_within (op : OpConfig) (code : OpCode) (h : st.event.Within) :
    (execOp env op code st).2.event.Within := by
  cases code
  case saveAddr | saveReg | savePointer => exact saveWord_within _ h
  case saveStruct => exact saveStruct_within env.mem op h
  case saveString => exact saveString_within env.mem h
  case savePtrString => exact savePtrString_within env.mem h
  case readReg | filterValue | filterBuffer =>
    unfold execOp
    dsimp only
    repeat' split
    all_goals exact h
  case filterString =>
    unfold execOp
    dsimp only
    split
    · exact h
    · unfold OpState.filterString
      exact h
  all_goals exact h

end Ops

section Runs

variable {maxOp : Nat} {env : ProbeEnv}

theorem exec_within {op : OpConfig} {st : LoopState} (h : st.event.Within) :
    (st.exec env op).2.event.Within := by
  unfold LoopState.exec
  split
  · exact h
  · exact execOp_within op st.ctx.opCode h

theorem fetch_event {keys : Vector u32 maxOp} {st mid : LoopState} {op : OpConfig}
    (h : st.fetch env keys = some (op, mid)) : mid.event = st.event := by
  have hkey (h : LoopState.fetch.fetchKey keys st env = some (op, mid)) :
      mid.event = st.event := by
    unfold LoopState.fetch.fetchKey at h
    split at h
    · obtain ⟨op', -, hmid⟩ := Option.map_eq_some_iff.mp h
      obtain ⟨-, rfl⟩ := Prod.mk.inj hmid
      rfl
    · cases h
  unfold LoopState.fetch at h
  split at h
  · split at h
    · obtain ⟨-, rfl⟩ := Prod.mk.inj (Option.some.inj h)
      rfl
    · exact hkey h
  · exact hkey h

theorem readArgsLoop_within {keys : Vector u32 maxOp} (n : Nat) {st : LoopState}
    (h : st.event.Within) : (readArgsLoop env keys n st).2.event.Within := by
  induction n generalizing st with
  | zero => exact h
  | succ n ih =>
      rw [readArgsLoop]
      cases hfetch : st.fetch env keys with
      | none => exact h
      | some fetched =>
          obtain ⟨op, mid⟩ := fetched
          have hmid : mid.event.Within := by
            rw [fetch_event hfetch]
            exact h
          have hexec : (mid.exec env op).2.event.Within := exec_within hmid
          dsimp only
          split
          · exact hmid
          · cases hnext : mid.exec env op with
            | mk goesOn next =>
                rw [hnext] at hexec
                cases goesOn with
                | false => exact hexec
                | true =>
                    dsimp only
                    split
                    · exact hexec
                    · exact ih hexec

theorem readArgs_within {packed : PointArgs maxOp} {ctx : OpCtx} {event : EventData}
    {strBuf : StrBufMap} (h : event.Within) :
    (readArgs env packed ctx event strBuf).2.event.Within := by
  have hloop := @readArgsLoop_within maxOp env packed.opKeyList maxOp
    ⟨env.opList.lookup 0, ctx, event, strBuf⟩ h
  unfold readArgs
  generalize readArgsLoop env packed.opKeyList maxOp ⟨env.opList.lookup 0, ctx, event, strBuf⟩ = r
    at hloop ⊢
  obtain ⟨reason, st⟩ := r
  cases reason <;> exact hloop

/-- A program leaves the event in its buffer. -/
theorem run_within (p : Probe) (packed : PointArgs maxOp) (ret : u64) (leftover : OpCtx)
    {event : EventData} (strBuf : StrBufMap) (h : event.Within) :
    (p.run env packed ret leftover event strBuf).event.Within := by
  unfold Probe.run
  dsimp only
  split
  · exact h
  · exact readArgs_within h

theorem saveHead_within (filter : CommonFilter) (key : u32) (regs : CtxRegs) :
    (saveHead filter key regs .init).Within := by
  unfold EventData.Within EventData.bufOff
  rw [saveHead_args]
  simp [argsBufSize]

end Runs

/-- **Nothing is cut off** when an event is submitted. -/
theorem eventsPerfSubmit_eq (c : ContextSource) (id : u32) {event : EventData}
    (h : event.Within) :
    c.eventsPerfSubmit id event = (c.initContext id event).bytes ++ event.args := by
  have hlen : ((c.initContext id event).bytes ++ event.args).length =
      eventContextSize + event.bufOff := by
    rw [List.length_append, EventHeader.length_bytes]
    rfl
  have hfits : eventContextSize + event.bufOff ≤ maxEventSize := Nat.add_le_add_left h _
  unfold ContextSource.eventsPerfSubmit
  dsimp only
  apply List.take_of_length_le
  rw [hlen]
  split
  · exact Nat.le_refl _
  · exact hfits

end Stackplz
