import Stackplz.Probe.Arguments
import Stackplz.User.Packed

/-!
# The records of a save

`OP_SAVE_STRUCT`, `OP_SAVE_STRING` and `OP_SAVE_PTR_STRING` append the records that the
parsers read, and an empty record, or the mark `STRARR_MAGIC_LEN`, stands in for what cannot be
read. The record that stands in needs as much room as the longest one, so at the end of the
buffer nothing is appended at all: `appendsRecords_iff` says from which offset on.
-/

set_option autoImplicit false

namespace Stackplz

/-! ## What has to be appended -/

/-- The codes that save data found in user memory. -/
def OpCode.savesMemory : OpCode → Bool
  | .saveStruct | .saveString | .savePtrString => true
  | _ => false

/-- The record of a string of an array; a string that cannot be read is marked by its
length. -/
def stringRecord (index : u8) : Option (List u8) → List u8
  | some payload => Saved.encode index (.bytes payload)
  | none => index :: LittleEndian.ofWord 4 strarrMagicLen

/-- The records that a save owes the decoder, for whatever it can read. -/
def OpState.records (mem : UserMem) (op : OpConfig) (code : OpCode) (st : OpState) : List u8 :=
  match code with
  | .saveStruct => Saved.encode st.data.saveIndex
      (.bytes ((mem.read (untag st.data.readAddr) (st.structLen op).toNat).getD []))
  | .saveString => Saved.encode st.data.saveIndex
      (.bytes ((mem.readStr (untag st.data.readAddr) maxStringSize).getD []))
  | .savePtrString =>
      let ptr := mem.readWord (untag st.data.readAddr)
      Saved.encode st.data.saveIndex (.word ptr) ++
        stringRecord (st.data.saveIndex + 1) (mem.readStr (untag ptr) maxStringSize)
  | _ => []

/-- The op appends its records. -/
def OpState.AppendsRecords (env : ProbeEnv) (op : OpConfig) (code : OpCode) (st : OpState) :
    Prop :=
  (execOp env op code st).2.event.args = st.event.args ++ st.records env.mem op code

/-- The last offset of the buffer from which the op appends its records. -/
def OpCode.lastOffset : OpCode → Nat
  | .savePtrString => saveLimit - (ptrSize + 1)
  | _ => saveLimit

/-! ## What the parsers make of it -/

/-- One string of an array, as `parse_STRING_ARRAY` reads it. -/
def readString : Reader (Option (List u8)) := do
  let len ← readLen
  if len = strarrMagicLen then return none
  else do
    let payload ← Reader.take len.toNat
    return some payload

/-- The record of a string tells what could be read. -/
theorem consumes_stringRecord (index : u8) {s : Option (List u8)}
    (h : ∀ payload, s = some payload → payload.length ≤ maxStringSize) :
    Reader.Consumes readString (stringRecord index s) s := by
  intro rest
  cases s with
  | none =>
      refine ((consumes_readLen index strarrMagicLen).bind_append _ rest).trans ?_
      rw [if_pos rfl]
      rfl
  | some payload =>
      have hle := h payload rfl
      have hlen : payload.length = (BitVec.ofNat 32 payload.length).toNat := by
        rw [BitVec.toNat_ofNat, Nat.mod_eq_of_lt]
        exact Nat.lt_of_le_of_lt hle (by decide)
      have hmagic : BitVec.ofNat 32 payload.length ≠ strarrMagicLen := by
        intro heq
        have hmax : strarrMagicLen.toNat > maxStringSize := by decide
        rw [← heq] at hmax
        omega
      show readString ((index :: (LittleEndian.ofWord 4 (BitVec.ofNat 32 payload.length) ++
        payload)) ++ rest) = _
      rw [← List.cons_append, List.append_assoc]
      refine ((consumes_readLen index _).bind_append _ (payload ++ rest)).trans ?_
      rw [if_neg hmagic]
      exact (Reader.consumes_take_of_length hlen).bind_append _ rest

/-! ## When the records are appended -/

/-- The record that stands in for data that cannot be saved. -/
def standIn (index : u8) (size : u32) : List u8 := index :: LittleEndian.ofWord 4 size

/-- A save, or the record that stands in for it. -/
def orStandIn (mem : UserMem) (size : u32) (index : u8) (r : EventData × Bool) : EventData :=
  if r.2 then r.1 else (saveBytesToBuf mem r.1 0 size index).1

section Saves

variable {mem : UserMem} {event : EventData} {index : u8}

/-- Both records that stand in leave nothing to read, the one by its size and the other by the
mask. -/
theorem saveStandIn_of_room {size : u32} (hsize : size = 0 ∨ size = strarrMagicLen)
    (hroom : event.bufOff ≤ saveLimit) :
    (saveBytesToBuf mem event 0 size index).1 = event.commit (standIn index size) := by
  have hlast : saveLimit ≤ argsBufSize - (4 + 1) := by decide
  have hheader : argsBufSize - (4 + 1) ≤ argsBufSize - 1 := by decide
  unfold saveBytesToBuf
  rw [if_neg (by omega), if_neg (by omega), if_neg
    (show ¬ event.bufOff > argsBufSize - (maxBytesArrSize + 1 + 4) from Nat.not_lt.mpr hroom)]
  rcases hsize with rfl | rfl
  · rfl
  · rfl

/-- With room, a save that reads nothing is stood in for. -/
theorem orStandIn_of_room {read : Option (List u8)} {record : List u8 → List u8} {size : u32}
    {r : EventData × Bool}
    (hr : r = match read with
      | some bytes => (event.commit (record bytes), true)
      | none => (event, false))
    (hsize : size = 0 ∨ size = strarrMagicLen) (hroom : event.bufOff ≤ saveLimit) :
    (orStandIn mem size index r).args =
      event.args ++ (read.map record).getD (standIn index size) := by
  subst hr
  cases read with
  | some bytes => rfl
  | none => exact congrArg EventData.args (saveStandIn_of_room hsize hroom)

/-- Without room the record that stands in is refused as well. -/
theorem orStandIn_of_full (size : u32) {r : EventData × Bool} (hr : r = (event.refuse, false))
    (hfull : saveLimit < event.bufOff) : (orStandIn mem size index r).args = event.args := by
  have hfull' : saveLimit < event.refuse.bufOff := hfull
  subst hr
  show (saveBytesToBuf mem event.refuse 0 size index).1.args = event.args
  rw [saveBytesToBuf_of_full 0 size hfull']
  rfl

theorem saveStruct_event (mem : UserMem) (op : OpConfig) (st : OpState) :
    (st.saveStruct mem op).event = orStandIn mem 0 st.data.saveIndex
      (saveBytesToBuf mem st.event (untag st.data.readAddr) (st.structLen op)
        st.data.saveIndex) := rfl

theorem saveString_event (mem : UserMem) (st : OpState) :
    (st.saveString mem).event = orStandIn mem 0 st.data.saveIndex
      (saveStrToBuf mem st.event (untag st.data.readAddr) st.data.saveIndex) := rfl

theorem savePtrString_event (mem : UserMem) (st : OpState) :
    (st.savePtrString mem).event =
      orStandIn mem strarrMagicLen (st.data.saveIndex + 1)
        (saveStrToBuf mem (st.saveWord (mem.readWord (untag st.data.readAddr))).event
          (untag (mem.readWord (untag st.data.readAddr))) (st.data.saveIndex + 1)) := rfl

theorem saveStruct_of_room (mem : UserMem) (op : OpConfig) {st : OpState}
    (hroom : st.event.bufOff ≤ saveLimit) :
    (st.saveStruct mem op).event.args = st.event.args ++ st.records mem op .saveStruct := by
  rw [saveStruct_event, orStandIn_of_room (saveBytesToBuf_of_room (structLen_le op st) hroom)
    (Or.inl rfl) hroom]
  unfold OpState.records
  cases hread : mem.read (untag st.data.readAddr) (st.structLen op).toNat with
  | none => rfl
  | some bytes =>
      have hlen : BitVec.ofNat 32 bytes.length = st.structLen op := by
        rw [UserMem.length_read hread, BitVec.ofNat_toNat, BitVec.setWidth_eq]
      dsimp only [Option.getD_some, Saved.encode]
      rw [hlen]
      rfl

theorem saveString_of_room (mem : UserMem) (op : OpConfig) {st : OpState}
    (hroom : st.event.bufOff ≤ saveLimit) :
    (st.saveString mem).event.args = st.event.args ++ st.records mem op .saveString := by
  rw [saveString_event, orStandIn_of_room (saveStrToBuf_of_room hroom) (Or.inl rfl) hroom]
  unfold OpState.records
  cases mem.readStr (untag st.data.readAddr) maxStringSize with
  | none => rfl
  | some bytes => rfl

/-- The word of `OP_SAVE_PTR_STRING` leaves room for the string. -/
theorem savePtrString_of_room (mem : UserMem) (op : OpConfig) {st : OpState}
    (hroom : st.event.bufOff ≤ saveLimit - (ptrSize + 1)) :
    (st.savePtrString mem).event.args =
      st.event.args ++ st.records mem op .savePtrString := by
  have hword : saveLimit - (ptrSize + 1) ≤ wordLimit := by decide
  have hlimit : saveLimit - (ptrSize + 1) + 9 = saveLimit := by decide
  let ptr := mem.readWord (untag st.data.readAddr)
  have hptr : (st.saveWord ptr).event =
      st.event.commit (Saved.encode st.data.saveIndex (.word ptr)) :=
    congrArg Prod.fst (saveToSubmitBuf_of_room (by simp) (Nat.le_trans hroom hword))
  have hstring : (st.event.commit (Saved.encode st.data.saveIndex (.word ptr))).bufOff ≤
      saveLimit := by
    have hlen : (Saved.encode st.data.saveIndex (.word ptr)).length = 9 := by
      simp [Saved.encode]
    have hoff : (st.event.args ++ Saved.encode st.data.saveIndex (.word ptr)).length =
        st.event.bufOff + 9 := by
      rw [List.length_append, hlen]
      rfl
    show (st.event.args ++ Saved.encode st.data.saveIndex (.word ptr)).length ≤ saveLimit
    omega
  rw [savePtrString_event, hptr,
    orStandIn_of_room (saveStrToBuf_of_room hstring) (Or.inr rfl) hstring]
  unfold OpState.records
  show (st.event.args ++ Saved.encode st.data.saveIndex (.word ptr)) ++ _ =
    st.event.args ++ (Saved.encode st.data.saveIndex (.word ptr) ++
      stringRecord (st.data.saveIndex + 1) (mem.readStr (untag ptr) maxStringSize))
  rw [List.append_assoc]
  cases mem.readStr (untag ptr) maxStringSize with
  | none => rfl
  | some bytes => rfl

/-- At the end of the buffer `OP_SAVE_PTR_STRING` appends its word at most. -/
theorem savePtrString_of_full (mem : UserMem) {st : OpState}
    (hfull : saveLimit - (ptrSize + 1) < st.event.bufOff) :
    (st.savePtrString mem).event.args.length ≤ st.event.args.length + 9 := by
  have hlimit : saveLimit - (ptrSize + 1) + 9 = saveLimit := by decide
  let ptr := mem.readWord (untag st.data.readAddr)
  have hword : saveLimit < (st.saveWord ptr).event.args.length ∧
      (st.saveWord ptr).event.args.length ≤ st.event.args.length + 9 := by
    rcases Nat.lt_or_ge wordLimit st.event.bufOff with hnone | hroom
    · have hptr : (st.saveWord ptr).event = st.event.refuse :=
        congrArg Prod.fst (saveToSubmitBuf_of_full (by simp) hnone)
      have hlast : saveLimit ≤ wordLimit := by decide
      rw [hptr]
      exact ⟨Nat.lt_of_le_of_lt hlast hnone, Nat.le_add_right _ _⟩
    · have hptr : (st.saveWord ptr).event =
          st.event.commit (st.data.saveIndex :: LittleEndian.ofWord 8 ptr) :=
        congrArg Prod.fst (saveToSubmitBuf_of_room (by simp) hroom)
      have hlen : (st.event.args ++ st.data.saveIndex :: LittleEndian.ofWord 8 ptr).length =
          st.event.args.length + 9 := by
        simp
      have hoff : saveLimit - (ptrSize + 1) < st.event.args.length := hfull
      rw [hptr]
      exact ⟨show saveLimit < (st.event.args ++ _).length by omega, Nat.le_of_eq hlen⟩
  rw [savePtrString_event,
    orStandIn_of_full strarrMagicLen (saveStrToBuf_of_full _ hword.1) hword.1]
  exact hword.2

end Saves

/-- **A save appends its records** exactly up to the last offset that leaves room for the
longest element. -/
theorem execOp_appendsRecords_iff (env : ProbeEnv) (op : OpConfig) {code : OpCode}
    (st : OpState) (hcode : code.savesMemory = true) :
    st.AppendsRecords env op code ↔ st.event.bufOff ≤ code.lastOffset := by
  -- what a refused save leaves is too short to hold the records
  have hshort (h : (execOp env op code st).2.event.args.length <
      st.event.args.length + (st.records env.mem op code).length) :
      ¬ st.AppendsRecords env op code := by
    intro happends
    have hlen := congrArg List.length happends
    rw [List.length_append] at hlen
    omega
  cases code
  case saveStruct =>
    refine ⟨fun happends => Nat.le_of_not_lt fun hfull => ?_,
      fun hroom => saveStruct_of_room env.mem op hroom⟩
    refine hshort ?_ happends
    show (st.saveStruct env.mem op).event.args.length < _
    rw [saveStruct_event, orStandIn_of_full 0 (saveBytesToBuf_of_full _ _ hfull) hfull]
    simp [OpState.records, Saved.encode]
  case saveString =>
    refine ⟨fun happends => Nat.le_of_not_lt fun hfull => ?_,
      fun hroom => saveString_of_room env.mem op hroom⟩
    refine hshort ?_ happends
    show (st.saveString env.mem).event.args.length < _
    rw [saveString_event, orStandIn_of_full 0 (saveStrToBuf_of_full _ hfull) hfull]
    simp [OpState.records, Saved.encode]
  case savePtrString =>
    refine ⟨fun happends => Nat.le_of_not_lt fun hfull => ?_,
      fun hroom => savePtrString_of_room env.mem op hroom⟩
    refine hshort (Nat.lt_of_le_of_lt (savePtrString_of_full env.mem hfull) ?_) happends
    unfold OpState.records
    dsimp only
    cases env.mem.readStr (untag (env.mem.readWord (untag st.data.readAddr))) maxStringSize with
    | none => simp [Saved.encode, stringRecord]
    | some bytes =>
        simp [Saved.encode, stringRecord]
        omega
  all_goals cases hcode

/-! ## Along a run -/

variable {maxOp : Nat}

/-- **When the records are appended.** The saves of a run append their records exactly when
none is executed with less room left than the longest element needs. -/
theorem saves_appendRecords_iff (p : Probe) (env : ProbeEnv) (keys : Vector u32 maxOp)
    (ret : u64) (leftover : OpCtx) (event : EventData) (strBuf : StrBufMap)
    (xs : List (OpConfig × OpCode)) :
    (interpreter env keys).Guarded
        (fun st x => x.2.savesMemory = true → st.opState.AppendsRecords env x.1 x.2)
        (p.enter env ret leftover event strBuf) xs ↔
      (interpreter env keys).Guarded
        (fun st x => x.2.savesMemory = true → st.event.bufOff ≤ x.2.lastOffset)
        (p.enter env ret leftover event strBuf) xs :=
  Machine.guarded_congr
    (fun st x => imp_congr_right fun hcode =>
      execOp_appendsRecords_iff env x.1 st.opState hcode) xs _

/-! ### Eight buffers -/

/-- An argument `buf` of a uprobe point. -/
def bufArg (regIndex : u32) : PointArg :=
  { newUprobePointArg [] .buffer regIndex with groupType := .uprobeEnter }

/-- The arguments of the hook `f[buf,buf,buf,buf,buf,buf,buf,buf]`. -/
def bufArgs : List PointArg := [bufArg 0, bufArg 1, bufArg 2, bufArg 3, bufArg 4, bufArg 5,
  bufArg 6, bufArg 7]

/-- The op table after the arguments are parsed. -/
def bufTable : OpManager :=
  (bufArgs.flatMap PointArg.getOpList).foldl OpManager.addOp .init

def bufPacked : PointArgs stackMaxOpCount :=
  (PointArgs.pack stackMaxOpCount bufTable 0 bufArgs).get (by decide +kernel)

/-- A process whose memory and registers read as zero, with this op table loaded. -/
def zeroEnv (m : OpManager) : ProbeEnv :=
  ⟨fun _ => some 0, ⟨Vector.replicate 31 0, 0, 0, 0⟩, m.load, .empty⟩

theorem loadedIn_zeroEnv {m : OpManager} (h : m.opList.length ≤ 256) :
    m.LoadedIn (zeroEnv m).opList := OpManager.loadedIn_load h

def bufEnv : ProbeEnv := zeroEnv bufTable

/-- The entry of the probe on a new event. -/
def bufStart : LoopState :=
  Probe.probeStack.enter bufEnv 0 .cleared (saveHead ⟨0, 0, 0⟩ 0 bufEnv.regs .init) .empty

theorem read_zero (n : Nat) : ∀ addr : u64,
    UserMem.read (fun _ => some 0) addr n = some (List.replicate n 0) := by
  induction n with
  | zero => exact fun _ => rfl
  | succ n ih =>
      intro addr
      rw [UserMem.read, ih]
      rfl

/-- The codes of a buffer before its bytes are saved. -/
def bufHead (regIndex : u32) : List (OpConfig × OpCode) :=
  let read := (readSaveReg (regIndex.setWidth 64)).toOpConfig
  [(read, .readReg), (read, .saveReg), (opcMoveRegValue.toOpConfig, .moveRegValue),
    ((saveStructOp 4096).toOpConfig, .setReadLen)]

/-- The code that saves them. -/
def bufSave : OpConfig × OpCode := ((saveStructOp 4096).toOpConfig, .saveStruct)

theorem bufHead_run {regIndex : u32} (hreg : regIndex.toNat < 33) {st : OpState}
    (hblack : st.data.matchBlacklist = false) (hroom : st.event.bufOff ≤ wordLimit) :
    ∃ log o, runSteps bufEnv (bufHead regIndex) st = some (log, o) ∧
      o.event.bufOff = st.event.bufOff + 9 ∧ o.data.readLen = 4096 ∧
      o.data.matchBlacklist = false := by
  have hindex : ((readSaveReg (regIndex.setWidth 64)).toOpConfig.readIndex
      st.data.regIndex).toNat < 33 := by
    show ((regIndex.setWidth 64).setWidth 8).toNat < 33
    rw [BitVec.toNat_setWidth, BitVec.toNat_setWidth]
    omega
  have hword (value : u64) : (st.saveWord value).event =
      st.event.commit (st.data.saveIndex :: LittleEndian.ofWord 8 value) :=
    congrArg Prod.fst (saveToSubmitBuf_of_room (by simp) hroom)
  refine ⟨_, _, runSteps_cons.mpr ⟨_, _, _, step_readReg hindex hblack,
    runSteps_cons.mpr ⟨_, _, _, step_eq_some.mpr ⟨rfl, hblack, rfl⟩,
    runSteps_cons.mpr ⟨_, _, _, step_eq_some.mpr ⟨rfl, hblack, rfl⟩,
    runSteps_cons.mpr ⟨_, _, _, step_eq_some.mpr ⟨rfl, hblack, rfl⟩, rfl, rfl⟩, rfl⟩, rfl⟩, rfl⟩,
    ?_, rfl, hblack⟩
  show (st.saveWord _).event.args.length = st.event.args.length + 9
  rw [hword]
  simp [EventData.commit]

/-- A buffer is saved with its 4096 bytes while there is room. -/
theorem bufSave_run {st : OpState} (hlen : st.data.readLen = 4096)
    (hblack : st.data.matchBlacklist = false) (hroom : st.event.bufOff ≤ saveLimit) :
    ∃ log o, st.step bufEnv bufSave = some (log, o) ∧
      o.event.bufOff = st.event.bufOff + 4101 ∧ o.data.matchBlacklist = false := by
  refine ⟨_, _, step_eq_some.mpr ⟨rfl, hblack, rfl⟩, ?_, hblack⟩
  have hstruct : st.structLen bufSave.1 = 4096 := by
    have hplain : st.structLen bufSave.1 = if st.data.readLen > BitVec.ofNat 32 maxBytesArrSize
        then BitVec.ofNat 32 maxBytesArrSize else st.data.readLen := rfl
    rw [hplain, hlen]
    rfl
  show (st.saveStruct bufEnv.mem bufSave.1).event.args.length = st.event.args.length + 4101
  rw [saveStruct_of_room bufEnv.mem bufSave.1 hroom, List.length_append, OpState.records,
    hstruct, show bufEnv.mem = fun _ => some 0 from rfl, read_zero]
  simp only [Saved.encode, Option.getD_some, List.length_cons, List.length_append,
    LittleEndian.length_ofWord, List.length_replicate]
  rfl

/-- The codes of one argument. -/
theorem bufArg_steps (regIndex : u32) (h : regIndex ≠ regArm64Max) :
    (bufArg regIndex).steps = bufHead regIndex ++ [bufSave] := by
  have hops : (bufArg regIndex).getOpList =
      [readSaveReg (regIndex.setWidth 64), opcMoveRegValue, saveStructOp 4096] := if_neg h
  rw [PointArg.steps, hops]
  rfl

theorem bufArg_run {regIndex : u32} (hreg : regIndex.toNat < 33) {st : OpState}
    (hblack : st.data.matchBlacklist = false) (hroom : st.event.bufOff + 9 ≤ saveLimit) :
    ∃ log o, runSteps bufEnv (bufArg regIndex).steps st = some (log, o) ∧
      o.event.bufOff = st.event.bufOff + 4110 ∧ o.data.matchBlacklist = false := by
  have hword : saveLimit ≤ wordLimit := by decide
  obtain ⟨log, mid, hhead, hoff, hlen, hmid⟩ := bufHead_run hreg hblack (by omega)
  obtain ⟨log', o, hsave, hoff', ho⟩ := bufSave_run hlen hmid (by omega)
  have hmax : regIndex ≠ regArm64Max := by
    rintro rfl
    exact absurd hreg (by decide)
  refine ⟨log ++ (log' ++ []), o, ?_, by omega, ho⟩
  rw [bufArg_steps regIndex hmax]
  exact runSteps_append.mpr ⟨log, mid, _, hhead, runSteps_cons.mpr ⟨_, _, _, hsave, rfl, rfl⟩, rfl⟩

theorem bufArgs_run {n : Nat} {regs : List u32} (hlen : regs.length = n)
    (hregs : ∀ r ∈ regs, r.toNat < 33) {st : OpState} (hblack : st.data.matchBlacklist = false)
    (hroom : st.event.bufOff + 4110 * n ≤ saveLimit + 4101) :
    ∃ log o, runSteps bufEnv (((regs.map bufArg).map PointArg.steps).flatten) st = some (log, o) ∧
      o.event.bufOff = st.event.bufOff + 4110 * n ∧ o.data.matchBlacklist = false := by
  induction regs generalizing n st with
  | nil =>
      have hzero : n = 0 := hlen.symm
      exact ⟨[], st, rfl, by rw [hzero, Nat.mul_zero, Nat.add_zero], hblack⟩
  | cons r regs ih =>
      obtain ⟨hr, hrest⟩ := List.forall_mem_cons.mp hregs
      rw [List.length_cons] at hlen
      obtain ⟨log, mid, hrun, hoff, hmid⟩ := bufArg_run hr hblack (by omega)
      obtain ⟨log', o, hrun', hoff', ho⟩ := ih rfl hrest hmid (by omega)
      exact ⟨log ++ log', o, runSteps_append.mpr ⟨log, mid, log', hrun, hrun', rfl⟩, by omega, ho⟩

/-- The eighth buffer finds 28811 bytes in the event, and nothing is appended for it. -/
theorem eighthBuffer_not_appended :
    ¬ ∀ xs, (interpreter bufEnv bufPacked.opKeyList).Guarded
      (fun st x => x.2.savesMemory = true → st.opState.AppendsRecords bufEnv x.1 x.2)
      bufStart xs := by
  intro happends
  have hloaded : bufTable.LoadedIn bufEnv.opList := loadedIn_zeroEnv (by decide +kernel)
  have hhead : bufStart.opState.event.bufOff = 32 := by decide +kernel
  have hidle : OpCtx.cleared.Idle := Or.inl rfl
  obtain ⟨pre, start, -, hpre, hat, hstart⟩ := run_probeEnter bufPacked.opKeyList
    .probeStack hloaded.lookup_zero 0 hidle (saveHead ⟨0, 0, 0⟩ 0 bufEnv.regs .init) .empty
  have hstart : start.opState = bufStart.opState := hstart
  have hblack : start.opState.data.matchBlacklist = false := by
    rw [hstart]
    rfl
  -- seven buffers fill the event, and the word of the eighth still finds room
  have hoff₀ : start.opState.event.bufOff = 32 := by rw [hstart, hhead]
  have hregs : ∀ r ∈ ([0, 1, 2, 3, 4, 5, 6] : List u32), r.toNat < 33 := by simp
  have hseven : start.opState.event.bufOff + 4110 * 7 ≤ saveLimit + 4101 := by
    rw [hoff₀]
    decide
  obtain ⟨log₁, mid, hrun₁, hoff₁, hblack₁⟩ := bufArgs_run (n := 7) rfl hregs hblack hseven
  have hoff₁ : mid.event.bufOff = 28802 := by rw [hoff₁, hoff₀]
  have hroom : mid.event.bufOff ≤ wordLimit := hoff₁ ▸ (by decide)
  obtain ⟨log₂, last, hrun₂, hoff₂, -, hblack₂⟩ :=
    bufHead_run (show (7 : u32).toNat < 33 by decide) hblack₁ hroom
  -- the last save refuses its record, but the interpreter runs on
  let front := ((([0, 1, 2, 3, 4, 5, 6].map bufArg).map PointArg.steps).flatten ++ bufHead 7)
  have hfront : runSteps bufEnv front start.opState = some (log₁ ++ log₂, last) :=
    runSteps_append.mpr ⟨log₁, mid, log₂, hrun₁, hrun₂, rfl⟩
  have hsteps : (packedOps bufArgs).flatMap OpConfig.steps = front ++ [bufSave] := by
    rw [steps_packedOps]
    rfl
  have hall : runSteps bufEnv ((packedOps bufArgs).flatMap OpConfig.steps) start.opState =
      some (log₁ ++ log₂ ++ (last.saved bufEnv.mem bufSave.1 bufSave.2 ++ []),
        (execOp bufEnv bufSave.1 bufSave.2 last).2) := by
    rw [hsteps]
    exact runSteps_append.mpr ⟨_, last, _, hfront,
      runSteps_cons.mpr ⟨_, _, _, step_eq_some.mpr ⟨rfl, hblack₂, rfl⟩, rfl, rfl⟩, rfl⟩
  have hkeys : KeysAt bufEnv bufPacked.opKeyList 0 (packedOps bufArgs) :=
    packed_keysAt (by decide) (by decide) hloaded (by decide +kernel) (Option.some_get _).symm
  obtain ⟨stop, hrun, -, -⟩ := run_ops (by decide) hat hkeys (by decide +kernel) hall
  rw [hsteps] at hrun
  obtain ⟨before, hbefore, hsave⟩ := Machine.run_append_eq_some.mp hrun
  obtain ⟨after, hstep, -⟩ := Machine.run_cons_eq_some.mp hsave
  obtain ⟨log, hstate⟩ := run_runSteps (by decide +kernel) hbefore
  have hlast : before.opState = last :=
    (Prod.mk.inj (Option.some.inj (hstate.symm.trans hfront))).2
  -- so the eighth save is reached without the room that it needs
  have hguard := Machine.guarded_at ((saves_appendRecords_iff .probeStack bufEnv
    bufPacked.opKeyList 0 .cleared _ .empty (pre ++ front ++ [bufSave])).mp
      (happends (pre ++ front ++ [bufSave])))
    (Machine.run_append_eq_some.mpr ⟨start, hpre, hbefore⟩) hstep rfl
  have hfull : before.event.bufOff = 28811 := by
    show before.opState.event.bufOff = 28811
    rw [hlast, hoff₂, hoff₁]
  rw [hfull] at hguard
  exact absurd hguard (by decide)

end Stackplz
