import Stackplz.Probe.Loops
import Stackplz.User.Packed

/-!
# Vectors of buffers

`iovec` arguments with a count in a register, and `msghdr`, are saved by a loop and read back
by `parse_IOVEC` and `parse_MSGHDR`. The loop makes at least one round and at most 32, the
parsers read at most six records, and their fixed headers assume that every struct could be
read. `vector_showsSaved_iff` says for which counts and memories the two sides agree.
-/

set_option autoImplicit false

namespace Stackplz

/-! ## What the probe saves -/

/-- The struct at an address, empty when it cannot be read. -/
def iovecStruct (mem : UserMem) (addr : u64) : List u8 :=
  (mem.read (untag addr) iovecSize).getD []

/-- The number of bytes that the loop asks for, at most `MAX_BUF_READ_SIZE`. -/
def bufferLen (mem : UserMem) (addr : u64) : u32 :=
  minReadLen (BitVec.ofNat 32 maxBytesArrSize) (mem.readWord addr)

/-- The buffer of the struct at an address, empty when it cannot be read. -/
def iovecBuffer (mem : UserMem) (addr : u64) : List u8 :=
  (mem.read (untag (mem.readWord (untag addr))) (bufferLen mem (untag addr + 8)).toNat).getD []

/-- The structs of a vector, each with its buffer. -/
def iovecs (mem : UserMem) : Nat → u64 → List (List u8 × List u8)
  | 0, _ => []
  | n + 1, addr =>
      (iovecStruct mem addr, iovecBuffer mem addr) ::
        iovecs mem n (addr + BitVec.ofNat 64 iovecSize)

/-- The records of a vector. -/
def iovecLog (records : List (List u8 × List u8)) : List Saved :=
  records.flatMap fun r => [.bytes r.1, .bytes r.2]

/-- The ops of one round. -/
def iovecBody : List NamedOp :=
  opcSetTmpValue :: (iovecOps ++
    [opcMoveTmpValue, opcAddOffset.newValue (BitVec.ofNat 64 iovecSize)])

/-- The codes of one round. -/
def iovecCodes : List (OpConfig × OpCode) :=
  (iovecBody.map NamedOp.toOpConfig).flatMap OpConfig.steps

theorem minReadLen_le (readLen : u32) (value : u64) : minReadLen readLen value ≤ readLen := by
  unfold minReadLen
  split
  · rename_i hlt
    have hlt : value.toNat < (readLen.setWidth 64).toNat := hlt
    show (value.setWidth 32).toNat ≤ readLen.toNat
    rw [BitVec.toNat_setWidth] at hlt ⊢
    have hle : value.toNat % 2 ^ 32 ≤ value.toNat := Nat.mod_le _ _
    have hmod : readLen.toNat % 2 ^ 64 = readLen.toNat := Nat.mod_eq_of_lt (by omega)
    omega
  · exact Nat.le_refl _

theorem bufferLen_le (mem : UserMem) (addr : u64) :
    bufferLen mem addr ≤ BitVec.ofNat 32 maxBytesArrSize := minReadLen_le _ _

/-- A round saves the struct at the read address and its buffer, and moves on to the next. -/
theorem execSteps_iovecCodes (env : ProbeEnv) (st : OpState) :
    (execSteps env iovecCodes st).1 =
        [.bytes (iovecStruct env.mem st.data.readAddr),
          .bytes (iovecBuffer env.mem st.data.readAddr)] ∧
      (execSteps env iovecCodes st).2.data.readAddr =
        st.data.readAddr + BitVec.ofNat 64 iovecSize := by
  have hlen : ¬ bufferLen env.mem (untag st.data.readAddr + 8) >
      BitVec.ofNat 32 maxBytesArrSize := Nat.not_lt.mpr (bufferLen_le _ _)
  refine ⟨?_, rfl⟩
  have hlog : (execSteps env iovecCodes st).1 = [.bytes (iovecStruct env.mem st.data.readAddr),
      .bytes ((env.mem.read (untag (env.mem.readWord (untag st.data.readAddr)))
        (if bufferLen env.mem (untag st.data.readAddr + 8) > BitVec.ofNat 32 maxBytesArrSize
          then BitVec.ofNat 32 maxBytesArrSize
          else bufferLen env.mem (untag st.data.readAddr + 8)).toNat).getD [])] := rfl
  rw [hlog, if_neg hlen]
  rfl

/-! ## The loops -/

/-- The loop of `R_IOVEC_REG`. -/
def iovecRegLoop (regIndex : u64) : OpLoop where
  setup := [(buildReadRegBreakCount regIndex).toOpConfig, opcSaveReg.toOpConfig]
  head := opcForBreak.toOpConfig
  body := iovecBody.map NamedOp.toOpConfig
  tail := opcForBreak.toOpConfig
  first := [((buildReadRegBreakCount regIndex).toOpConfig, .readReg)]
  setter := ((buildReadRegBreakCount regIndex).toOpConfig, .setBreakCountRegValue)
  others := [(opcSaveReg.toOpConfig, .saveReg)]
  codes_setup := rfl
  setter_sets := rfl
  others_keep := by decide
  body_keep := by decide
  setup_forBreak := by simp [OpConfig.steps, buildReadRegBreakCount, combinedOp, opcSaveReg, rop]
  body_forBreak := by decide
  head_steps := opcForBreak_steps
  tail_steps := opcForBreak_steps

/-- The loop of `r_MSGHDR`. -/
def msghdrLoop : OpLoop where
  setup := [opcSetReadLen.newValue (BitVec.ofNat 64 msghdrSize), opcSaveStruct, opcSetTmpValue,
    opcSetReadLen.newValue (BitVec.ofNat 64 maxBytesArrSize), buildReadPtrLen 40,
    buildReadPtrAddr 32, opcSaveStruct, opcMoveTmpValue, buildReadPtrBreakCount 24,
    buildReadPtrAddr 16].map NamedOp.toOpConfig
  head := opcForBreak.toOpConfig
  body := iovecBody.map NamedOp.toOpConfig
  tail := opcForBreak.toOpConfig
  first := ([opcSetReadLen.newValue (BitVec.ofNat 64 msghdrSize), opcSaveStruct, opcSetTmpValue,
    opcSetReadLen.newValue (BitVec.ofNat 64 maxBytesArrSize), buildReadPtrLen 40,
    buildReadPtrAddr 32, opcSaveStruct, opcMoveTmpValue].map NamedOp.toOpConfig).flatMap
      OpConfig.steps ++ [((buildReadPtrBreakCount 24).toOpConfig, .readPointer)]
  setter := ((buildReadPtrBreakCount 24).toOpConfig, .setBreakCountPointerValue)
  others := (buildReadPtrAddr 16).toOpConfig.steps
  codes_setup := rfl
  setter_sets := rfl
  others_keep := by decide
  body_keep := by decide
  setup_forBreak := by decide
  body_forBreak := by decide
  head_steps := opcForBreak_steps
  tail_steps := opcForBreak_steps

/-- No op of the list ends it, and it saves no array of strings. -/
theorem iovecRegLoop_codes (regIndex : u64) : ∀ op ∈ (iovecRegLoop regIndex).ops,
    op.code ≠ .skip ∧ op.code ≠ .savePtrString ∧ op.postCode ≠ .savePtrString := by
  have hfirst : OpCode.readReg ≠ .skip ∧ OpCode.readReg ≠ .savePtrString ∧
      OpCode.setBreakCountRegValue ≠ .savePtrString := by decide
  have hrest : ∀ op ∈ opcSaveReg.toOpConfig :: opcForBreak.toOpConfig ::
      (iovecBody.map NamedOp.toOpConfig ++ [opcForBreak.toOpConfig]),
      op.code ≠ .skip ∧ op.code ≠ .savePtrString ∧ op.postCode ≠ .savePtrString := by decide
  exact List.forall_mem_cons.mpr ⟨hfirst, hrest⟩

theorem ops_iovecRegLoop (regIndex : u32) :
    (iovecRegLoop (regIndex.setWidth 64)).ops =
      (ArgType.iovecReg regIndex).opList.map NamedOp.toOpConfig := rfl

theorem ops_msghdrLoop : msghdrLoop.ops = ArgType.msghdr.opList.map NamedOp.toOpConfig := rfl

section Loops

variable {maxOp : Nat} {env : ProbeEnv} {keys : Vector u32 maxOp}

/-- The rounds of a loop save the structs of the vector at the read address. -/
theorem run_rounds {op : OpConfig} {m : Nat} {st next : LoopState}
    (h : (interpreter env keys).run st
      (List.replicate m (iovecCodes ++ [(op, .forBreak)])).flatten = some next)
    (hroom : next.event.refused = false) :
    st.event.refused = false ∧
      ∃ bytes, Written (iovecLog (iovecs env.mem m st.ctx.readAddr)) bytes ∧
        next.event.args = st.event.args ++ bytes := by
  induction m generalizing st with
  | zero =>
      obtain rfl := Option.some.inj h
      exact ⟨hroom, [], .nil, (List.append_nil _).symm⟩
  | succ m ih =>
      rw [List.replicate_succ, List.flatten_cons, List.append_assoc] at h
      obtain ⟨body, hbody, hrest⟩ := Machine.run_append_eq_some.mp h
      obtain ⟨mid, htail, hrounds⟩ := Machine.run_cons_eq_some.mp hrest
      obtain ⟨hevent, haddr, -⟩ := advance_forBreak_frame rfl (interpreter_step.mp htail)
      obtain ⟨hmid, bytes', hbytes', hargs'⟩ := ih hrounds
      obtain ⟨hstate, hstart, bytes, hbytes, hargs⟩ :=
        run_straight (by decide) hbody (hevent ▸ hmid)
      obtain ⟨hlog, hnext⟩ := execSteps_iovecCodes env st.opState
      have hmove : mid.ctx.readAddr = st.ctx.readAddr + BitVec.ofNat 64 iovecSize :=
        haddr.trans ((congrArg (fun o => o.data.readAddr) hstate).trans hnext)
      refine ⟨hstart, bytes ++ bytes', ?_, ?_⟩
      · rw [hlog] at hbytes
        rw [hmove] at hbytes'
        exact hbytes.append hbytes'
      · rw [hargs', hevent, hargs, List.append_assoc]

/-- A loop over a vector appends what its setup saves, and then the vector. -/
theorem run_vector {L : OpLoop} (hbody : L.bodyCodes = iovecCodes)
    (hstraight : ∀ x ∈ L.setup.flatMap OpConfig.steps, x.2.isStraight = true) {m : Nat}
    {st next : LoopState} (h : (interpreter env keys).run st (L.trace m) = some next)
    (hroom : next.event.refused = false) :
    st.event.refused = false ∧
    ∃ bytes bytes', next.event.args = st.event.args ++ (bytes ++ bytes') ∧
      Written (execSteps env (L.setup.flatMap OpConfig.steps) st.opState).1 bytes ∧
      Written (iovecLog (iovecs env.mem m
        (execSteps env (L.setup.flatMap OpConfig.steps) st.opState).2.data.readAddr)) bytes' := by
  unfold OpLoop.trace OpLoop.round at h
  rw [hbody] at h
  obtain ⟨ready, hsetup, hrest⟩ := Machine.run_append_eq_some.mp h
  obtain ⟨mid, hhead, hrounds⟩ := Machine.run_cons_eq_some.mp hrest
  obtain ⟨hevent, haddr, -⟩ := advance_forBreak_frame rfl (interpreter_step.mp hhead)
  obtain ⟨hmid, bytes', hbytes', hargs'⟩ := run_rounds hrounds hroom
  obtain ⟨hstate, hstart, bytes, hbytes, hargs⟩ := run_straight hstraight hsetup (hevent ▸ hmid)
  refine ⟨hstart, bytes, bytes', ?_, hbytes, ?_⟩
  · rw [hargs', hevent, hargs, List.append_assoc]
  · rw [← hstate]
    show Written (iovecLog (iovecs env.mem m ready.ctx.readAddr)) bytes'
    rw [← haddr]
    exact hbytes'

end Loops

/-! ## What the parsers show -/

/-- The data of a vector in the order in which it is shown. -/
def iovecPayloads (records : List (List u8 × List u8)) : List (List u8) :=
  records.flatMap fun r => [r.1, r.2]

/-- The data of a vector as the probe saves it: whole structs or nothing, and short buffers. -/
structure IovecData (records : List (List u8 × List u8)) : Prop where
  struct : ∀ r ∈ records, r.1.length = iovecSize ∨ r.1 = []
  buffer : ∀ r ∈ records, r.2.length < 2 ^ 32

theorem iovecData_iovecs (mem : UserMem) (n : Nat) :
    ∀ addr : u64, IovecData (iovecs mem n addr) := by
  induction n with
  | zero => exact fun _ => ⟨List.forall_mem_nil _, List.forall_mem_nil _⟩
  | succ n ih =>
      intro addr
      obtain ⟨hstruct, hbuffer⟩ := ih (addr + BitVec.ofNat 64 iovecSize)
      refine ⟨List.forall_mem_cons.mpr ⟨?_, hstruct⟩, List.forall_mem_cons.mpr ⟨?_, hbuffer⟩⟩
      · show (iovecStruct mem addr).length = iovecSize ∨ iovecStruct mem addr = []
        unfold iovecStruct
        cases hread : mem.read (untag addr) iovecSize with
        | none => exact Or.inr rfl
        | some bytes => exact Or.inl (UserMem.length_read hread)
      · exact Nat.lt_of_le_of_lt (UserMem.length_getD_read_le mem _ _) (BitVec.isLt _)

theorem consumes_bytes (index : u8) {payload : List u8} (h : payload.length < 2 ^ 32) :
    Reader.Consumes readPayload (Saved.encode index (.bytes payload)) payload := by
  refine consumes_readPayload index ?_
  rw [BitVec.toNat_ofNat, Nat.mod_eq_of_lt h]

/-- A fixed header of `5 + n` bytes over a record of `n` bytes. -/
theorem take_encode (index : u8) {payload : List u8} {n : Nat} (h : payload.length = n)
    (rest : List u8) :
    Reader.take (5 + n) (Saved.encode index (.bytes payload) ++ rest) =
      (some (Saved.encode index (.bytes payload)), rest) := by
  refine Reader.consumes_take_of_length ?_ rest
  simp only [Saved.encode, List.length_cons, List.length_append, LittleEndian.length_ofWord]
  omega

theorem drop_encode (index : u8) (payload : List u8) :
    (Saved.encode index (.bytes payload)).drop 5 = payload := by
  have hlen : (index :: LittleEndian.ofWord 4 (BitVec.ofNat 32 payload.length)).length = 5 := by
    simp
  show ((index :: LittleEndian.ofWord 4 (BitVec.ofNat 32 payload.length)) ++ payload).drop 5 = _
  rw [← hlen, List.drop_left]

/-- A struct that was read, with its buffer, is read back. -/
theorem readIovec_of_struct {r : List u8 × List u8} (hstruct : r.1.length = iovecSize)
    (hbuffer : r.2.length < 2 ^ 32) (index index' : u8) (rest : List u8) :
    readIovec (Saved.encode index (.bytes r.1) ++ (Saved.encode index' (.bytes r.2) ++ rest)) =
      (some [r.1, r.2], rest) := by
  have hfix := take_encode index hstruct (Saved.encode index' (.bytes r.2) ++ rest)
  have hpayload := (consumes_bytes index' hbuffer).bind_append
    (fun payload => pure [(Saved.encode index (.bytes r.1)).drop 5, payload]) rest
  show Reader.bind (Reader.take 21) _ _ = _
  unfold Reader.bind
  rw [show (21 : Nat) = 5 + iovecSize from rfl, hfix]
  refine hpayload.trans ?_
  rw [drop_encode]
  rfl

/-- Whatever is read, the struct that is shown has its full size. -/
theorem readIovec_eq_some {buf rest : List u8} {shown : List (List u8)}
    (h : readIovec buf = (some shown, rest)) :
    ∃ struct buffer, shown = [struct, buffer] ∧ struct.length = iovecSize := by
  obtain ⟨fix, mid, hfix, hrest⟩ := Reader.bind_eq_some h
  obtain ⟨payload, last, -, hshown⟩ := Reader.bind_eq_some hrest
  obtain rfl := Option.some.inj (Prod.mk.inj hshown).1
  refine ⟨fix.drop 5, payload, rfl, ?_⟩
  rw [List.length_drop, Reader.length_of_take hfix]
  rfl

section Each

variable {α : Type} {records : List (List u8 × List u8)} {bytes : List u8}

/-- Structs that were read are read back one after the other. -/
theorem each_readIovec {xs : List α} (hdata : IovecData records)
    (hlen : xs.length ≤ records.length)
    (hstructs : ∀ r ∈ records.take xs.length, r.1.length = iovecSize)
    (hbytes : Written (iovecLog records) bytes) :
    ∃ bytes', Written (iovecLog (records.drop xs.length)) bytes' ∧ ∀ rest,
      Reader.each (fun _ => readIovec) xs (bytes ++ rest) =
        (some ((records.take xs.length).map fun r => [r.1, r.2]), bytes' ++ rest) := by
  induction xs generalizing records bytes with
  | nil => exact ⟨bytes, hbytes, fun _ => rfl⟩
  | cons x xs ih =>
      cases records with
      | nil => exact absurd hlen (Nat.not_succ_le_zero _)
      | cons r records =>
          rw [List.length_cons, List.take_succ_cons] at hstructs
          obtain ⟨hr, hrest⟩ := List.forall_mem_cons.mp hstructs
          obtain ⟨-, hstruct'⟩ := List.forall_mem_cons.mp hdata.struct
          obtain ⟨hbuffer, hbuffer'⟩ := List.forall_mem_cons.mp hdata.buffer
          obtain ⟨index, tail, htail', rfl⟩ := written_cons hbytes
          obtain ⟨index', bytes, hwritten, rfl⟩ := written_cons htail'
          obtain ⟨bytes', hbytes', heach⟩ :=
            ih ⟨hstruct', hbuffer'⟩ (Nat.le_of_succ_le_succ hlen) hrest hwritten
          refine ⟨bytes', hbytes', fun rest => ?_⟩
          have hfirst := readIovec_of_struct hr hbuffer index index' (bytes ++ rest)
          rw [List.append_assoc, List.append_assoc]
          show Reader.bind readIovec (fun a => Reader.bind (Reader.each (fun _ => readIovec) xs)
            fun as => Reader.pure (a :: as)) _ = _
          unfold Reader.bind
          rw [hfirst]
          dsimp only
          rw [heach rest]
          rfl

/-- Where the parser shows what was saved, it has read structs that the probe could read. -/
theorem structs_of_each {xs : List α} {vals : List (List (List u8))} {rest rest' : List u8}
    (hdata : IovecData records) (hbytes : Written (iovecLog records) bytes)
    (h : Reader.each (fun _ => readIovec) xs (bytes ++ rest) = (some vals, rest'))
    (hshown : vals.flatten <+: iovecPayloads records) :
    xs.length ≤ records.length ∧ ∀ r ∈ records.take xs.length, r.1.length = iovecSize := by
  induction xs generalizing records bytes vals with
  | nil => exact ⟨Nat.zero_le _, List.forall_mem_nil _⟩
  | cons x xs ih =>
      obtain ⟨shown, mid, hfirst, htail⟩ := Reader.bind_eq_some h
      obtain ⟨vals', last, heach, hvals⟩ := Reader.bind_eq_some htail
      obtain ⟨hval, rfl⟩ := Prod.mk.inj hvals
      obtain rfl := Option.some.inj hval
      obtain ⟨struct, buffer, rfl, hstruct⟩ := readIovec_eq_some hfirst
      cases records with
      | nil =>
          rw [List.flatten_cons] at hshown
          have hle := hshown.length_le
          simp [iovecPayloads] at hle
      | cons r records =>
          obtain ⟨-, hstruct'⟩ := List.forall_mem_cons.mp hdata.struct
          obtain ⟨hbuffer, hbuffer'⟩ := List.forall_mem_cons.mp hdata.buffer
          -- the struct that is shown first is the one that was saved first
          have hpayloads : iovecPayloads (r :: records) = r.1 :: r.2 :: iovecPayloads records := rfl
          rw [hpayloads, List.flatten_cons, List.cons_append, List.cons_append, List.nil_append,
            List.cons_prefix_cons, List.cons_prefix_cons] at hshown
          obtain ⟨rfl, rfl, hrest⟩ := hshown
          obtain ⟨index, tail, htail', rfl⟩ := written_cons hbytes
          obtain ⟨index', bytes, hwritten, rfl⟩ := written_cons htail'
          rw [List.append_assoc, List.append_assoc] at hfirst
          obtain ⟨-, rfl⟩ := Prod.mk.inj
            ((readIovec_of_struct hstruct hbuffer index index' (bytes ++ rest)).symm.trans hfirst)
          obtain ⟨hlen, hstructs⟩ := ih ⟨hstruct', hbuffer'⟩ hwritten heach hrest
          refine ⟨Nat.succ_le_succ hlen, ?_⟩
          rw [List.length_cons, List.take_succ_cons]
          exact List.forall_mem_cons.mpr ⟨hstruct, hstructs⟩

end Each

/-! ## The number of records -/

/-- The rounds that the loop makes for a count. -/
def iovRounds (count : u64) : Nat := max 1 (min count.toNat 32)

/-- The parser reads as many records as there are exactly for counts from 1 to 6. -/
theorem iovReadCount_eq_iff (count : u64) :
    iovReadCount count = iovRounds count ↔ 1 ≤ count.toNat ∧ count.toNat ≤ 6 := by
  unfold iovReadCount iovRounds
  have hint : count.toInt = if 2 * count.toNat < 2 ^ 64 then (count.toNat : Int)
      else (count.toNat : Int) - 2 ^ 64 := BitVec.toInt_eq_toNat_cond count
  have hlt : count.toNat < 2 ^ 64 := count.isLt
  have hsix : (maxIovCount : Int) = 6 := rfl
  have hmax : maxIovCount = 6 := rfl
  rw [hint, hsix, hmax]
  split <;> split <;> omega

section Records

variable {count : u64} {records : List (List u8 × List u8)} {bytes : List u8}

/-- When the records are read back exactly. -/
theorem each_of_le (hdata : IovecData records) (hlen : records.length = iovRounds count)
    (hbytes : Written (iovecLog records) bytes) (hcount : iovReadCount count = iovRounds count)
    (hstructs : ∀ r ∈ records, r.1.length = iovecSize) (rest : List u8) :
    Reader.each (fun _ => readIovec) (List.range (iovReadCount count)) (bytes ++ rest) =
      (some (records.map fun r => [r.1, r.2]), rest) := by
  have hall : (List.range (iovReadCount count)).length = records.length := by
    rw [List.length_range, hcount, hlen]
  obtain ⟨bytes', hbytes', heach⟩ := each_readIovec hdata (Nat.le_of_eq hall)
    (fun r hr => hstructs r (List.mem_of_mem_take hr)) hbytes
  rw [hall, List.drop_length] at hbytes'
  obtain rfl : bytes' = [] := hbytes'.nil_iff.mp rfl
  rw [heach rest, hall, List.take_length]
  rfl

/-- If all bytes are taken and what is shown was saved, then the count and the structs are
good. -/
theorem le_of_each (hdata : IovecData records) (hlen : records.length = iovRounds count)
    (hbytes : Written (iovecLog records) bytes) {vals : List (List (List u8))}
    (h : Reader.each (fun _ => readIovec) (List.range (iovReadCount count)) bytes =
      (some vals, []))
    (hshown : vals.flatten <+: iovecPayloads records) :
    iovReadCount count = iovRounds count ∧ ∀ r ∈ records, r.1.length = iovecSize := by
  rw [← List.append_nil bytes] at h
  obtain ⟨hle, hstructs⟩ := structs_of_each hdata hbytes h hshown
  obtain ⟨bytes', hbytes', heach⟩ := each_readIovec hdata hle hstructs hbytes
  have hrest : bytes' ++ [] = [] := (Prod.mk.inj ((heach []).symm.trans h)).2
  rw [List.append_nil] at hrest
  have hdrop : iovecLog (records.drop (List.range (iovReadCount count)).length) = [] :=
    hbytes'.nil_iff.mpr hrest
  rw [List.length_range] at hle hstructs hdrop
  have hnone : records.drop (iovReadCount count) = [] := by
    cases hrecords : records.drop (iovReadCount count) with
    | nil => rfl
    | cons r rs =>
        rw [hrecords] at hdrop
        cases hdrop
  have hge : records.length ≤ iovReadCount count := List.drop_eq_nil_iff.mp hnone
  have hall : iovReadCount count = records.length := Nat.le_antisymm hle hge
  refine ⟨hall.trans hlen, fun r hr => hstructs r ?_⟩
  rwa [hall, List.take_length]

end Records

/-! ## The two parsers -/

/-- The parser takes exactly these bytes, and what it shows was saved, item by item. -/
def ShowsSaved (r : Reader (List (List u8))) (bytes : List u8) (saved : List (List u8)) : Prop :=
  ∃ shown, r.Consumes bytes shown ∧ shown <+: saved

section Parsers

variable {count : u64} {records : List (List u8 × List u8)} {bytes : List u8}

theorem readIovecs_showsSaved_iff (hdata : IovecData records)
    (hlen : records.length = iovRounds count) (hbytes : Written (iovecLog records) bytes)
    (index : u8) :
    ShowsSaved readIovecs (Saved.encode index (.word count) ++ bytes) (iovecPayloads records) ↔
      iovReadCount count = iovRounds count ∧ ∀ r ∈ records, r.1.length = iovecSize := by
  have hcount (rest : List u8) := (consumes_readReg index count).bind_append (fun count => do
    let iovecs ← Reader.each (fun _ => readIovec) (List.range (iovReadCount count))
    return iovecs.flatten) rest
  constructor
  · rintro ⟨shown, hconsumes, hshown⟩
    have hread := hconsumes []
    rw [List.append_assoc] at hread
    obtain ⟨vals, last, heach, hvals⟩ := Reader.bind_eq_some ((hcount _).symm.trans hread)
    obtain ⟨hval, rfl⟩ := Prod.mk.inj hvals
    obtain rfl := Option.some.inj hval
    rw [List.append_nil] at heach
    exact le_of_each hdata hlen hbytes heach hshown
  · rintro ⟨hrounds, hstructs⟩
    refine ⟨iovecPayloads records, fun rest => ?_, List.prefix_refl _⟩
    rw [List.append_assoc]
    refine (hcount _).trans ?_
    show Reader.bind (Reader.each (fun _ => readIovec) _) _ _ = _
    unfold Reader.bind
    rw [each_of_le hdata hlen hbytes hrounds hstructs rest]
    rfl

theorem readMsghdr_showsSaved_iff {msghdr control : List u8}
    (hcount : msghdr.length = msghdrSize →
      LittleEndian.toWord 8 ((msghdr.drop 24).take 8) = count)
    (hcontrol : control.length < 2 ^ 32) (hdata : IovecData records)
    (hlen : records.length = iovRounds count) (hbytes : Written (iovecLog records) bytes)
    (index index' : u8) :
    ShowsSaved readMsghdr (Saved.encode index (.bytes msghdr) ++
        (Saved.encode index' (.bytes control) ++ bytes))
        (msghdr :: control :: iovecPayloads records) ↔
      msghdr.length = msghdrSize ∧ iovReadCount count = iovRounds count ∧
        ∀ r ∈ records, r.1.length = iovecSize := by
  -- what follows a header that was read in step
  have hstep (hfull : msghdr.length = msghdrSize) (rest : List u8) :
      readMsghdr (Saved.encode index (.bytes msghdr) ++
        (Saved.encode index' (.bytes control) ++ (bytes ++ rest))) =
      Reader.bind (Reader.each (fun _ => readIovec) (List.range (iovReadCount count)))
        (fun iovecs => Reader.pure (msghdr :: control :: iovecs.flatten)) (bytes ++ rest) := by
    have hheader := take_encode index hfull
      (Saved.encode index' (.bytes control) ++ (bytes ++ rest))
    have hpayload := (consumes_bytes index' hcontrol).bind_append (fun control =>
      Reader.bind (Reader.each (fun _ => readIovec) (List.range (iovReadCount
        (LittleEndian.toWord 8 ((((Saved.encode index (.bytes msghdr)).drop 5).drop 24).take 8)))))
        (fun iovecs => Reader.pure ((Saved.encode index (.bytes msghdr)).drop 5 :: control ::
          iovecs.flatten))) (bytes ++ rest)
    show Reader.bind (Reader.take (5 + msghdrSize)) _ _ = _
    unfold Reader.bind at hpayload ⊢
    rw [hheader]
    refine hpayload.trans ?_
    rw [drop_encode, hcount hfull]
  constructor
  · rintro ⟨shown, hconsumes, hshown⟩
    have hread := hconsumes []
    rw [List.append_assoc, List.append_assoc] at hread
    have hfull : msghdr.length = msghdrSize := by
      obtain ⟨header, mid, hheader, hrest⟩ := Reader.bind_eq_some hread
      obtain ⟨payload, last, -, hrest'⟩ := Reader.bind_eq_some hrest
      obtain ⟨vals, end', -, hvals⟩ := Reader.bind_eq_some hrest'
      obtain rfl := Option.some.inj (Prod.mk.inj hvals).1
      rw [List.cons_prefix_cons] at hshown
      rw [← hshown.1, List.length_drop, Reader.length_of_take hheader]
      rfl
    obtain ⟨vals, last, heach, hvals⟩ := Reader.bind_eq_some ((hstep hfull []).symm.trans hread)
    obtain ⟨hval, rfl⟩ := Prod.mk.inj hvals
    obtain rfl := Option.some.inj hval
    rw [List.append_nil] at heach
    rw [List.cons_prefix_cons, List.cons_prefix_cons] at hshown
    exact ⟨hfull, le_of_each hdata hlen hbytes heach hshown.2.2⟩
  · rintro ⟨hfull, hrounds, hstructs⟩
    refine ⟨msghdr :: control :: iovecPayloads records, fun rest => ?_, List.prefix_refl _⟩
    rw [List.append_assoc, List.append_assoc, hstep hfull rest]
    unfold Reader.bind
    rw [each_of_le hdata hlen hbytes hrounds hstructs rest]
    rfl

end Parsers

/-! ## Both sides -/

/-- The types whose data is a vector. -/
def ArgType.isVector : ArgType → Bool
  | .iovecReg _ | .msghdr => true
  | _ => false

/-- The control buffer of a `msghdr`. -/
def controlBuffer (mem : UserMem) (addr : u64) : List u8 :=
  (mem.read (untag (mem.readWord (untag addr + 32)))
    (bufferLen mem (untag addr + 40)).toNat).getD []

/-- The number of elements that the program asks for. -/
def ArgType.vectorCount (env : ProbeEnv) (addr : u64) : ArgType → u64
  | .iovecReg regIndex => env.regs.get (regIndex.toNat % 256)
  | .msghdr => env.mem.readWord (untag addr + 24)
  | _ => 0

/-- The address of the first element. -/
def ArgType.vectorBase (env : ProbeEnv) (addr : u64) : ArgType → u64
  | .msghdr => env.mem.readWord (untag addr + 16)
  | _ => addr

/-- What is saved before the elements, other than words. -/
def ArgType.vectorHeader (env : ProbeEnv) (addr : u64) : ArgType → List (List u8)
  | .msghdr => [(env.mem.read (untag addr) msghdrSize).getD [], controlBuffer env.mem addr]
  | _ => []

/-- The header of the vector can be read. -/
def ArgType.HeaderReadable (env : ProbeEnv) (addr : u64) : ArgType → Prop
  | .msghdr => (env.mem.read (untag addr) msghdrSize).isSome = true
  | _ => True

/-- All that is saved for a vector, in the order in which it is shown. -/
def ArgType.vectorSaved (env : ProbeEnv) (addr : u64) (ty : ArgType) : List (List u8) :=
  ty.vectorHeader env addr ++ iovecPayloads
    (iovecs env.mem (iovRounds (ty.vectorCount env addr)) (ty.vectorBase env addr))

theorem length_iovecs (mem : UserMem) (n : Nat) :
    ∀ addr : u64, (iovecs mem n addr).length = n := by
  induction n with
  | zero => exact fun _ => rfl
  | succ n ih => exact fun addr => congrArg (· + 1) (ih _)

/-- The structs of a vector are whole when each can be read. -/
theorem iovecs_struct_iff (mem : UserMem) (n : Nat) :
    ∀ addr : u64, (∀ r ∈ iovecs mem n addr, r.1.length = iovecSize) ↔
      ∀ i < n, (mem.read (untag (addr + BitVec.ofNat 64 (iovecSize * i))) iovecSize).isSome =
        true := by
  induction n with
  | zero =>
      exact fun _ => ⟨fun _ i hi => absurd hi (Nat.not_lt_zero i), fun _ => List.forall_mem_nil _⟩
  | succ n ih =>
      intro addr
      have hfirst : (iovecStruct mem addr).length = iovecSize ↔
          (mem.read (untag addr) iovecSize).isSome = true :=
        UserMem.length_getD_read_eq_iff mem (untag addr) (by decide)
      have hplace (i : Nat) : addr + BitVec.ofNat 64 iovecSize + BitVec.ofNat 64 (iovecSize * i) =
          addr + BitVec.ofNat 64 (iovecSize * (i + 1)) := by
        rw [BitVec.add_assoc, ← BitVec.ofNat_add, Nat.mul_succ, Nat.add_comm]
      show (∀ r ∈ (iovecStruct mem addr, iovecBuffer mem addr) ::
        iovecs mem n (addr + BitVec.ofNat 64 iovecSize), r.1.length = iovecSize) ↔ _
      rw [List.forall_mem_cons, ih, hfirst]
      simp only [hplace]
      constructor
      · rintro ⟨hzero, hsucc⟩ i hi
        cases i with
        | zero =>
            rw [Nat.mul_zero, show addr + BitVec.ofNat 64 0 = addr from BitVec.add_zero addr]
            exact hzero
        | succ i => exact hsucc i (Nat.lt_of_succ_lt_succ hi)
      · intro h
        refine ⟨?_, fun i hi => h (i + 1) (Nat.succ_lt_succ hi)⟩
        have hzero := h 0 (Nat.succ_pos n)
        rwa [Nat.mul_zero, show addr + BitVec.ofNat 64 0 = addr from BitVec.add_zero addr] at hzero

/-- The setup of a `msghdr` loop saves the header and finds the vector. -/
theorem execSteps_msghdrSetup (env : ProbeEnv) (st : OpState) :
    (execSteps env (msghdrLoop.setup.flatMap OpConfig.steps) st).1 =
        (ArgType.msghdr.vectorHeader env st.data.readAddr).map Saved.bytes ∧
      (execSteps env (msghdrLoop.setup.flatMap OpConfig.steps) st).2.data.readAddr =
        ArgType.msghdr.vectorBase env st.data.readAddr := by
  have hlen : ¬ bufferLen env.mem (untag st.data.readAddr + 40) >
      BitVec.ofNat 32 maxBytesArrSize := Nat.not_lt.mpr (bufferLen_le _ _)
  refine ⟨?_, rfl⟩
  have hlog : (execSteps env (msghdrLoop.setup.flatMap OpConfig.steps) st).1 =
      [.bytes ((env.mem.read (untag st.data.readAddr) msghdrSize).getD []),
        .bytes ((env.mem.read (untag (env.mem.readWord (untag st.data.readAddr + 32)))
          (if bufferLen env.mem (untag st.data.readAddr + 40) > BitVec.ofNat 32 maxBytesArrSize
            then BitVec.ofNat 32 maxBytesArrSize
            else bufferLen env.mem (untag st.data.readAddr + 40)).toNat).getD [])] := rfl
  rw [hlog, if_neg hlen]
  rfl

/-- The count of a `msghdr` loop is the `Iovlen` of the struct. -/
theorem execSteps_msghdrFirst (env : ProbeEnv) (st : OpState) :
    (execSteps env msghdrLoop.first st).2.countValue msghdrLoop.setter.1 msghdrLoop.setter.2 =
      ArgType.msghdr.vectorCount env st.data.readAddr := rfl

section Vectors

variable {maxOp : Nat} {env : ProbeEnv} {keys : Vector u32 maxOp}

/-- The register index that an op carries is a byte. -/
theorem toNat_regIndex (regIndex : u32) :
    ((regIndex.setWidth 64).setWidth 8).toNat = regIndex.toNat % 256 := by
  rw [BitVec.toNat_setWidth, BitVec.toNat_setWidth]
  have hlt := regIndex.isLt
  omega

/-- A register that could be read exists. -/
theorem readReg_of_run {op : OpConfig} {st next : LoopState} {xs : List (OpConfig × OpCode)}
    (h : (interpreter env keys).run st ((op, .readReg) :: xs) = some next) :
    (op.readIndex st.ctx.regIndex).toNat < 33 := by
  obtain ⟨mid, hstep, -⟩ := Machine.run_cons_eq_some.mp h
  have hfor : OpCode.readReg ≠ .forBreak := by decide
  obtain ⟨log, hread⟩ := advance_step hfor (interpreter_step.mp hstep)
  obtain ⟨hexec, -, -⟩ := step_eq_some.mp hread
  by_contra hge
  have hend : execOp env op .readReg st.opState = (false, _) := if_pos (Nat.le_of_not_lt hge)
  cases (Prod.mk.inj (hexec.symm.trans hend)).1

/-- The list of a vector type runs to its end and saves what its setup saves and the vector. -/
theorem vector_exits (hmax : maxOp < 2 ^ 32) {L : OpLoop} (hbody : L.bodyCodes = iovecCodes)
    (hstraight : ∀ x ∈ L.setup.flatMap OpConfig.steps, x.2.isStraight = true)
    {k : Nat} {st : LoopState} {count : u64} (hkeys : KeysAt env keys k L.ops)
    (hat : st.AtOp k) (hzero : st.ctx.loopCount = 0)
    (hcount : ∀ s, (interpreter env keys).run st L.first = some s →
      s.opState.countValue L.setter.1 L.setter.2 = count)
    (hexit : NoExit env keys (k + L.ops.length) st)
    (hquiet : NoTerminator env keys (k + L.ops.length) st) :
    ∃ next, (interpreter env keys).run st (L.trace (iovRounds count)) = some next ∧
      next.LeftLoop (k + L.ops.length) ∧
      (next.event.refused = false → st.event.refused = false ∧ ∃ bytes bytes',
        next.event.args = st.event.args ++ (bytes ++ bytes') ∧
        Written (execSteps env (L.setup.flatMap OpConfig.steps) st.opState).1 bytes ∧
        Written (iovecLog (iovecs env.mem (iovRounds count)
          (execSteps env (L.setup.flatMap OpConfig.steps) st.opState).2.data.readAddr))
          bytes') := by
  obtain ⟨next, hexits, hleft⟩ := OpLoop.exits hmax hkeys hat hzero hcount hexit hquiet
  exact ⟨next, hexits.run, hleft, fun hroom => run_vector hbody hstraight hexits.run hroom⟩

/-- The count of an `iovec` loop is the register's. -/
theorem iovecReg_count {st s : LoopState} {regIndex : u32}
    (hs : (interpreter env keys).run st (iovecRegLoop (regIndex.setWidth 64)).first = some s) :
    s.opState.countValue (iovecRegLoop (regIndex.setWidth 64)).setter.1
      (iovecRegLoop (regIndex.setWidth 64)).setter.2 =
        (ArgType.iovecReg regIndex).vectorCount env st.ctx.readAddr := by
  have hreg := readReg_of_run hs
  obtain ⟨mid, hstep, hnil⟩ := Machine.run_cons_eq_some.mp hs
  obtain rfl := Option.some.inj hnil
  have hfor : OpCode.readReg ≠ .forBreak := by decide
  have hread : execOp env (buildReadRegBreakCount (regIndex.setWidth 64)).toOpConfig .readReg
      st.opState = (true, _) := if_neg (Nat.not_le_of_lt hreg)
  rw [advance_opState hfor (interpreter_step.mp hstep), hread]
  exact congrArg env.regs.get (toNat_regIndex regIndex)

/-- The count of a `msghdr` loop is the struct's. -/
theorem msghdr_count {st s : LoopState}
    (hs : (interpreter env keys).run st msghdrLoop.first = some s) :
    s.opState.countValue msghdrLoop.setter.1 msghdrLoop.setter.2 =
      ArgType.msghdr.vectorCount env st.ctx.readAddr := by
  obtain ⟨log, hsteps⟩ := run_runSteps (by decide) hs
  have hstate : s.opState = (execSteps env msghdrLoop.first st.opState).2 :=
    congrArg Prod.snd (runSteps_eq_execSteps hsteps)
  rw [hstate]
  exact execSteps_msghdrFirst env st.opState

theorem iovecRegLoop_straight (regIndex : u64) :
    ∀ x ∈ (iovecRegLoop regIndex).setup.flatMap OpConfig.steps, x.2.isStraight = true := by
  simp [iovecRegLoop, OpConfig.steps, buildReadRegBreakCount, combinedOp, opcSaveReg, rop,
    OpCode.isStraight]

theorem msghdrLoop_codes : ∀ op ∈ msghdrLoop.ops,
    op.code ≠ .skip ∧ op.code ≠ .savePtrString ∧ op.postCode ≠ .savePtrString := by decide

/-- Both sides count alike, and all structs are whole. -/
theorem rounds_and_structs_iff (mem : UserMem) (count addr : u64) :
    (iovReadCount count = iovRounds count ∧
        ∀ r ∈ iovecs mem (iovRounds count) addr, r.1.length = iovecSize) ↔
      1 ≤ count.toNat ∧ count.toNat ≤ 6 ∧
        ∀ i < count.toNat,
          (mem.read (untag (addr + BitVec.ofNat 64 (iovecSize * i))) iovecSize).isSome = true := by
  rw [iovReadCount_eq_iff, and_assoc]
  refine and_congr_right fun hpos => and_congr_right fun hle => ?_
  have hrounds : iovRounds count = count.toNat := by
    unfold iovRounds
    omega
  rw [hrounds]
  exact iovecs_struct_iff mem count.toNat addr

/-- The setup of an `iovec` loop saves the register with the count. -/
theorem execSteps_iovecRegSetup (env : ProbeEnv) (regIndex : u32) (st : OpState)
    (hreg : regIndex.toNat % 256 < 33) :
    (execSteps env ((iovecRegLoop (regIndex.setWidth 64)).setup.flatMap OpConfig.steps) st).1 =
        [.word (env.regs.get (regIndex.toNat % 256))] ∧
      (execSteps env ((iovecRegLoop (regIndex.setWidth 64)).setup.flatMap OpConfig.steps)
        st).2.data.readAddr = st.data.readAddr := by
  let op := (buildReadRegBreakCount (regIndex.setWidth 64)).toOpConfig
  have hindex : (op.readIndex st.data.regIndex).toNat = regIndex.toNat % 256 :=
    toNat_regIndex regIndex
  have hread : execOp env op .readReg st = (true, st.setData fun d => { d with
      regIndex := op.readIndex st.data.regIndex
      regValue := env.regs.get (op.readIndex st.data.regIndex).toNat }) :=
    if_neg (by rw [hindex]; exact Nat.not_le_of_lt hreg)
  have hsetup : execSteps env ((iovecRegLoop (regIndex.setWidth 64)).setup.flatMap
      OpConfig.steps) st = execSteps env
        [(op, .setBreakCountRegValue), (opcSaveReg.toOpConfig, .saveReg)]
        (execOp env op .readReg st).2 := rfl
  rw [hsetup, hread]
  refine ⟨?_, rfl⟩
  rw [← hindex]
  rfl

/-- **When a vector is shown as it was saved.** For a type whose list runs to its end without
a refused save, the parser takes the bytes of the list and shows what was saved, exactly when
the program asks for one to six elements and every struct of the vector can be read. -/
theorem vector_showsSaved_iff (hmax : maxOp < 2 ^ 32) {ty : ArgType} (hty : ty.isVector = true)
    {n k : Nat} {st st' : LoopState}
    (hkeys : KeysAt env keys k (ty.opList.map NamedOp.toOpConfig)) (hat : st.AtOp k)
    (hzero : st.ctx.loopCount = 0) (hdone : readArgsLoop env keys n st = (.done, st')) :
    ∃ xs next, (interpreter env keys).run st xs = some next ∧
      next.LeftLoop (k + ty.opList.length) ∧
      (next.event.refused = false → ∃ bytes, next.event.args = st.event.args ++ bytes ∧
        (ShowsSaved (ty.parse true) bytes (ty.vectorSaved env st.ctx.readAddr) ↔
          ty.HeaderReadable env st.ctx.readAddr ∧
            1 ≤ (ty.vectorCount env st.ctx.readAddr).toNat ∧
            (ty.vectorCount env st.ctx.readAddr).toNat ≤ 6 ∧
            ∀ i < (ty.vectorCount env st.ctx.readAddr).toNat,
              (env.mem.read (untag (ty.vectorBase env st.ctx.readAddr +
                BitVec.ofNat 64 (iovecSize * i))) iovecSize).isSome = true)) := by
  cases ty
  case iovecReg regIndex =>
    rw [← ops_iovecRegLoop] at hkeys
    have hcodes := iovecRegLoop_codes (regIndex.setWidth 64)
    have hquiet := noTerminator_of_list hmax hkeys (fun op hop => (hcodes op hop).2) hat hzero
    have hexit :=
      noExit_of_done hmax hkeys (fun op hop => (hcodes op hop).1) hat hzero hquiet hdone
    obtain ⟨next, hrun, hleft, hevent⟩ := vector_exits hmax rfl
      (iovecRegLoop_straight (regIndex.setWidth 64)) hkeys hat hzero (fun _ => iovecReg_count)
      hexit hquiet
    refine ⟨_, next, hrun, hleft, fun hroom => ?_⟩
    obtain ⟨-, bytes, bytes', hargs, hsetup, hvector⟩ := hevent hroom
    have hreg : regIndex.toNat % 256 < 33 := toNat_regIndex regIndex ▸ readReg_of_run hrun
    obtain ⟨hlog, hbase⟩ := execSteps_iovecRegSetup env regIndex st.opState hreg
    rw [hlog] at hsetup
    rw [hbase] at hvector
    obtain ⟨index, rest, hrest, rfl⟩ := written_cons hsetup
    obtain rfl := hrest.nil_iff.mp rfl
    rw [List.append_nil] at hargs
    refine ⟨_, hargs, ?_⟩
    rw [← rounds_and_structs_iff]
    exact (readIovecs_showsSaved_iff (iovecData_iovecs env.mem _ _) (length_iovecs env.mem _ _)
      hvector index).trans (iff_of_eq (true_and _).symm)
  case msghdr =>
    rw [← ops_msghdrLoop] at hkeys
    have hquiet := noTerminator_of_list hmax hkeys (fun op hop => (msghdrLoop_codes op hop).2)
      hat hzero
    have hexit :=
      noExit_of_done hmax hkeys (fun op hop => (msghdrLoop_codes op hop).1) hat hzero hquiet hdone
    obtain ⟨next, hrun, hleft, hevent⟩ :=
      vector_exits hmax rfl (by decide) hkeys hat hzero (fun _ => msghdr_count) hexit hquiet
    refine ⟨_, next, hrun, hleft, fun hroom => ?_⟩
    obtain ⟨-, bytes, bytes', hargs, hsetup, hvector⟩ := hevent hroom
    obtain ⟨hlog, hbase⟩ := execSteps_msghdrSetup env st.opState
    rw [hlog] at hsetup
    rw [hbase] at hvector
    obtain ⟨index, rest, hrest, rfl⟩ := written_cons hsetup
    obtain ⟨index', rest', hrest', rfl⟩ := written_cons hrest
    obtain rfl := hrest'.nil_iff.mp rfl
    rw [List.append_nil, List.append_assoc] at hargs
    refine ⟨_, hargs, ?_⟩
    rw [← rounds_and_structs_iff]
    have hfull := UserMem.length_getD_read_eq_iff env.mem (untag st.ctx.readAddr)
      (show msghdrSize ≠ 0 by decide)
    have hIovlen : ((env.mem.read (untag st.ctx.readAddr) msghdrSize).getD []).length = msghdrSize →
        LittleEndian.toWord 8 ((((env.mem.read (untag st.ctx.readAddr) msghdrSize).getD []).drop
          24).take 8) = ArgType.msghdr.vectorCount env st.ctx.readAddr := by
      intro hlen
      obtain ⟨bytes, hread⟩ := Option.isSome_iff_exists.mp (hfull.mp hlen)
      have hword : env.mem.readWord (untag st.ctx.readAddr + 24) =
          LittleEndian.toWord 8 ((bytes.drop 24).take 8) :=
        UserMem.readWord_of_read (n := 24) (m := 24) hread
      rw [hread, Option.getD_some]
      exact hword.symm
    have hcontrol : (controlBuffer env.mem st.ctx.readAddr).length < 2 ^ 32 :=
      Nat.lt_of_le_of_lt (UserMem.length_getD_read_le env.mem _ _) (BitVec.isLt _)
    exact (readMsghdr_showsSaved_iff hIovlen hcontrol (iovecData_iovecs env.mem _ _)
      (length_iovecs env.mem _ _) hvector index index').trans (and_congr_left' hfull)
  all_goals cases hty

end Vectors

/-! ### A vector with its count in `x1` -/

/-- An argument `iovec` of a uprobe point, at `x0` and with the count in `x1`. -/
def iovecArg : PointArg :=
  { newUprobePointArg [] (.iovecReg 1) 0 with groupType := .uprobeEnter }

/-- The op table after the argument is parsed. -/
def iovecTable : OpManager := iovecArg.getOpList.foldl OpManager.addOp .init

def iovecPacked : PointArgs stackMaxOpCount :=
  (PointArgs.pack stackMaxOpCount iovecTable 0 [iovecArg]).get (by decide +kernel)

def iovecEnv (count : u64) : ProbeEnv := flatEnv iovecTable count

/-- The state after the word of the argument, when the ops of its type are next. -/
def iovecStart : LoopState :=
  ⟨none, { OpCtx.cleared with postCode := .skip, opKeyIndex := 2 }, .init, .empty⟩

/-- The loop on this state. -/
def iovecRun (count : u64) : LoopEnd × LoopState :=
  readArgsLoop (iovecEnv count) iovecPacked.opKeyList stackMaxOpCount iovecStart

theorem iovec_keysAt {env : ProbeEnv} (hloaded : iovecTable.LoadedIn env.opList) :
    KeysAt env iovecPacked.opKeyList 2 (iovecArg.ty.opList.map NamedOp.toOpConfig) := by
  have hkeys : KeysAt env iovecPacked.opKeyList 0 (packedOps [iovecArg]) :=
    packed_keysAt (by decide) (by decide) hloaded (by decide +kernel) (Option.some_get _).symm
  have hops : packedOps [iovecArg] =
      [readSaveReg 0, opcMoveRegValue].map NamedOp.toOpConfig ++
        iovecArg.ty.opList.map NamedOp.toOpConfig := rfl
  rw [hops] at hkeys
  exact (keysAt_append hkeys).2

theorem iovecEnv_keysAt (count : u64) : KeysAt (iovecEnv count) iovecPacked.opKeyList 2
    (iovecArg.ty.opList.map NamedOp.toOpConfig) :=
  iovec_keysAt (loadedIn_flatEnv (by decide +kernel) count)

/-- With a count of zero one element is saved, and the parser takes none of it. -/
theorem iovec_zero_not_shown :
    KeysAt (iovecEnv 0) iovecPacked.opKeyList 2 (iovecArg.ty.opList.map NamedOp.toOpConfig) ∧
      iovecStart.AtOp 2 ∧ iovecStart.ctx.loopCount = 0 ∧
      (iovecRun 0).1 = .done ∧ (iovecRun 0).2.event.refused = false ∧
      ¬ ShowsSaved (iovecArg.ty.parse true) (iovecRun 0).2.event.args
        (iovecArg.ty.vectorSaved (iovecEnv 0) iovecStart.ctx.readAddr) := by
  -- the record of the struct and the record of its buffer are left over
  have hrun : (iovecRun 0).1 = .done ∧ (iovecRun 0).2.event.refused = false ∧
      (readIovecs ((iovecRun 0).2.event.args ++ [])).2 ≠ [] := by decide +kernel
  obtain ⟨hdone, hroom, hrest⟩ := hrun
  refine ⟨iovecEnv_keysAt 0, ⟨rfl, rfl⟩, rfl, hdone, hroom, ?_⟩
  rintro ⟨shown, hconsumes, -⟩
  have hparse : iovecArg.ty.parse true = readIovecs := rfl
  have hempty := congrArg Prod.snd (hconsumes [])
  rw [hparse] at hempty
  exact hrest hempty

/-- The structs of two elements and their buffers. -/
def twoIovecs : List (List u8) :=
  [[0x1020, 2].flatMap (LittleEndian.ofWord 8), [104, 105],
    [0x1022, 3].flatMap (LittleEndian.ofWord 8), [98, 121, 101]]

/-- The array of the two structs is at 4096, and the buffers are behind it. -/
def iovecBytes : List u8 :=
  [0x1020, 2, 0x1022, 3].flatMap (LittleEndian.ofWord 8) ++ [104, 105, 98, 121, 101]

def twoIovecsEnvWith (m : OpManager) : ProbeEnv where
  mem := fun addr => if addr.toNat < 4096 then none else iovecBytes[addr.toNat - 4096]?
  regs := ⟨Vector.replicate 31 2, 0, 0, 0⟩
  opList := m.load
  argFilter := .empty

theorem loadedIn_twoIovecsEnvWith {m : OpManager} (h : m.opList.length ≤ 256) :
    m.LoadedIn (twoIovecsEnvWith m).opList := OpManager.loadedIn_load h

def twoIovecsEnv : ProbeEnv := twoIovecsEnvWith iovecTable

/-- The state after the word of the argument, which is the address of the array. -/
def twoIovecsStart : LoopState :=
  ⟨none, { iovecStart.ctx with readAddr := 4096 }, .init, .empty⟩

/-- Both elements are shown. -/
theorem twoIovecs_showsSaved :
    ∃ xs next, (interpreter twoIovecsEnv iovecPacked.opKeyList).run twoIovecsStart xs = some next ∧
      ∃ bytes, next.event.args = twoIovecsStart.event.args ++ bytes ∧
        ShowsSaved (iovecArg.ty.parse true) bytes twoIovecs := by
  have hdone : (readArgsLoop twoIovecsEnv iovecPacked.opKeyList 29 twoIovecsStart).1 = .done := by
    decide +kernel
  have hrooms : ∀ m < 29, (readArgsLoop twoIovecsEnv iovecPacked.opKeyList m
      twoIovecsStart).2.event.refused = false := by
    decide +kernel
  have hkeys := iovec_keysAt (loadedIn_twoIovecsEnvWith (m := iovecTable) (by decide +kernel))
  obtain ⟨xs, next, hrun, -, hevent⟩ :=
    vector_showsSaved_iff (by decide) rfl hkeys ⟨rfl, rfl⟩ rfl (readArgsLoop_eq_done hdone)
  -- no save is refused in any of the iterations, so none is on the way to `next`
  have hroom : next.event.refused = false :=
    run_of_iterations (fun st => st.event.refused = false) (ne_bound_of_done hdone) hrooms hrun
  obtain ⟨bytes, hargs, hshows⟩ := hevent hroom
  refine ⟨xs, next, hrun, bytes, hargs, ?_⟩
  have hsaved :
      iovecArg.ty.vectorSaved twoIovecsEnv twoIovecsStart.ctx.readAddr = twoIovecs := by
    decide +kernel
  rw [← hsaved]
  refine hshows.mpr ⟨trivial, ?_, ?_, ?_⟩ <;> decide +kernel

end Stackplz
