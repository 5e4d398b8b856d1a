import Stackplz.Probe.Progress
import Stackplz.User.Iovec
import Stackplz.User.StringArray

/-!
# What the op list of a type does

The op list of a type reads the data at `read_addr`. `ArgType.dataAt` says which records the data
at an address has, and `ArgType.stepsAt` how many codes it takes to save them. `opList_runs`
proves both of the interpreter, for every type, with its loops.
-/

set_option autoImplicit false

namespace Stackplz

/-! ## Records of data -/

/-- A record of a type's data. -/
inductive DataRecord where
  | word (value : u64)
  | bytes (payload : List u8)
  /-- the string of an array entry, with a mark in its place when there is none -/
  | entry (s : Option (List u8))
deriving DecidableEq

namespace DataRecord

/-- The record in the event buffer. -/
def encode (index : u8) : DataRecord → List u8
  | word value => Saved.encode index (.word value)
  | bytes payload => Saved.encode index (.bytes payload)
  | entry s => stringRecord index s

def ofSaved : Saved → DataRecord
  | .word value => .word value
  | .bytes payload => .bytes payload

/-- Two records are of the same form. -/
def Alike : DataRecord → DataRecord → Prop
  | word _, word _ | bytes _, bytes _ | entry _, entry _ => True
  | _, _ => False

/-- The length of the data fits in its header. -/
def Short : DataRecord → Prop
  | word _ => True
  | bytes payload => payload.length < 2 ^ 32
  | entry s => ∀ payload, s = some payload → payload.length ≤ maxStringSize

/-- A record can be told from its bytes and its form. -/
theorem encode_inj {r r' : DataRecord} (halike : r.Alike r') (hr : r.Short) (hr' : r'.Short)
    {index index' : u8} {rest rest' : List u8}
    (h : r.encode index ++ rest = r'.encode index' ++ rest') : r = r' ∧ rest = rest' := by
  cases r with
  | word value =>
      cases r' with
      | word value' =>
          have hread : (some value, rest) = (some value', rest') :=
            (consumes_readReg index value rest).symm.trans
              ((congrArg readReg h).trans (consumes_readReg index' value' rest'))
          obtain ⟨hvalue, hrest⟩ := Prod.mk.inj hread
          exact ⟨congrArg word (Option.some.inj hvalue), hrest⟩
      | _ => cases halike
  | bytes payload =>
      cases r' with
      | bytes payload' =>
          have hread : (some payload, rest) = (some payload', rest') :=
            (consumes_bytes index hr rest).symm.trans
              ((congrArg readPayload h).trans (consumes_bytes index' hr' rest'))
          obtain ⟨hpayload, hrest⟩ := Prod.mk.inj hread
          exact ⟨congrArg bytes (Option.some.inj hpayload), hrest⟩
      | _ => cases halike
  | entry s =>
      cases r' with
      | entry s' =>
          have hread : (some s, rest) = (some s', rest') :=
            (consumes_stringRecord index hr rest).symm.trans
              ((congrArg readString h).trans (consumes_stringRecord index' hr' rest'))
          obtain ⟨hs, hrest⟩ := Prod.mk.inj hread
          exact ⟨congrArg entry (Option.some.inj hs), hrest⟩
      | _ => cases halike

theorem encode_ne_nil (r : DataRecord) (index : u8) : r.encode index ≠ [] := by
  cases r with
  | entry s => cases s <;> simp [encode, stringRecord, Saved.encode]
  | _ => simp [encode, Saved.encode]

end DataRecord

/-- The bytes hold these records one after the other, under any indices. -/
inductive Encodes : List DataRecord → List u8 → Prop
  | nil : Encodes [] []
  | cons (r : DataRecord) (index : u8) {records : List DataRecord} {bytes : List u8}
      (h : Encodes records bytes) : Encodes (r :: records) (r.encode index ++ bytes)

namespace Encodes

theorem append {records records' : List DataRecord} {bytes bytes' : List u8}
    (h : Encodes records bytes) (h' : Encodes records' bytes') :
    Encodes (records ++ records') (bytes ++ bytes') := by
  induction h with
  | nil => exact h'
  | cons r index _ ih =>
      rw [List.cons_append, List.append_assoc]
      exact .cons r index ih

theorem of_written {log : List Saved} {bytes : List u8} (h : Written log bytes) :
    Encodes (log.map DataRecord.ofSaved) bytes := by
  induction h with
  | nil => exact .nil
  | cons s index _ ih =>
      cases s with
      | word value => exact .cons (.word value) index ih
      | bytes payload => exact .cons (.bytes payload) index ih


/-- As far as both lists go, their records are of the same form. -/
def Aligned : List DataRecord → List DataRecord → Prop
  | r :: rs, r' :: rs' => r.Alike r' ∧ Aligned rs rs'
  | _, _ => True

/-- Lists of records can be told from their bytes and their forms. -/
theorem inj {records records' : List DataRecord} {bytes : List u8} (h : Encodes records bytes)
    (h' : Encodes records' bytes) (haligned : Aligned records records')
    (hshort : ∀ r ∈ records, r.Short) (hshort' : ∀ r ∈ records', r.Short) :
    records = records' := by
  induction h generalizing records' with
  | nil =>
      generalize hnil : ([] : List u8) = bytes at h'
      cases h' with
      | nil => rfl
      | cons r index _ =>
          have hempty := List.append_eq_nil_iff.mp hnil.symm
          exact absurd hempty.1 (r.encode_ne_nil index)
  | @cons r index records bytes _ ih =>
      generalize hall : r.encode index ++ bytes = whole at h'
      cases h' with
      | nil => exact absurd (List.append_eq_nil_iff.mp hall).1 (r.encode_ne_nil index)
      | @cons r' index' records' bytes' h' =>
          obtain ⟨hr, hrs⟩ := List.forall_mem_cons.mp hshort
          obtain ⟨hr', hrs'⟩ := List.forall_mem_cons.mp hshort'
          obtain ⟨rfl, rfl⟩ := DataRecord.encode_inj haligned.1 hr hr' hall
          rw [ih h' haligned.2 hrs hrs']

theorem aligned_bytes (ps : List (List u8)) :
    ∀ ps' : List (List u8), Aligned (ps.map DataRecord.bytes) (ps'.map DataRecord.bytes) := by
  induction ps with
  | nil => exact fun _ => trivial
  | cons p ps ih =>
      intro ps'
      cases ps' with
      | nil => trivial
      | cons p' ps' => exact ⟨trivial, ih ps'⟩

/-- The records of array entries. -/
def ofEntries (es : List (u64 × Option (List u8))) : List DataRecord :=
  es.flatMap fun e => [.word e.1, .entry e.2]

theorem aligned_entries (es : List (u64 × Option (List u8))) :
    ∀ es' : List (u64 × Option (List u8)), Aligned (ofEntries es) (ofEntries es') := by
  induction es with
  | nil => exact fun _ => trivial
  | cons e es ih =>
      intro es'
      cases es' with
      | nil => trivial
      | cons e' es' => exact ⟨trivial, trivial, ih es'⟩

theorem of_entries (es : List (u64 × Option (List u8))) :
    ∀ index : u8, Encodes (ofEntries es) (entriesBytes index es) := by
  induction es with
  | nil => exact fun _ => .nil
  | cons e es ih =>
      intro index
      unfold entriesBytes
      rw [List.append_assoc]
      exact .cons (.word e.1) index (.cons (.entry e.2) (index + 1) (ih (index + 2)))

end Encodes

/-! ## The data of a type -/

/-- What `OP_SAVE_STRUCT` saves of `len` bytes at an address, empty when they cannot be read. -/
def structBytes (mem : UserMem) (addr : u64) (len : u32) : List u8 :=
  (mem.read (untag addr) (if len > BitVec.ofNat 32 maxBytesArrSize then
    BitVec.ofNat 32 maxBytesArrSize else len).toNat).getD []

/-- What `OP_SAVE_STRING` saves at an address, empty when no string can be read there. -/
def stringBytes (mem : UserMem) (addr : u64) : List u8 :=
  (mem.readStr (untag addr) maxStringSize).getD []

namespace ArgType

/-- The data of a type at an address. -/
def dataAt (env : ProbeEnv) : ArgType → u64 → List DataRecord
  | num _ _, _ | pointer _, _ | parent, _ => []
  | pointerTo target _, addr =>
      .bytes (structBytes env.mem addr 8) :: target.dataAt env (untag addr)
  | string, addr => [.bytes (stringBytes env.mem addr)]
  | stdString, addr => [.bytes (stringBytes env.mem (stdStringData env.mem addr))]
  | stringArray, addr => Encodes.ofEntries (arrayEntries env.mem maxLoopCount.toNat addr)
  | buffer, addr => [.bytes (structBytes env.mem addr (BitVec.ofNat 32 maxBytesArrSize))]
  | bufferLen length, addr => [.bytes (structBytes env.mem addr length)]
  | bufferReg regIndex, addr =>
      [.bytes (structBytes env.mem addr (minReadLen (BitVec.ofNat 32 maxBytesArrSize)
        (env.regs.get (regIndex.toNat % 256))))]
  | struct type, addr => [.bytes (structBytes env.mem addr type.size)]
  | array elem _ length, addr => [.bytes (structBytes env.mem addr (elem.size * length))]
  | iovec, addr => [.bytes (iovecStruct env.mem addr), .bytes (iovecBuffer env.mem addr)]
  | iovecReg regIndex, addr =>
      .word (env.regs.get (regIndex.toNat % 256)) ::
        ((iovecReg regIndex).vectorSaved env addr).map DataRecord.bytes
  | msghdr, addr => (msghdr.vectorSaved env addr).map DataRecord.bytes

/-- The number of codes that it takes to save the data, for an array of strings at most. -/
def stepsAt (env : ProbeEnv) : ArgType → u64 → Nat
  | pointerTo target _, addr => 2 + target.stepsAt env (untag addr)
  | stringArray, _ => (stringArrayLoop.trace maxLoopCount.toNat).length
  | iovecReg regIndex, addr => ((iovecRegLoop (regIndex.setWidth 64)).trace
      (iovRounds ((iovecReg regIndex).vectorCount env addr))).length
  | msghdr, addr => (msghdrLoop.trace (iovRounds (msghdr.vectorCount env addr))).length
  | ty, _ => (ty.opList.flatMap fun op => op.steps).length

/-- The type has an array of strings, whose number of rounds depends on its strings. -/
def hasArray : ArgType → Bool
  | pointerTo target _ => target.hasArray
  | stringArray => true
  | _ => false

/-- The registers that the op list reads exist. -/
def RegsExist : ArgType → Prop
  | pointerTo target _ => target.RegsExist
  | bufferReg regIndex | iovecReg regIndex => regIndex.toNat % 256 < 33
  | _ => True

theorem aligned_dataAt (env : ProbeEnv) (ty : ArgType) : ∀ addr addr' : u64,
    Encodes.Aligned (ty.dataAt env addr) (ty.dataAt env addr') := by
  induction ty with
  | pointerTo target style ih => exact fun addr addr' => ⟨trivial, ih _ _⟩
  | stringArray => exact fun addr addr' => Encodes.aligned_entries _ _
  | iovecReg regIndex => exact fun addr addr' => ⟨trivial, Encodes.aligned_bytes _ _⟩
  | msghdr => exact fun addr addr' => Encodes.aligned_bytes _ _
  | iovec => exact fun addr addr' => ⟨trivial, trivial, trivial⟩
  | num | pointer | parent => exact fun addr addr' => trivial
  | _ => exact fun addr addr' => ⟨trivial, trivial⟩

theorem short_struct (mem : UserMem) (addr : u64) (len : u32) :
    (DataRecord.bytes (structBytes mem addr len)).Short :=
  Nat.lt_of_le_of_lt (UserMem.length_getD_read_le mem _ _) (BitVec.isLt _)

theorem short_string (mem : UserMem) (addr : u64) :
    (DataRecord.bytes (stringBytes mem addr)).Short :=
  UserMem.length_getD_readStr_lt mem _

theorem short_iovecs (mem : UserMem) (n : Nat) (addr : u64) :
    ∀ payload ∈ iovecPayloads (iovecs mem n addr), payload.length < 2 ^ 32 := by
  obtain ⟨hstruct, hbuffer⟩ := iovecData_iovecs mem n addr
  have hsize : iovecSize < 2 ^ 32 := by decide
  intro payload hpayload
  obtain ⟨r, hr, hpayload⟩ := List.mem_flatMap.mp hpayload
  rcases List.mem_pair.mp hpayload with rfl | rfl
  · rcases hstruct r hr with hlen | hnil
    · omega
    · rw [hnil]
      decide
  · exact hbuffer r hr

theorem short_entries (mem : UserMem) (n : Nat) : ∀ addr : u64,
    ∀ r ∈ Encodes.ofEntries (arrayEntries mem n addr), r.Short := by
  induction n with
  | zero => exact fun addr => List.forall_mem_nil _
  | succ n ih =>
      intro addr
      have hfirst : (DataRecord.entry (arrayEntry mem addr).2).Short :=
        fun payload hpayload => UserMem.length_readStr_le hpayload
      refine List.forall_mem_cons.mpr ⟨trivial, List.forall_mem_cons.mpr ⟨hfirst, ?_⟩⟩
      show ∀ r ∈ Encodes.ofEntries (if (arrayEntry mem addr).2.isSome then
        arrayEntries mem n (addr + 8) else []), r.Short
      split
      · exact ih (addr + 8)
      · exact List.forall_mem_nil _

theorem short_payloads {ps : List (List u8)} (h : ∀ payload ∈ ps, payload.length < 2 ^ 32) :
    ∀ r ∈ ps.map DataRecord.bytes, r.Short := by
  intro r hr
  obtain ⟨payload, hpayload, rfl⟩ := List.mem_map.mp hr
  exact h payload hpayload

theorem short_vectorSaved (env : ProbeEnv) (addr : u64) (ty : ArgType) :
    ∀ payload ∈ ty.vectorSaved env addr, payload.length < 2 ^ 32 := by
  refine List.forall_mem_append.mpr ⟨?_, short_iovecs env.mem _ _⟩
  have hread (addr : u64) (n : Nat) (hn : n < 2 ^ 32) :
      ((env.mem.read addr n).getD []).length < 2 ^ 32 :=
    Nat.lt_of_le_of_lt (UserMem.length_getD_read_le env.mem addr n) hn
  cases ty with
  | msghdr =>
      exact List.forall_mem_cons.mpr ⟨hread _ _ (by decide),
        List.forall_mem_singleton.mpr (hread _ _ (BitVec.isLt _))⟩
  | _ => exact List.forall_mem_nil _

theorem short_dataAt (env : ProbeEnv) (ty : ArgType) :
    ∀ addr : u64, ∀ r ∈ ty.dataAt env addr, r.Short := by
  induction ty with
  | pointerTo target style ih =>
      exact fun addr => List.forall_mem_cons.mpr ⟨short_struct env.mem addr 8, ih _⟩
  | stringArray => exact fun addr => short_entries env.mem _ addr
  | iovecReg regIndex =>
      exact fun addr => List.forall_mem_cons.mpr
        ⟨trivial, short_payloads (short_vectorSaved env addr _)⟩
  | msghdr => exact fun addr => short_payloads (short_vectorSaved env addr _)
  | iovec => exact fun addr => short_payloads (short_iovecs env.mem 1 addr)
  | num | pointer | parent => exact fun addr => List.forall_mem_nil _
  | string => exact fun addr => List.forall_mem_singleton.mpr (short_string env.mem addr)
  | stdString => exact fun addr => List.forall_mem_singleton.mpr (short_string env.mem _)
  | _ => exact fun addr => List.forall_mem_singleton.mpr (short_struct env.mem addr _)

end ArgType

/-! ## The op list of a type in the interpreter -/

section Runs

variable {maxOp : Nat} {env : ProbeEnv} {keys : Vector u32 maxOp}

/-- The interpreter has got through the op list of a type and has appended its data. -/
structure SavesData (env : ProbeEnv) (keys : Vector u32 maxOp) (k : Nat) (ty : ArgType)
    (st : LoopState) (xs : List (OpConfig × OpCode)) (next : LoopState) : Prop where
  run : (interpreter env keys).run st xs = some next
  atOp : next.AtOp (k + ty.opList.length)
  loopCount : next.ctx.loopCount = 0
  steps_le : xs.length ≤ ty.stepsAt env st.ctx.readAddr
  steps_eq : ty.hasArray = false → xs.length = ty.stepsAt env st.ctx.readAddr
  event : next.event.refused = false → st.event.refused = false ∧
    ∃ bytes, next.event.args = st.event.args ++ bytes ∧
      Encodes (ty.dataAt env st.ctx.readAddr) bytes

/-- A type without a loop. -/
theorem straight_runs (hmax : maxOp < 2 ^ 32) {ty : ArgType} {k : Nat} {st : LoopState}
    (hkeys : KeysAt env keys k (ty.opList.map NamedOp.toOpConfig)) (hat : st.AtOp k)
    (hzero : st.ctx.loopCount = 0) (hblack : st.ctx.matchBlacklist = false)
    (hstraight : ∀ x ∈ (ty.opList.map NamedOp.toOpConfig).flatMap OpConfig.steps,
      x.2.isStraight = true)
    (hruns : ∀ x ∈ (ty.opList.map NamedOp.toOpConfig).flatMap OpConfig.steps, runsOn x = true)
    (hdata : (execSteps env ((ty.opList.map NamedOp.toOpConfig).flatMap OpConfig.steps)
      st.opState).1.map DataRecord.ofSaved = ty.dataAt env st.ctx.readAddr)
    (hsteps : ty.stepsAt env st.ctx.readAddr =
      (ty.opList.flatMap fun op => op.steps).length) :
    ∃ xs next, SavesData env keys k ty st xs next := by
  obtain ⟨next, hrun, hnext, -, hcount, hevent⟩ :=
    run_runsOn hmax hat hkeys hstraight hruns hblack
  have hlen : ((ty.opList.map NamedOp.toOpConfig).flatMap OpConfig.steps).length =
      ty.stepsAt env st.ctx.readAddr := by
    rw [hsteps, List.flatMap_map]
  rw [List.length_map] at hnext
  refine ⟨_, next, hrun, hnext, hcount.trans hzero, Nat.le_of_eq hlen, fun _ => hlen,
    fun hroom => ?_⟩
  obtain ⟨hstart, bytes, hargs, hbytes⟩ := hevent hroom
  exact ⟨hstart, bytes, hargs, hdata ▸ Encodes.of_written hbytes⟩

/-- The records of a vector. -/
theorem map_iovecLog (records : List (List u8 × List u8)) :
    (iovecLog records).map DataRecord.ofSaved = (iovecPayloads records).map DataRecord.bytes := by
  induction records with
  | nil => rfl
  | cons r records ih =>
      show DataRecord.bytes r.1 :: DataRecord.bytes r.2 ::
        (iovecLog records).map DataRecord.ofSaved = _
      rw [ih]
      rfl

/-- A vector, whose loop saves some header before it. -/
theorem vector_runs (hmax : maxOp < 2 ^ 32) {L : OpLoop} {ty : ArgType} {k : Nat}
    {st : LoopState} (hbody : L.bodyCodes = iovecCodes)
    (hstraight : ∀ x ∈ L.setup.flatMap OpConfig.steps, x.2.isStraight = true)
    (hops : L.ops = ty.opList.map NamedOp.toOpConfig)
    (hkeys : KeysAt env keys k (ty.opList.map NamedOp.toOpConfig)) (hat : st.AtOp k)
    (hzero : st.ctx.loopCount = 0) (hblack : st.ctx.matchBlacklist = false)
    (hcodes : ∀ op ∈ L.ops, op.code ≠ .skip ∧ op.code ≠ .savePtrString ∧
      op.postCode ≠ .savePtrString)
    (hruns : ∀ op ∈ L.ops, ∀ x ∈ op.steps, runsOn x = true)
    (hcount : ∀ s, (interpreter env keys).run st L.first = some s →
      s.opState.countValue L.setter.1 L.setter.2 = ty.vectorCount env st.ctx.readAddr)
    (hsteps : ty.stepsAt env st.ctx.readAddr =
      (L.trace (iovRounds (ty.vectorCount env st.ctx.readAddr))).length)
    (hdata : ty.dataAt env st.ctx.readAddr =
      (execSteps env (L.setup.flatMap OpConfig.steps) st.opState).1.map DataRecord.ofSaved ++
        (iovecLog (iovecs env.mem (iovRounds (ty.vectorCount env st.ctx.readAddr))
          (execSteps env (L.setup.flatMap OpConfig.steps)
            st.opState).2.data.readAddr)).map DataRecord.ofSaved) :
    ∃ xs next, SavesData env keys k ty st xs next := by
  rw [← hops] at hkeys
  have hquiet := noTerminator_of_list hmax hkeys (fun op hop => (hcodes op hop).2) hat hzero
  have hexit := noExit_of_runsOn hmax hkeys hruns hat hzero hblack hquiet
  obtain ⟨next, hrun, hleft, hevent⟩ :=
    vector_exits hmax hbody hstraight hkeys hat hzero hcount hexit hquiet
  rw [hops, List.length_map] at hleft
  refine ⟨_, next, hrun, hleft.atOp, hleft.loopCount, Nat.le_of_eq hsteps.symm,
    fun _ => hsteps.symm, fun hroom => ?_⟩
  obtain ⟨hstart, bytes, bytes', hargs, hsetup, hvector⟩ := hevent hroom
  refine ⟨hstart, _, hargs, ?_⟩
  rw [hdata]
  exact (Encodes.of_written hsetup).append (Encodes.of_written hvector)

/-- A register index of 32 bits that an op of 64 bits carries. -/
theorem setWidth_setWidth (length : u32) : (length.setWidth 64).setWidth 32 = length := by
  have hlt := length.isLt
  refine BitVec.eq_of_toNat_eq ?_
  rw [BitVec.toNat_setWidth, BitVec.toNat_setWidth]
  omega

/-- An op that reads a register which exists. -/
theorem runsOn_register {regIndex : u32} (h : regIndex.toNat % 256 < 33) (post : OpCode) :
    runsOn (⟨.readReg, .setRegIndex, post, regIndex.setWidth 64⟩, .readReg) = true := by
  refine Bool.and_eq_true_iff.mpr ⟨rfl, decide_eq_true ?_⟩
  show ((regIndex.setWidth 64).setWidth 8).toNat < 33
  rw [toNat_regIndex]
  exact h

theorem execOp_register {regIndex : u32} (h : regIndex.toNat % 256 < 33) (post : OpCode)
    (st : OpState) :
    execOp env ⟨.readReg, .setRegIndex, post, regIndex.setWidth 64⟩ .readReg st =
      (true, st.setData fun d => { d with
        regIndex := (regIndex.setWidth 64).setWidth 8
        regValue := env.regs.get (regIndex.toNat % 256) }) := by
  rw [← toNat_regIndex] at h ⊢
  exact if_neg (Nat.not_le_of_lt h)

/-- A buffer whose length is a register's. -/
theorem bufferReg_runs (hmax : maxOp < 2 ^ 32) {regIndex : u32} {k : Nat} {st : LoopState}
    (hreg : regIndex.toNat % 256 < 33)
    (hkeys : KeysAt env keys k ((ArgType.bufferReg regIndex).opList.map NamedOp.toOpConfig))
    (hat : st.AtOp k) (hzero : st.ctx.loopCount = 0) (hblack : st.ctx.matchBlacklist = false) :
    ∃ xs next, SavesData env keys k (.bufferReg regIndex) st xs next := by
  have hread := runsOn_register hreg .setReadLenRegValue
  refine straight_runs hmax hkeys hat hzero hblack ?_ ?_ ?_ rfl
  · exact List.forall_mem_cons.mpr ⟨rfl, List.forall_mem_cons.mpr ⟨rfl,
      List.forall_mem_cons.mpr ⟨rfl, List.forall_mem_singleton.mpr rfl⟩⟩⟩
  · exact List.forall_mem_cons.mpr ⟨rfl, List.forall_mem_cons.mpr ⟨hread,
      List.forall_mem_cons.mpr ⟨rfl, List.forall_mem_singleton.mpr rfl⟩⟩⟩
  · let op := (buildReadRegLen (regIndex.setWidth 64)).toOpConfig
    let st₁ := st.opState.setData fun d => { d with readLen := BitVec.ofNat 32 maxBytesArrSize }
    have hexec : execOp env op .readReg st₁ = _ := execOp_register hreg .setReadLenRegValue st₁
    have hlog : (execSteps env (((ArgType.bufferReg regIndex).opList.map
        NamedOp.toOpConfig).flatMap OpConfig.steps) st.opState).1 =
          (execSteps env [(op, .setReadLenRegValue), (opcSaveStruct.toOpConfig, .saveStruct)]
            (execOp env op .readReg st₁).2).1 := rfl
    rw [hlog, hexec]
    rfl

/-- The op list of a type is executed to its end, unless it reads a register that does not exist,
and appends the data at the read address. -/
theorem opList_runs (hmax : maxOp < 2 ^ 32) {ty : ArgType} : ∀ {k : Nat} {st : LoopState},
    ty.RegsExist → KeysAt env keys k (ty.opList.map NamedOp.toOpConfig) → st.AtOp k →
    st.ctx.loopCount = 0 → st.ctx.matchBlacklist = false →
    ∃ xs next, SavesData env keys k ty st xs next := by
  induction ty with
  | num | pointer | parent =>
      intro k st _ hkeys hat hzero hblack
      exact straight_runs hmax hkeys hat hzero hblack (List.forall_mem_nil _)
        (List.forall_mem_nil _) rfl rfl
  | string | stdString | buffer =>
      intro k st _ hkeys hat hzero hblack
      exact straight_runs hmax hkeys hat hzero hblack (by decide) (by decide) rfl rfl
  | bufferLen length =>
      intro k st _ hkeys hat hzero hblack
      refine straight_runs hmax hkeys hat hzero hblack
        (List.forall_mem_cons.mpr ⟨rfl, List.forall_mem_singleton.mpr rfl⟩)
        (List.forall_mem_cons.mpr ⟨rfl, List.forall_mem_singleton.mpr rfl⟩) ?_ rfl
      show [DataRecord.bytes (structBytes env.mem st.ctx.readAddr
        ((length.setWidth 64).setWidth 32))] = _
      rw [setWidth_setWidth]
      rfl
  | struct type =>
      intro k st _ hkeys hat hzero hblack
      refine straight_runs hmax hkeys hat hzero hblack
        (List.forall_mem_cons.mpr ⟨rfl, List.forall_mem_singleton.mpr rfl⟩)
        (List.forall_mem_cons.mpr ⟨rfl, List.forall_mem_singleton.mpr rfl⟩) ?_ rfl
      show [DataRecord.bytes (structBytes env.mem st.ctx.readAddr
        ((type.size.setWidth 64).setWidth 32))] = _
      rw [setWidth_setWidth]
      rfl
  | array elem style length =>
      intro k st _ hkeys hat hzero hblack
      refine straight_runs hmax hkeys hat hzero hblack
        (List.forall_mem_cons.mpr ⟨rfl, List.forall_mem_singleton.mpr rfl⟩)
        (List.forall_mem_cons.mpr ⟨rfl, List.forall_mem_singleton.mpr rfl⟩) ?_ rfl
      show [DataRecord.bytes (structBytes env.mem st.ctx.readAddr
        (((elem.size * length).setWidth 64).setWidth 32))] = _
      rw [setWidth_setWidth]
      rfl
  | iovec =>
      intro k st _ hkeys hat hzero hblack
      have hlen : ¬ bufferLen env.mem (untag st.ctx.readAddr + 8) >
          BitVec.ofNat 32 maxBytesArrSize := Nat.not_lt.mpr (bufferLen_le _ _)
      refine straight_runs hmax hkeys hat hzero hblack (by decide) (by decide) ?_ rfl
      show [DataRecord.bytes (iovecStruct env.mem st.ctx.readAddr),
        DataRecord.bytes ((env.mem.read (untag (env.mem.readWord (untag st.ctx.readAddr)))
          (if bufferLen env.mem (untag st.ctx.readAddr + 8) > BitVec.ofNat 32 maxBytesArrSize
            then BitVec.ofNat 32 maxBytesArrSize
            else bufferLen env.mem (untag st.ctx.readAddr + 8)).toNat).getD [])] = _
      rw [if_neg hlen]
      rfl
  | bufferReg regIndex =>
      intro k st hreg hkeys hat hzero hblack
      exact bufferReg_runs hmax hreg hkeys hat hzero hblack
  | pointerTo target style ih =>
      intro k st hreg hkeys hat hzero hblack
      obtain ⟨⟨hk, hkey⟩, hrest⟩ := keysAt_cons hkeys
      have hfirst : KeysAt env keys k [(saveStructOp 8).toOpConfig] := by
        intro i hi
        obtain rfl : i = 0 := Nat.lt_one_iff.mp hi
        exact ⟨hk, hkey⟩
      obtain ⟨mid, hrun, hatMid, hstate, hcount, hevent⟩ :=
        run_runsOn hmax hat hfirst (by decide) (by decide) hblack
      have haddr : mid.ctx.readAddr = untag st.ctx.readAddr :=
        congrArg (fun o => o.data.readAddr) hstate
      obtain ⟨xs, next, hnext⟩ := ih hreg hrest hatMid (hcount.trans hzero)
        (run_matchBlacklist hblack hrun)
      have hplace : k + (target.opList.length + 1) = k + 1 + target.opList.length := by omega
      refine ⟨_, next, Machine.run_append_eq_some.mpr ⟨mid, hrun, hnext.run⟩, ?_,
        hnext.loopCount, ?_, fun harray => ?_, fun hroom => ?_⟩
      · rw [ArgType.opList, List.length_cons, hplace]
        exact hnext.atOp
      · have hle := hnext.steps_le
        rw [haddr] at hle
        rw [List.length_append]
        exact Nat.add_le_add (Nat.le_refl 2) hle
      · have heq := hnext.steps_eq harray
        rw [haddr] at heq
        rw [List.length_append, heq]
        rfl
      · obtain ⟨hmid, bytes', hargs', hbytes'⟩ := hnext.event hroom
        obtain ⟨hstart, bytes, hargs, hbytes⟩ := hevent hmid
        rw [haddr] at hbytes'
        refine ⟨hstart, bytes ++ bytes', ?_, (Encodes.of_written hbytes).append hbytes'⟩
        rw [hargs', hargs, List.append_assoc]
  | stringArray =>
      intro k st _ hkeys hat hzero hblack
      obtain ⟨r, next, hrun, hle, hleft, hevent⟩ :=
        stringArray_exits hmax hkeys hat hzero hblack
      refine ⟨_, next, hrun, hleft.atOp, hleft.loopCount, ?_, (fun h => Bool.noConfusion h),
        fun hroom => ?_⟩
      · show (stringArrayLoop.trace r).length ≤ (stringArrayLoop.trace maxLoopCount.toNat).length
        rw [OpLoop.length_trace, OpLoop.length_trace]
        exact Nat.add_le_add_left (Nat.mul_le_mul_right _ hle) _
      · obtain ⟨hstart, hargs⟩ := hevent hroom
        exact ⟨hstart, _, hargs, Encodes.of_entries _ _⟩
  | iovecReg regIndex =>
      intro k st hreg hkeys hat hzero hblack
      have hread := runsOn_register hreg .setBreakCountRegValue
      obtain ⟨hlog, hbase⟩ := execSteps_iovecRegSetup env regIndex st.opState hreg
      refine vector_runs hmax rfl (iovecRegLoop_straight (regIndex.setWidth 64))
        (ops_iovecRegLoop regIndex) hkeys hat hzero hblack
        (iovecRegLoop_codes (regIndex.setWidth 64)) ?_ (fun _ => iovecReg_count) rfl ?_
      · have hrest : ∀ op ∈ opcSaveReg.toOpConfig :: opcForBreak.toOpConfig ::
            (iovecBody.map NamedOp.toOpConfig ++ [opcForBreak.toOpConfig]),
            ∀ x ∈ op.steps, runsOn x = true := by decide
        exact List.forall_mem_cons.mpr
          ⟨List.forall_mem_cons.mpr ⟨hread, List.forall_mem_singleton.mpr rfl⟩, hrest⟩
      · rw [hlog, hbase, map_iovecLog]
        rfl
  | msghdr =>
      intro k st hreg hkeys hat hzero hblack
      obtain ⟨hlog, hbase⟩ := execSteps_msghdrSetup env st.opState
      refine vector_runs hmax rfl (by decide) ops_msghdrLoop hkeys hat hzero hblack
        msghdrLoop_codes (by decide) (fun _ => msghdr_count) rfl ?_
      rw [hlog, hbase, map_iovecLog]
      show (ArgType.msghdr.vectorSaved env st.ctx.readAddr).map DataRecord.bytes = _
      unfold ArgType.vectorSaved
      rw [List.map_append, List.map_map]
      rfl

end Runs

end Stackplz
