import Stackplz.Probe.ReadArgs

/-!
# What earlier events leave behind

The reset of `op_ctx` covers eight bytes, so nine fields keep what the event before left in
them. A run of the interpreter is followed here with the set of fields that still hold such
a leftover: `LoopState.clean` says that the run reads none of them before it writes it.
`probe_isolated` shows that clean runs on two leftovers report the same event, and
`uretprobe_reports_leftover` that a run which is not clean can report another event's
address.
-/

set_option autoImplicit false

namespace Stackplz

/-! ## Leftover fields -/

/-- The fields of `op_ctx` that the reset does not cover. -/
inductive Leftover where
  | loopIndex | opCode | postCode | strLen | readLen | readAddr | regValue | pointerValue
  | tmpValue
deriving DecidableEq

/-- The fields that still hold a leftover. -/
abbrev Stale := Leftover → Bool

/-- The fields of `fs` have been written. -/
def Stale.fresh (stale : Stale) (fs : List Leftover) : Stale := fun f => stale f && !fs.contains f

/-- None of the fields of `fs` holds a leftover. -/
def Stale.allFresh (stale : Stale) (fs : List Leftover) : Bool := fs.all fun f => !stale f

/-- `d` with its stale fields replaced by those of `v`. -/
def OpData.poison (d : OpData) (stale : Stale) (v : OpData) : OpData :=
  { d with
    strLen := if stale .strLen then v.strLen else d.strLen
    readLen := if stale .readLen then v.readLen else d.readLen
    readAddr := if stale .readAddr then v.readAddr else d.readAddr
    regValue := if stale .regValue then v.regValue else d.regValue
    pointerValue := if stale .pointerValue then v.pointerValue else d.pointerValue
    tmpValue := if stale .tmpValue then v.tmpValue else d.tmpValue }

/-- `ctx` with its stale fields replaced by those of `v`. -/
def OpCtx.poison (ctx : OpCtx) (stale : Stale) (v : OpCtx) : OpCtx where
  toOpData := ctx.toOpData.poison stale v.toOpData
  loopIndex := if stale .loopIndex then v.loopIndex else ctx.loopIndex
  opKeyIndex := ctx.opKeyIndex
  opCode := if stale .opCode then v.opCode else ctx.opCode
  postCode := if stale .postCode then v.postCode else ctx.postCode

def OpState.poison (stale : Stale) (v : OpData) (st : OpState) : OpState :=
  { st with data := st.data.poison stale v }

def LoopState.poison (stale : Stale) (v : OpCtx) (st : LoopState) : LoopState :=
  { st with ctx := st.ctx.poison stale v }

/-! ## What an op reads and writes -/

/-- The leftover fields whose value the op depends on in this state. -/
def OpState.reads (env : ProbeEnv) (op : OpConfig) (code : OpCode) (st : OpState) :
    List Leftover :=
  match code with
  | .setReadLenRegValue => [.readLen, .regValue]
  | .setReadLenPointerValue => [.readLen, .pointerValue]
  | .setReadCount => [.readLen]
  | .addOffset | .subOffset | .setTmpValue | .saveAddr | .readPointer | .saveString
  | .savePtrString | .readStdString => [.readAddr]
  | .moveRegValue | .setBreakCountRegValue | .saveReg => [.regValue]
  | .movePointerValue | .setBreakCountPointerValue | .savePointer => [.pointerValue]
  | .moveTmpValue => [.tmpValue]
  | .addReg | .subReg => [.readAddr, .regValue]
  | .saveStruct => [.readAddr, .readLen]
  | .filterValue =>
      match env.argFilter.lookup op.value with
      | none => []
      | some filter =>
          match filter.filterType with
          | .equal | .greater | .less => [.regValue]
          | _ => []
  | .filterBuffer =>
      match env.argFilter.lookup op.value with
      | none => []
      | some filter => if filter.filterType = .whitelist then [.readAddr] else []
  | .filterString =>
      match env.argFilter.lookup op.value with
      | none => []
      | some filter =>
          -- a string too short for the filter is not read again
          if st.data.strLen < filter.strLen then [.strLen] else [.strLen, .readAddr]
  | .zero | .skip | .resetCtx | .setRegIndex | .setReadLen | .forBreak | .setBreakCount
  | .readReg | .readRet => []

/-- The leftover fields the op gives a value of this event. -/
def OpState.writes (env : ProbeEnv) (op : OpConfig) (code : OpCode) (st : OpState) :
    List Leftover :=
  match code with
  | .resetCtx => [.readAddr, .readLen, .regValue, .pointerValue]
  | .setReadLen => [.readLen]
  | .moveRegValue | .movePointerValue | .moveTmpValue => [.readAddr]
  | .setTmpValue => [.tmpValue]
  | .readReg => if (op.readIndex st.data.regIndex).toNat ≥ 33 then [] else [.regValue]
  | .readRet => [.regValue]
  | .readPointer => [.pointerValue]
  | .saveString =>
      -- `str_len` is written only when the string was saved
      if (saveStrToBuf env.mem st.event (untag st.data.readAddr) st.data.saveIndex).2
      then [.strLen] else []
  | _ => []

/-- `OP_FOR_BREAK` goes back to `loop_index` unless it sets it itself. -/
def OpCtx.forBreakReads (ctx : OpCtx) : List Leftover :=
  if ctx.loopCount ≠ 0 ∧ ctx.loopCount < ctx.breakCount then [.loopIndex] else []

/-- What the fetch depends on: a pending `post_code` counts once an op has been looked up. -/
def LoopState.fetchReads (st : LoopState) : List Leftover :=
  if st.op.isSome then [.postCode] else []

/-- What the body of the iteration reads. -/
def LoopState.reads (env : ProbeEnv) (op : OpConfig) (st : LoopState) : List Leftover :=
  if st.ctx.opCode = .forBreak then st.ctx.forBreakReads
  else OpState.reads env op st.ctx.opCode ⟨st.ctx.toOpData, st.event, st.strBuf⟩

/-- What the body of the iteration writes. -/
def LoopState.writes (env : ProbeEnv) (op : OpConfig) (st : LoopState) : List Leftover :=
  if st.ctx.opCode = .forBreak then [.loopIndex]
  else OpState.writes env op st.ctx.opCode ⟨st.ctx.toOpData, st.event, st.strBuf⟩

/-- Along at most `n` iterations no field is read while it holds a leftover. -/
def LoopState.clean {maxOp : Nat} (env : ProbeEnv) (keys : Vector u32 maxOp) :
    Nat → Stale → LoopState → Bool
  | 0, _, _ => true
  | n + 1, stale, st =>
      stale.allFresh st.fetchReads &&
        match st.fetch env keys with
        | none => true
        | some (op, st) =>
            let stale := stale.fresh [.opCode, .postCode]
            if st.ctx.opCode = .skip then true
            else
              stale.allFresh (st.reads env op) &&
                match st.exec env op with
                | (false, _) => true
                | (true, st') =>
                    st'.ctx.matchBlacklist ||
                      LoopState.clean env keys n (stale.fresh (st.writes env op)) st'

/-! ## One op on a poisoned state -/

@[simp] theorem fresh_nil (stale : Stale) : stale.fresh [] = stale := by
  funext f
  simp [Stale.fresh]

theorem not_stale_of_allFresh {stale : Stale} {fs : List Leftover} (h : stale.allFresh fs = true)
    {f : Leftover} (hf : f ∈ fs) : stale f = false := by
  have := List.all_eq_true.mp h f hf
  simpa using this

section Poison

variable {env : ProbeEnv} {op : OpConfig} {st : OpState} {stale : Stale} {v : OpData}

@[simp] theorem poison_strBuf (st : OpState) (stale : Stale) (v : OpData) :
    (st.poison stale v).strBuf = st.strBuf := rfl

private theorem saveStruct_poison (haddr : stale .readAddr = false)
    (hlen : stale .readLen = false) :
    (st.poison stale v).saveStruct env.mem op = (st.saveStruct env.mem op).poison stale v := by
  simp [OpState.saveStruct, OpState.poison, OpData.poison, haddr, hlen]

private theorem saveString_poison (haddr : stale .readAddr = false) :
    (st.poison stale v).saveString env.mem =
      (st.saveString env.mem).poison (stale.fresh (st.writes env op .saveString)) v := by
  -- the string length becomes fresh exactly when the string is saved
  cases hsaved : (saveStrToBuf env.mem st.event (untag st.data.readAddr) st.data.saveIndex).2 with
  | true => simp [OpState.saveString, OpState.poison, OpData.poison, OpState.writes, Stale.fresh,
      haddr, hsaved]
  | false => simp [OpState.saveString, OpState.poison, OpData.poison, OpState.writes, haddr, hsaved]

private theorem savePtrString_poison (haddr : stale .readAddr = false) :
    (st.poison stale v).savePtrString env.mem = (st.savePtrString env.mem).poison stale v := by
  have hread : (st.poison stale v).data.readAddr = st.data.readAddr := by
    simp [OpState.poison, OpData.poison, haddr]
  unfold OpState.savePtrString
  rw [hread]
  rfl

private theorem filterString_poison {filter : ArgFilter} (hlen : stale .strLen = false)
    (haddr : st.data.strLen < filter.strLen ∨ stale .readAddr = false) :
    (st.poison stale v).filterString env.mem filter =
      (st.filterString env.mem filter).poison stale v := by
  have hstr : (st.poison stale v).data.strLen = st.data.strLen := by
    simp [OpState.poison, OpData.poison, hlen]
  -- a string that is too short is not read, so the stale address does not matter
  have hcall : strcmpByMap st.strBuf
        (StrcmpCall.ofRead env.mem st.data.strLen (st.poison stale v).data.readAddr filter) =
      strcmpByMap st.strBuf
        (StrcmpCall.ofRead env.mem st.data.strLen st.data.readAddr filter) := by
    rcases haddr with hshort | hfresh
    · have htoo : ∀ addr, (StrcmpCall.ofRead env.mem st.data.strLen addr filter).TooShort :=
        fun _ => hshort
      unfold strcmpByMap
      rw [if_pos (htoo _), if_pos (htoo _)]
    · have hread : (st.poison stale v).data.readAddr = st.data.readAddr := by
        simp [OpState.poison, OpData.poison, hfresh]
      rw [hread]
  unfold OpState.filterString
  rw [hstr, poison_strBuf, hcall]
  cases filter.filterType <;> rfl

/-- An op whose reads are fresh does the same on a poisoned state, and leaves poisoned what
it does not write. -/
theorem execOp_poison {code : OpCode} (h : stale.allFresh (st.reads env op code) = true) :
    execOp env op code (st.poison stale v) =
      ((execOp env op code st).1,
        (execOp env op code st).2.poison (stale.fresh (st.writes env op code)) v) := by
  cases code
  case readReg =>
    by_cases hbad : (op.readIndex st.data.regIndex).toNat ≥ 33
    · simp [execOp, OpState.setData, OpState.poison, OpData.poison, OpState.writes, hbad]
    · simp [execOp, OpState.setData, OpState.poison, OpData.poison, OpState.writes, Stale.fresh,
        hbad]
  case saveStruct =>
    have haddr := not_stale_of_allFresh h (f := .readAddr) (by simp [OpState.reads])
    have hlen := not_stale_of_allFresh h (f := .readLen) (by simp [OpState.reads])
    simp [execOp, OpState.writes, saveStruct_poison haddr hlen]
  case saveString =>
    have haddr := not_stale_of_allFresh h (f := .readAddr) (by simp [OpState.reads])
    show (true, (st.poison stale v).saveString env.mem) = _
    rw [saveString_poison haddr]
    rfl
  case savePtrString =>
    have haddr := not_stale_of_allFresh h (f := .readAddr) (by simp [OpState.reads])
    simp [execOp, OpState.writes, savePtrString_poison haddr]
  case filterValue =>
    cases hlookup : env.argFilter.lookup op.value with
    | none => simp [execOp, hlookup, OpState.writes]
    | some filter =>
        have hrejects : filterValueRejects filter (st.poison stale v).data.regValue =
            filterValueRejects filter st.data.regValue := by
          cases htype : filter.filterType with
          | equal | greater | less =>
              have hreg := not_stale_of_allFresh h (f := .regValue)
                (by simp [OpState.reads, hlookup, htype])
              simp [OpState.poison, OpData.poison, hreg]
          | _ => simp [filterValueRejects, htype]
        simp only [execOp, hlookup, OpState.setData, OpState.writes, fresh_nil]
        rw [hrejects]
        rfl
  case filterBuffer =>
    cases hlookup : env.argFilter.lookup op.value with
    | none => simp [execOp, hlookup, OpState.writes]
    | some filter =>
        by_cases htype : filter.filterType = .whitelist
        · have haddr := not_stale_of_allFresh h (f := .readAddr)
            (by simp [OpState.reads, hlookup, htype])
          simp [execOp, hlookup, htype, OpState.setData, OpState.poison, OpData.poison,
            OpState.writes, haddr]
        · simp [execOp, hlookup, htype, OpState.writes]
  case filterString =>
    cases hlookup : env.argFilter.lookup op.value with
    | none => simp [execOp, hlookup, OpState.writes]
    | some filter =>
        have hlen : stale .strLen = false := not_stale_of_allFresh h (by
          simp only [OpState.reads, hlookup]
          split <;> simp)
        have haddr : st.data.strLen < filter.strLen ∨ stale .readAddr = false := by
          by_cases hshort : st.data.strLen < filter.strLen
          · exact Or.inl hshort
          · exact Or.inr (not_stale_of_allFresh h (by simp [OpState.reads, hlookup, hshort]))
        simp [execOp, hlookup, OpState.writes, filterString_poison hlen haddr]
  -- every other op computes one field from fields that are fresh
  all_goals
    simp only [OpState.reads, Stale.allFresh, List.all_cons, List.all_nil, Bool.and_true,
      Bool.not_eq_true', Bool.and_eq_true] at h
    simp [execOp, OpState.setData, OpState.saveWord, OpState.poison, OpData.poison,
      OpState.writes, Stale.fresh, h]

/-- No op but `OP_FOR_BREAK` writes the control part. -/
private theorem control_notMem_writes (env : ProbeEnv) (op : OpConfig) (code : OpCode)
    (st : OpState) :
    ∀ f ∈ [Leftover.loopIndex, .opCode, .postCode], f ∉ st.writes env op code := by
  cases code <;> simp [OpState.writes]

private theorem fresh_writes_control (stale : Stale) (env : ProbeEnv) (op : OpConfig)
    (code : OpCode) (st : OpState) {f : Leftover}
    (hf : f ∈ [Leftover.loopIndex, .opCode, .postCode]) :
    stale.fresh (st.writes env op code) f = stale f := by
  have hmem := control_notMem_writes env op code st f hf
  simp [Stale.fresh, hmem]

end Poison

/-! ## One iteration on a poisoned state -/

section Iteration

variable {maxOp : Nat} {env : ProbeEnv} {keys : Vector u32 maxOp} {stale : Stale} {v : OpCtx}

/-- A fetch that may use the pending `post_code` does the same on a poisoned state; both
control codes are fresh after it. -/
theorem fetch_poison {st : LoopState} (h : stale.allFresh st.fetchReads = true) :
    (st.poison stale v).fetch env keys =
      (st.fetch env keys).map fun x => (x.1, x.2.poison (stale.fresh [.opCode, .postCode]) v) := by
  have hkey : LoopState.fetch.fetchKey keys (st.poison stale v) env =
      (LoopState.fetch.fetchKey keys st env).map fun x =>
        (x.1, x.2.poison (stale.fresh [.opCode, .postCode]) v) := by
    by_cases hidx : st.ctx.opKeyIndex.toNat < maxOp
    · cases hop : env.opList.lookup (keys[st.ctx.opKeyIndex.toNat]) with
      | none => simp [LoopState.fetch.fetchKey, LoopState.poison, OpCtx.poison, hidx, hop]
      | some op =>
          simp [LoopState.fetch.fetchKey, LoopState.poison, OpCtx.poison, OpData.poison,
            Stale.fresh, hidx, hop]
    · simp [LoopState.fetch.fetchKey, LoopState.poison, OpCtx.poison, hidx]
  cases hop : st.op with
  | none => simpa [LoopState.fetch, LoopState.poison, hop] using hkey
  | some op =>
      have hpost : stale .postCode = false :=
        not_stale_of_allFresh h (by simp [LoopState.fetchReads, hop])
      by_cases hskip : st.ctx.postCode = .skip
      · simpa [LoopState.fetch, LoopState.poison, OpCtx.poison, hop, hpost, hskip] using hkey
      · simp [LoopState.fetch, LoopState.poison, OpCtx.poison, OpData.poison, Stale.fresh, hop,
          hpost, hskip]

/-- Whether the loop is over is decided by the two counters, which the reset covers. -/
private theorem forBreak_poison {ctx : OpCtx} (h : stale.allFresh ctx.forBreakReads = true) :
    (ctx.poison stale v).forBreak = ctx.forBreak.poison (stale.fresh [.loopIndex]) v := by
  have hcount : (ctx.poison stale v).loopCount = ctx.loopCount := rfl
  have hbreak : (ctx.poison stale v).breakCount = ctx.breakCount := rfl
  unfold OpCtx.forBreak
  rw [hcount, hbreak]
  by_cases hend : ctx.loopCount ≥ ctx.breakCount
  · rw [if_pos hend, if_pos hend]
    simp [OpCtx.poison, OpData.poison, Stale.fresh]
  · rw [if_neg hend, if_neg hend]
    by_cases hzero : ctx.loopCount = 0
    · simp only [hzero, if_true]
      simp [OpCtx.poison, OpData.poison, Stale.fresh]
    · have hindex : stale .loopIndex = false := by
        have hlt : ctx.loopCount < ctx.breakCount := BitVec.not_le.mp hend
        have hreads : ctx.forBreakReads = [.loopIndex] := if_pos ⟨hzero, hlt⟩
        exact not_stale_of_allFresh h (by simp [hreads])
      simp only [hzero, if_false]
      simp [OpCtx.poison, OpData.poison, Stale.fresh, hindex]

theorem exec_poison {op : OpConfig} {st : LoopState} (hcode : stale .opCode = false)
    (h : stale.allFresh (st.reads env op) = true) :
    (st.poison stale v).exec env op =
      ((st.exec env op).1, (st.exec env op).2.poison (stale.fresh (st.writes env op)) v) := by
  have hsame : (st.poison stale v).ctx.opCode = st.ctx.opCode := by
    simp [LoopState.poison, OpCtx.poison, hcode]
  by_cases hfor : st.ctx.opCode = .forBreak
  · have hreads : stale.allFresh st.ctx.forBreakReads = true := by
      simpa [LoopState.reads, hfor] using h
    unfold LoopState.exec LoopState.writes
    rw [hsame, if_pos hfor, if_pos hfor, if_pos hfor]
    show (true, ({ st with ctx := (st.ctx.poison stale v).forBreak } : LoopState)) = _
    rw [forBreak_poison hreads]
    rfl
  · have hreads : stale.allFresh (OpState.reads env op st.ctx.opCode
        ⟨st.ctx.toOpData, st.event, st.strBuf⟩) = true := by
      simpa [LoopState.reads, hfor] using h
    have hexec : execOp env op st.ctx.opCode ⟨(st.poison stale v).ctx.toOpData,
          (st.poison stale v).event, (st.poison stale v).strBuf⟩ = _ :=
      execOp_poison (v := v.toOpData) hreads
    unfold LoopState.exec LoopState.writes
    rw [hsame, if_neg hfor, if_neg hfor, if_neg hfor]
    rw [hexec]
    -- the op does not touch the control part
    have hcontrol {f : Leftover} := fresh_writes_control (f := f) stale env op st.ctx.opCode
      ⟨st.ctx.toOpData, st.event, st.strBuf⟩
    simp only [LoopState.poison, OpCtx.poison, OpState.poison,
      hcontrol (f := .loopIndex) (by simp), hcontrol (f := .opCode) (by simp),
      hcontrol (f := .postCode) (by simp)]

/-! ## A run on a poisoned state -/

/-- Whatever a clean run finds in its stale fields, it ends the same way and leaves the same
state, up to fields that are still stale. -/
theorem readArgsLoop_poison :
    ∀ (n : Nat) {stale : Stale} {st : LoopState}, st.clean env keys n stale = true →
      ∃ stale', readArgsLoop env keys n (st.poison stale v) =
        ((readArgsLoop env keys n st).1, (readArgsLoop env keys n st).2.poison stale' v)
  | 0, stale, st, _ => ⟨stale, rfl⟩
  | n + 1, stale, st, h => by
      unfold LoopState.clean at h
      rw [Bool.and_eq_true] at h
      have hfetch : (st.poison stale v).fetch env keys = _ := fetch_poison h.1
      have hrest := h.2
      unfold readArgsLoop
      rw [hfetch]
      cases hnext : st.fetch env keys with
      | none => exact ⟨stale, rfl⟩
      | some x =>
          obtain ⟨op, st₁⟩ := x
          rw [hnext] at hrest
          have hcode : (st₁.poison (stale.fresh [.opCode, .postCode]) v).ctx.opCode =
              st₁.ctx.opCode := by
            simp [LoopState.poison, OpCtx.poison, Stale.fresh]
          simp only [Option.map_some, hcode]
          by_cases hskip : st₁.ctx.opCode = .skip
          · rw [if_pos hskip, if_pos hskip]
            exact ⟨_, rfl⟩
          · simp only [hskip, if_false, Bool.and_eq_true] at hrest
            rw [if_neg hskip, if_neg hskip]
            have hexec := exec_poison (v := v) (by simp [Stale.fresh]) hrest.1
            rw [hexec]
            have hcont := hrest.2
            cases hstep : st₁.exec env op with
            | mk goesOn st₂ =>
                rw [hstep] at hcont
                cases goesOn with
                | false => exact ⟨_, rfl⟩
                | true =>
                    have hblack : (st₂.poison ((stale.fresh [.opCode, .postCode]).fresh
                        (st₁.writes env op)) v).ctx.matchBlacklist = st₂.ctx.matchBlacklist := rfl
                    simp only [hblack]
                    cases hmatch : st₂.ctx.matchBlacklist with
                    | true => exact ⟨_, rfl⟩
                    | false =>
                        simp only [hmatch, Bool.false_or] at hcont
                        exact readArgsLoop_poison n hcont

/-- Nothing is read too early when only the control codes hold a leftover that the first
fetch overwrites. -/
private theorem clean_of_control :
    ∀ (n : Nat) {stale : Stale} {st : LoopState}, stale.allFresh st.fetchReads = true →
      (∀ f, f ≠ .opCode → f ≠ .postCode → stale f = false) → st.clean env keys n stale = true
  | 0, _, _, _, _ => rfl
  | n + 1, stale, st, hfetch, hstale => by
      have hfresh : ∀ f, stale.fresh [.opCode, .postCode] f = false := by
        intro f
        by_cases hcode : f = .opCode
        · simp [Stale.fresh, hcode]
        · by_cases hpost : f = .postCode
          · simp [Stale.fresh, hpost]
          · simp [Stale.fresh, hstale f hcode hpost]
      have hall : ∀ fs, (stale.fresh [.opCode, .postCode]).allFresh fs = true := by
        intro fs
        exact List.all_eq_true.mpr fun f _ => by simp [hfresh f]
      have hnext : ∀ fs st', LoopState.clean env keys n
          ((stale.fresh [.opCode, .postCode]).fresh fs) st' = true := by
        intro fs st'
        have hstill : ∀ f, ((stale.fresh [.opCode, .postCode]).fresh fs) f = false := by
          intro f
          show (stale.fresh [.opCode, .postCode] f && _) = false
          rw [hfresh f, Bool.false_and]
        exact clean_of_control n (List.all_eq_true.mpr fun f _ => by simp [hstill f])
          fun f _ _ => hstill f
      unfold LoopState.clean
      rw [hfetch, Bool.true_and]
      cases st.fetch env keys with
      | none => rfl
      | some x =>
          simp only [hall, hnext, Bool.true_and, Bool.or_true]
          split
          · rfl
          · split <;> rfl

/-- A loop that ended before its bound ends the same way with one more iteration allowed. -/
theorem readArgsLoop_succ :
    ∀ (n : Nat) {st : LoopState}, (readArgsLoop env keys n st).1 ≠ .bound →
      readArgsLoop env keys (n + 1) st = readArgsLoop env keys n st
  | 0, _, h => absurd rfl h
  | n + 1, st, h => by
      rw [readArgsLoop.eq_def env keys (n + 1 + 1)]
      rw [readArgsLoop.eq_def env keys (n + 1)] at h ⊢
      dsimp only at h ⊢
      cases hfetch : st.fetch env keys with
      | none => rfl
      | some x =>
          rw [hfetch] at h
          dsimp only at h ⊢
          by_cases hskip : x.2.ctx.opCode = .skip
          · rw [if_pos hskip, if_pos hskip]
          · rw [if_neg hskip] at h ⊢
            rw [if_neg hskip]
            cases hstep : x.2.exec env x.1 with
            | mk goesOn st₂ =>
                rw [hstep] at h
                cases goesOn with
                | false => rfl
                | true =>
                    dsimp only at h ⊢
                    by_cases hblack : st₂.ctx.matchBlacklist = true
                    · rw [if_pos hblack, if_pos hblack]
                    · rw [if_neg hblack] at h ⊢
                      rw [if_neg hblack]
                      exact readArgsLoop_succ n h

end Iteration

/-! ## The report of an event -/

/-- What a run passes on: the event, the string map, and the flags the reset covers. -/
def LoopState.report (st : LoopState) : EventData × StrBufMap × Bool × Bool × Bool × Bool :=
  (st.event, st.strBuf, st.ctx.skipFlag, st.ctx.applyFilter, st.ctx.matchWhitelist,
    st.ctx.matchBlacklist)

/-- The fields in which two leftovers differ. -/
def OpCtx.differ (a b : OpCtx) : Stale
  | .loopIndex => a.loopIndex != b.loopIndex
  | .opCode => a.opCode != b.opCode
  | .postCode => a.postCode != b.postCode
  | .strLen => a.strLen != b.strLen
  | .readLen => a.readLen != b.readLen
  | .readAddr => a.readAddr != b.readAddr
  | .regValue => a.regValue != b.regValue
  | .pointerValue => a.pointerValue != b.pointerValue
  | .tmpValue => a.tmpValue != b.tmpValue

/-- `ctx` with `code` as the pending `post_code`. -/
def OpCtx.pending (ctx : OpCtx) (code : OpCode) : OpCtx := { ctx with postCode := code }

/-- The initialisation leaves two leftovers apart only where they differed. -/
theorem start_poison (l l' : OpCtx) (reg0 : u64) (saveIndex : u8) :
    (l.start reg0 saveIndex).poison (l.differ l') (l'.start reg0 saveIndex) =
      l'.start reg0 saveIndex := by
  simp [OpCtx.start, OpCtx.memset, OpCtx.poison, OpData.poison, OpCtx.differ]

section Report

variable {maxOp : Nat} {env : ProbeEnv} {keys : Vector u32 maxOp}

/-- Two clean runs report the same. -/
private theorem report_of_clean {n : Nat} {stale : Stale} {st : LoopState} (v : OpCtx)
    (h : st.clean env keys n stale = true) :
    (readArgsLoop env keys n (st.poison stale v)).1 = (readArgsLoop env keys n st).1 ∧
      (readArgsLoop env keys n (st.poison stale v)).2.report =
        (readArgsLoop env keys n st).2.report := by
  obtain ⟨stale', heq⟩ := readArgsLoop_poison (v := v) n h
  rw [heq]
  exact ⟨rfl, rfl⟩

def LoopState.pending (st : LoopState) (code : OpCode) : LoopState :=
  { st with ctx := st.ctx.pending code }

/-- The state after an iteration that executed a pending zero. -/
private def LoopState.idled (st : LoopState) : LoopState :=
  { st with ctx := { st.ctx with opCode := .zero, postCode := .skip } }

/-- With an op looked up, a pending zero costs one iteration. -/
private theorem readArgsLoop_idle (n : Nat) {st : LoopState} {op : OpConfig}
    (hop : st.op = some op) (hblack : st.ctx.matchBlacklist = false) :
    readArgsLoop env keys (n + 1) (st.pending .zero) = readArgsLoop env keys n st.idled := by
  have hfetch : (st.pending .zero).fetch env keys = some (op, st.idled) := by
    simp [LoopState.fetch, LoopState.pending, OpCtx.pending, LoopState.idled, hop]
  have hexec : st.idled.exec env op = (true, st.idled) := rfl
  have hskip : st.idled.ctx.opCode ≠ .skip := by
    show OpCode.zero ≠ .skip
    decide
  have hmatch : st.idled.ctx.matchBlacklist = false := hblack
  rw [readArgsLoop.eq_def env keys (n + 1)]
  simp only [hfetch, hskip, if_false, hexec, hmatch, Bool.false_eq_true]

/-- An idle first iteration makes no difference to a loop that it leaves enough iterations. -/
private theorem report_pending {n : Nat} {st : LoopState}
    (hblack : st.ctx.matchBlacklist = false)
    (hend : (readArgsLoop env keys n (st.pending .zero)).1 ≠ .bound) :
    (readArgsLoop env keys n (st.pending .zero)).1 =
        (readArgsLoop env keys n (st.pending .skip)).1 ∧
      (readArgsLoop env keys n (st.pending .zero)).2.report =
        (readArgsLoop env keys n (st.pending .skip)).2.report := by
  cases hop : st.op with
  | none =>
      -- the pending code is overwritten by the first fetch
      have hclean : (st.pending .skip).clean env keys n (fun f => f == .postCode) = true :=
        clean_of_control n (by simp [LoopState.fetchReads, LoopState.pending, hop, Stale.allFresh])
          (by simp)
      exact report_of_clean (st.ctx.pending .zero) hclean
  | some op =>
      cases n with
      | zero => exact absurd rfl hend
      | succ n =>
          have hidle : readArgsLoop env keys (n + 1) (st.pending .zero) = _ :=
            readArgsLoop_idle n hop hblack
          rw [hidle] at hend ⊢
          have hclean : (st.pending .skip).clean env keys n (fun f => f == .opCode) = true := by
            refine clean_of_control n ?_ (fun f hcode _ => by simpa using hcode)
            simp [LoopState.fetchReads, LoopState.pending, hop, Stale.allFresh]
          have hsame := report_of_clean { st.ctx with opCode := .zero } hclean
          have hidled : (st.pending .skip).poison (fun f => f == .opCode)
              { st.ctx with opCode := .zero } = st.idled := rfl
          rw [hidled] at hsame
          rw [hsame.1] at hend
          rw [readArgsLoop_succ n hend]
          exact hsame

end Report

/-- The condition under which two leftovers cannot be told apart. -/
structure Probe.Isolated {maxOp : Nat} (p : Probe) (env : ProbeEnv) (pointArgs : PointArgs maxOp)
    (ret : u64) (event : EventData) (strBuf : StrBufMap) (l l' : OpCtx) : Prop where
  /-- The same op is pending in both, or none is and an idle iteration is no loss. -/
  post : l.postCode = l'.postCode ∨ l.Idle ∧ l'.Idle ∧
    (readArgsLoop env pointArgs.opKeyList maxOp
      ((p.enter env ret l event strBuf).pending .zero)).1 ≠ .bound
  /-- No op reads a field in which they differ before this event wrote it. -/
  reads : (p.enter env ret (l.pending l'.postCode) event strBuf).clean env pointArgs.opKeyList
    maxOp ((l.pending l'.postCode).differ l') = true

section Main

variable {maxOp : Nat} {p : Probe} {env : ProbeEnv} {pointArgs : PointArgs maxOp} {ret : u64}
  {event : EventData} {strBuf : StrBufMap} {l l' : OpCtx}

/-- The loop of `read_args` behind a leftover. -/
private def loopFrom (p : Probe) (env : ProbeEnv) (pointArgs : PointArgs maxOp) (ret : u64)
    (event : EventData) (strBuf : StrBufMap) (l : OpCtx) : LoopEnd × LoopState :=
  readArgsLoop env pointArgs.opKeyList maxOp (p.enter env ret l event strBuf)

/-- The skip logic looks at reported flags only. -/
private theorem report_applySkip {st st' : LoopState} (h : st.report = st'.report) :
    ({ st with ctx := st.ctx.applySkip } : LoopState).report =
      ({ st' with ctx := st'.ctx.applySkip } : LoopState).report := by
  simp only [LoopState.report, Prod.mk.injEq] at h
  obtain ⟨hevent, hstrBuf, hskip, happly, hwhite, hblack⟩ := h
  unfold LoopState.report OpCtx.applySkip
  rw [happly, hwhite, hblack]
  -- both sides take the same branch
  split
  · simp [hevent, hstrBuf]
  · split
    · simp [hevent, hstrBuf]
    · simp [hevent, hstrBuf, hskip, happly, hwhite, hblack]

/-- The report of a whole run is decided by how its loop ended and by the loop's report. -/
private theorem report_run
    (hend : (loopFrom p env pointArgs ret event strBuf l).1 =
      (loopFrom p env pointArgs ret event strBuf l').1)
    (hreport : (loopFrom p env pointArgs ret event strBuf l).2.report =
      (loopFrom p env pointArgs ret event strBuf l').2.report) :
    (p.run env pointArgs ret l event strBuf).report =
      (p.run env pointArgs ret l' event strBuf).report := by
  unfold Probe.run
  by_cases hempty : p = .uretprobeStack ∧ pointArgs.opCount = 0
  · rw [if_pos hempty, if_pos hempty]
    rfl
  · rw [if_neg hempty, if_neg hempty]
    have hloop (k : OpCtx) : readArgsLoop env pointArgs.opKeyList maxOp
        ⟨env.opList.lookup 0, k.start (p.reg0 env.regs ret) p.saveIndex, event, strBuf⟩ =
          loopFrom p env pointArgs ret event strBuf k := rfl
    unfold readArgs
    rw [hloop, hloop]
    generalize loopFrom p env pointArgs ret event strBuf l = r at *
    generalize loopFrom p env pointArgs ret event strBuf l' = r' at *
    obtain ⟨reason, st⟩ := r
    obtain ⟨reason', st'⟩ := r'
    obtain rfl : reason = reason' := hend
    cases reason with
    | returned => exact hreport
    | done | blacklisted | bound => exact report_applySkip hreport

/-- An idle leftover reports what it would report with the other idle `post_code`. -/
private theorem loopFrom_pending (hl : l.Idle) (hl' : l'.Idle) (hne : l.postCode ≠ l'.postCode)
    (hend : (readArgsLoop env pointArgs.opKeyList maxOp
      ((p.enter env ret l event strBuf).pending .zero)).1 ≠ .bound) :
    (loopFrom p env pointArgs ret event strBuf l).1 =
        (loopFrom p env pointArgs ret event strBuf (l.pending l'.postCode)).1 ∧
      (loopFrom p env pointArgs ret event strBuf l).2.report =
        (loopFrom p env pointArgs ret event strBuf (l.pending l'.postCode)).2.report := by
  have hself : p.enter env ret l event strBuf =
      (p.enter env ret l event strBuf).pending l.postCode := rfl
  have hother : p.enter env ret (l.pending l'.postCode) event strBuf =
      (p.enter env ret l event strBuf).pending l'.postCode := rfl
  have hblack : (p.enter env ret l event strBuf).ctx.matchBlacklist = false := rfl
  have hpending := report_pending hblack hend
  unfold loopFrom
  rw [hother, hself]
  rcases hl with hzero | hskip
  · have hskip' : l'.postCode = .skip := hl'.resolve_left fun h => hne (hzero.trans h.symm)
    rw [hzero, hskip']
    exact hpending
  · have hzero' : l'.postCode = .zero := hl'.resolve_right fun h => hne (hskip.trans h.symm)
    rw [hskip, hzero']
    exact ⟨hpending.1.symm, hpending.2.symm⟩

/-- **Isolation of the probe interpreter.** What an event reports does not depend on what
earlier events left in `op_ctx`, as long as no pending op and no early read tells two
leftovers apart. -/
theorem probe_isolated (p : Probe) (env : ProbeEnv) (pointArgs : PointArgs maxOp) (ret : u64)
    (event : EventData) (strBuf : StrBufMap) (l l' : OpCtx)
    (h : p.Isolated env pointArgs ret event strBuf l l') :
    (p.run env pointArgs ret l event strBuf).event =
        (p.run env pointArgs ret l' event strBuf).event ∧
      (p.run env pointArgs ret l event strBuf).ctx.skipFlag =
        (p.run env pointArgs ret l' event strBuf).ctx.skipFlag := by
  have hclean := report_of_clean ((l'.start (p.reg0 env.regs ret) p.saveIndex)) h.reads
  have henter : (p.enter env ret (l.pending l'.postCode) event strBuf).poison
      ((l.pending l'.postCode).differ l') (l'.start (p.reg0 env.regs ret) p.saveIndex) =
        p.enter env ret l' event strBuf := by
    unfold Probe.enter LoopState.poison
    dsimp only
    rw [start_poison]
  rw [henter] at hclean
  have hpost : (loopFrom p env pointArgs ret event strBuf l).1 =
        (loopFrom p env pointArgs ret event strBuf (l.pending l'.postCode)).1 ∧
      (loopFrom p env pointArgs ret event strBuf l).2.report =
        (loopFrom p env pointArgs ret event strBuf (l.pending l'.postCode)).2.report := by
    by_cases hsame : l.postCode = l'.postCode
    · have hself : l.pending l'.postCode = l := by
        rw [← hsame]
        rfl
      rw [hself]
      exact ⟨rfl, rfl⟩
    · obtain ⟨hl, hl', hend⟩ := h.post.resolve_left hsame
      exact loopFrom_pending hl hl' hsame hend
  have hreport : (p.run env pointArgs ret l event strBuf).report =
      (p.run env pointArgs ret l' event strBuf).report :=
    report_run (hpost.1.trans hclean.1.symm) (hpost.2.trans hclean.2.symm)
  exact ⟨congrArg (·.1) hreport, congrArg (·.2.2.1) hreport⟩

end Main

/-! ## A return value that is a string -/

/-- What earlier events can have left in `op_ctx`, whatever they were and however their runs
ended. -/
inductive LeftBehind (maxOp : Nat) : OpCtx → Prop
  | created : LeftBehind maxOp .cleared
  | event {l : OpCtx} (p : Probe) (env : ProbeEnv) (pointArgs : PointArgs maxOp) (ret : u64)
      (event : EventData) (strBuf : StrBufMap) (hl : LeftBehind maxOp l) :
      LeftBehind maxOp (p.run env pointArgs ret l event strBuf).ctx

/-- A process with the strings `A` at `0x1000` and `B` at `0x2000`, stopped with `x0` in the
first register, under the ops of a `str` argument in `x0` (keys 1 to 3) and of a `str` return
value (keys 4, 5 and 3). -/
def stringEnv (x0 : u64) : ProbeEnv where
  mem := fun addr =>
    if addr = 0x1000 then some 65
    else if addr = 0x2000 then some 66
    else if addr = 0x1001 ∨ addr = 0x2001 then some 0
    else none
  regs := .ofX0 x0
  opList := (((((BoundedMap.empty.put 0 ⟨.skip, .skip, .skip, 0⟩).put
    1 ⟨.readReg, .setRegIndex, .saveReg, 0⟩).put
    2 ⟨.moveRegValue, .skip, .skip, 0⟩).put
    3 ⟨.saveString, .skip, .skip, 0⟩).put
    4 ⟨.readRet, .skip, .skip, 0⟩).put
    5 ⟨.saveReg, .skip, .skip, 0⟩
  argFilter := BoundedMap.empty

/-- The point whose argument in `x0` is a string. -/
def stringArg : PointArgs stackMaxOpCount :=
  ⟨0, 3, ((Vector.replicate _ 0).set 0 1).set 1 2 |>.set 2 3⟩

/-- The point whose return value is a string: no op moves the value to `read_addr`. -/
def stringRet : PointArgs stackMaxOpCount :=
  ⟨0, 3, ((Vector.replicate _ 0).set 0 4).set 1 5 |>.set 2 3⟩

/-- What an event with the string at `x0` leaves behind. -/
def afterString (x0 : u64) : OpCtx :=
  (Probe.run .probeStack (stringEnv x0) stringArg 0 .cleared .init BoundedMap.empty).ctx

/-- A uretprobe that returns the address of `A` reports `A` after an event with the string `A`
and `B` after one with the string `B`. -/
theorem uretprobe_reports_leftover :
    LeftBehind stackMaxOpCount (afterString 0x1000) ∧
      LeftBehind stackMaxOpCount (afterString 0x2000) ∧
      (Probe.run .uretprobeStack (stringEnv 0) stringRet 0x1000 (afterString 0x1000) .init
          BoundedMap.empty).event ≠
        (Probe.run .uretprobeStack (stringEnv 0) stringRet 0x1000 (afterString 0x2000) .init
          BoundedMap.empty).event := by
  refine ⟨.event .probeStack (stringEnv 0x1000) stringArg 0 .init BoundedMap.empty .created,
    .event .probeStack (stringEnv 0x2000) stringArg 0 .init BoundedMap.empty .created, ?_⟩
  decide +kernel

/-- The point whose argument is a string reports the same after both events. -/
theorem probe_isolated_stringArg :
    (Probe.run .probeStack (stringEnv 0x1000) stringArg 0 (afterString 0x1000) .init
          BoundedMap.empty).event =
        (Probe.run .probeStack (stringEnv 0x1000) stringArg 0 (afterString 0x2000) .init
          BoundedMap.empty).event ∧
      (Probe.run .probeStack (stringEnv 0x1000) stringArg 0 (afterString 0x1000) .init
          BoundedMap.empty).ctx.skipFlag =
        (Probe.run .probeStack (stringEnv 0x1000) stringArg 0 (afterString 0x2000) .init
          BoundedMap.empty).ctx.skipFlag := by
  refine probe_isolated .probeStack (stringEnv 0x1000) stringArg 0 .init BoundedMap.empty
    (afterString 0x1000) (afterString 0x2000) ⟨Or.inl ?_, ?_⟩
  · decide +kernel
  · decide +kernel

end Stackplz
