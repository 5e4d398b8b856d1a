import Stackplz.Probe.Loops

/-!
# Codes that can always be executed

An iteration ends `read_args` at the terminator, at a register that does not exist, at a filter
that is not loaded, and when a filter has set the black list flag. All other codes run on in
every state: a list of them is executed to its end (`run_runsOn`), also where it has a loop
(`noExit_of_runsOn`).
-/

set_option autoImplicit false

namespace Stackplz

/-- The code lets the loop go on in every state: it is neither the terminator nor a filter, and
a register that it reads exists. -/
def runsOn (x : OpConfig × OpCode) : Bool :=
  match x.2 with
  | .skip | .filterValue | .filterBuffer | .filterString => false
  | .readReg => x.1.preCode == .setRegIndex && decide ((x.1.value.setWidth 8).toNat < 33)
  | _ => true

section Steps

variable {env : ProbeEnv} {x : OpConfig × OpCode} {xs : List (OpConfig × OpCode)}

/-- A register that is read by an op with its own index exists. -/
theorem runsOn_readReg {op : OpConfig} (h : runsOn (op, .readReg) = true) (regIndex : u8) :
    (op.readIndex regIndex).toNat < 33 := by
  obtain ⟨hpre, hlt⟩ := Bool.and_eq_true_iff.mp h
  unfold OpConfig.readIndex
  rw [if_pos (beq_iff_eq.mp hpre)]
  exact of_decide_eq_true hlt

theorem execOp_runsOn (h : runsOn x = true) (st : OpState) :
    (execOp env x.1 x.2 st).1 = true ∧
      (execOp env x.1 x.2 st).2.data.matchBlacklist = st.data.matchBlacklist := by
  obtain ⟨op, code⟩ := x
  cases code
  case readReg =>
    have hexec : execOp env op .readReg st = (true, _) :=
      if_neg (Nat.not_le_of_lt (runsOn_readReg h st.data.regIndex))
    dsimp only
    rw [hexec]
    exact ⟨rfl, rfl⟩
  case skip | filterValue | filterBuffer | filterString => cases h
  all_goals exact ⟨rfl, rfl⟩

theorem runsOn_ne_skip (h : runsOn x = true) : x.2 ≠ .skip := by
  intro hskip
  unfold runsOn at h
  rw [hskip] at h
  cases h

theorem step_runsOn (h : runsOn x = true) {st : OpState}
    (hblack : st.data.matchBlacklist = false) :
    st.step env x = some (st.saved env.mem x.1 x.2, (execOp env x.1 x.2 st).2) := by
  obtain ⟨hgoes, hkept⟩ := @execOp_runsOn env _ h st
  exact step_eq_some.mpr ⟨Prod.ext hgoes rfl, hkept.trans hblack, rfl⟩

/-- A list of such codes is executed to its end. -/
theorem runSteps_runsOn (h : ∀ x ∈ xs, runsOn x = true) {st : OpState}
    (hblack : st.data.matchBlacklist = false) :
    runSteps env xs st = some (execSteps env xs st) := by
  induction xs generalizing st with
  | nil => rfl
  | cons x xs ih =>
      obtain ⟨hx, hxs⟩ := List.forall_mem_cons.mp h
      obtain ⟨-, hkept⟩ := @execOp_runsOn env _ hx st
      exact runSteps_cons.mpr ⟨_, _, _, step_runsOn hx hblack, ih hxs (hkept.trans hblack), rfl⟩

/-- The counter of a loop is a matter of `OP_FOR_BREAK` and of arrays of strings. -/
theorem execSteps_loopCount (h : ∀ x ∈ xs, x.2 ≠ .savePtrString) (st : OpState) :
    (execSteps env xs st).2.data.loopCount = st.data.loopCount := by
  induction xs generalizing st with
  | nil => rfl
  | cons x xs ih =>
      obtain ⟨hx, hxs⟩ := List.forall_mem_cons.mp h
      exact (ih hxs _).trans (execOp_loopCount env x.1 st hx)

end Steps

section Runs

variable {maxOp : Nat} {env : ProbeEnv} {keys : Vector u32 maxOp}

/-- No run gets past the black list flag. -/
theorem run_matchBlacklist {xs : List (OpConfig × OpCode)} {st next : LoopState}
    (hblack : st.ctx.matchBlacklist = false)
    (h : (interpreter env keys).run st xs = some next) : next.ctx.matchBlacklist = false := by
  induction xs generalizing st with
  | nil =>
      obtain rfl := Option.some.inj h
      exact hblack
  | cons x xs ih =>
      obtain ⟨mid, hstep, hrest⟩ := Machine.run_cons_eq_some.mp h
      obtain ⟨-, -, -, -, -, hmid⟩ := advance_eq_some.mp (interpreter_step.mp hstep)
      exact ih hmid hrest

/-- A straight list of such ops is executed to its end, and appends what its codes save. -/
theorem run_runsOn (hmax : maxOp < 2 ^ 32) {ops : List OpConfig} {st : LoopState} {k : Nat}
    (hat : st.AtOp k) (hkeys : KeysAt env keys k ops)
    (hstraight : ∀ x ∈ ops.flatMap OpConfig.steps, x.2.isStraight = true)
    (hruns : ∀ x ∈ ops.flatMap OpConfig.steps, runsOn x = true)
    (hblack : st.ctx.matchBlacklist = false) :
    ∃ next, (interpreter env keys).run st (ops.flatMap OpConfig.steps) = some next ∧
      next.AtOp (k + ops.length) ∧
      next.opState = (execSteps env (ops.flatMap OpConfig.steps) st.opState).2 ∧
      next.ctx.loopCount = st.ctx.loopCount ∧
      (next.event.refused = false → st.event.refused = false ∧
        ∃ bytes, next.event.args = st.event.args ++ bytes ∧
          Written (execSteps env (ops.flatMap OpConfig.steps) st.opState).1 bytes) := by
  have hforward : ∀ op ∈ ops, op.isForward = true := by
    intro op hop
    refine List.all_eq_true.mpr fun x hx => ?_
    have hx' := hstraight x (List.mem_flatMap.mpr ⟨op, hop, hx⟩)
    simp only [OpCode.isStraight, Bool.and_eq_true] at hx'
    exact Bool.and_eq_true_iff.mpr hx'.1
  have hptr : ∀ x ∈ ops.flatMap OpConfig.steps, x.2 ≠ .savePtrString := by
    intro x hx heq
    have hx' := hstraight x hx
    rw [heq] at hx'
    cases hx'
  obtain ⟨next, hrun, hnext, hstate⟩ :=
    run_ops hmax hat hkeys hforward (runSteps_runsOn hruns hblack)
  refine ⟨next, hrun, hnext, hstate, ?_, fun hroom => ?_⟩
  · exact (congrArg (fun o => o.data.loopCount) hstate).trans (execSteps_loopCount hptr _)
  · obtain ⟨-, hstart, bytes, hbytes, hargs⟩ := run_straight hstraight hrun hroom
    exact ⟨hstart, bytes, hargs, hbytes⟩

/-! ## Lists with a loop -/

/-- The next iteration is not ended by what is pending. -/
structure LoopState.Ongoing (st : LoopState) : Prop where
  blacklist : st.ctx.matchBlacklist = false
  pending : st.ctx.postCode ≠ .skip →
    ∃ op, st.op = some op ∧ runsOn (op, st.ctx.postCode) = true

theorem ongoing_atOp {st : LoopState} {k : Nat} (hat : st.AtOp k)
    (hblack : st.ctx.matchBlacklist = false) : st.Ongoing :=
  ⟨hblack, fun hpost => absurd hat.1 hpost⟩

/-- An iteration that executes such a code. -/
theorem advance_runsOn {st mid : LoopState} {op : OpConfig}
    (hfetch : st.fetch env keys = some (op, mid)) (hcode : runsOn (op, mid.ctx.opCode) = true)
    (hblack : st.ctx.matchBlacklist = false) :
    ∃ next, st.advance env keys = some ((op, mid.ctx.opCode), next) ∧ next.op = mid.op ∧
      next.ctx.postCode = mid.ctx.postCode := by
  have hmid : mid.ctx.matchBlacklist = false :=
    (congrArg (fun o => o.data.matchBlacklist) (fetch_opState hfetch)).trans hblack
  by_cases hfor : mid.ctx.opCode = .forBreak
  · have hexec : mid.exec env op = (true, { mid with ctx := mid.ctx.forBreak }) := if_pos hfor
    have hkept : mid.ctx.forBreak.matchBlacklist = mid.ctx.matchBlacklist ∧
        mid.ctx.forBreak.postCode = mid.ctx.postCode := by
      unfold OpCtx.forBreak
      dsimp only
      split <;> exact ⟨rfl, rfl⟩
    exact ⟨_, advance_eq_some.mpr
      ⟨mid, hfetch, rfl, runsOn_ne_skip hcode, hexec, hkept.1.trans hmid⟩, rfl, hkept.2⟩
  · obtain ⟨hgoes, hkept⟩ := @execOp_runsOn env _ hcode mid.opState
    have hexec := @exec_of_ne env op mid hfor
    rw [hgoes] at hexec
    exact ⟨_, advance_eq_some.mpr
      ⟨mid, hfetch, rfl, runsOn_ne_skip hcode, hexec, hkept.trans hmid⟩, rfl, rfl⟩

/-- Inside a list of such ops there is a next iteration, after which the next one is not ended
by what is pending either. -/
theorem advance_ongoing {k : Nat} {ops : List OpConfig} {st : LoopState}
    (hkeys : KeysAt env keys k ops) (hcodes : ∀ op ∈ ops, ∀ x ∈ op.steps, runsOn x = true)
    (hin : st.InList k) (hbefore : st.Before (k + ops.length)) (hgo : st.Ongoing) :
    ∃ x next, st.advance env keys = some (x, next) ∧ next.Ongoing := by
  by_cases hpost : st.ctx.postCode = .skip
  · have hplace := hin.place
    have hlast : st.ctx.opKeyIndex.toNat < k + ops.length := hbefore
    have hi : st.ctx.opKeyIndex.toNat - k < ops.length := by omega
    obtain ⟨hk, hkey⟩ := hkeys (st.ctx.opKeyIndex.toNat - k) hi
    simp only [Nat.add_sub_cancel' hplace] at hk hkey
    have hat : st.AtOp st.ctx.opKeyIndex.toNat := ⟨hpost, rfl⟩
    have hfetch := fetch_atOp hat hk hkey
    obtain ⟨hcode, hrest⟩ := List.forall_mem_cons.mp (hcodes _ (List.getElem_mem hi))
    obtain ⟨next, hadvance, hop, hnext⟩ := advance_runsOn hfetch hcode hgo.blacklist
    obtain ⟨-, -, -, -, -, hblack⟩ := advance_eq_some.mp hadvance
    refine ⟨_, next, hadvance, hblack, fun hpending => ⟨_, hop, ?_⟩⟩
    have hpost' : next.ctx.postCode = (ops[st.ctx.opKeyIndex.toNat - k]).postCode := hnext
    rw [hpost'] at hpending ⊢
    rw [if_neg hpending] at hrest
    exact hrest _ (List.mem_singleton_self _)
  · obtain ⟨op, hop, hcode⟩ := hgo.pending hpost
    obtain ⟨next, hadvance, -, hnext⟩ :=
      advance_runsOn (fetch_pending hop hpost) hcode hgo.blacklist
    obtain ⟨-, -, -, -, -, hblack⟩ := advance_eq_some.mp hadvance
    exact ⟨_, next, hadvance, hblack, fun hpending => absurd hnext hpending⟩

/-- Nothing in a list of such ops ends `read_args`. -/
theorem noExit_of_runsOn (hmax : maxOp < 2 ^ 32) {k : Nat} {ops : List OpConfig}
    {st : LoopState} (hkeys : KeysAt env keys k ops)
    (hcodes : ∀ op ∈ ops, ∀ x ∈ op.steps, runsOn x = true) (hat : st.AtOp k)
    (hzero : st.ctx.loopCount = 0) (hblack : st.ctx.matchBlacklist = false)
    (hquiet : NoTerminator env keys (k + ops.length) st) :
    NoExit env keys (k + ops.length) st := by
  have hreach (xs : List (OpConfig × OpCode)) : ∀ st s : LoopState, st.InList k → st.Ongoing →
      NoTerminator env keys (k + ops.length) st →
      (interpreter env keys).Within (LoopState.Before (k + ops.length)) st xs s →
      s.InList k ∧ s.Ongoing := by
    induction xs with
    | nil =>
        intro st s hin hgo _ hw
        obtain rfl := Option.some.inj hw.1
        exact ⟨hin, hgo⟩
    | cons x xs ih =>
        intro st s hin hgo hquiet hw
        obtain ⟨mid, hstep, hrest⟩ := Machine.run_cons_eq_some.mp hw.1
        have hadvance := interpreter_step.mp hstep
        have hmid := hw.2.2 mid hstep
        have hone := Machine.within_cons hw.2.1 hstep
          (Machine.within_nil (Machine.throughout_head hmid))
        obtain ⟨y, next, hnext, hgo'⟩ := advance_ongoing hkeys hcodes hin hw.2.1 hgo
        obtain ⟨rfl, rfl⟩ := Prod.mk.inj (Option.some.inj (hnext.symm.trans hadvance))
        exact ih next s
          (inList_advance hmax hin (advance_loopCount · hw.2.1 hquiet hadvance) hadvance) hgo'
          (hquiet.of_within hone) ⟨hrest, hmid⟩
  intro xs s hw hnone
  obtain ⟨hin, hgo⟩ := hreach xs st s (inList_atOp hat hzero) (ongoing_atOp hat hblack) hquiet hw
  obtain ⟨x, next, hadvance, -⟩ := advance_ongoing hkeys hcodes hin
    (hw.of_prefix (List.prefix_refl _) hw.1) hgo
  rw [hadvance] at hnone
  cases hnone

end Runs

/-! ## The start of the list -/

section Start

variable {maxOp : Nat} {env : ProbeEnv} {keys : Vector u32 maxOp}

/-- `st` is where the first op of the list is fetched: at once, or after the code that the event
before has left pending. -/
def LoopState.ListStart (env : ProbeEnv) (keys : Vector u32 maxOp) (enter st : LoopState) :
    Prop :=
  ∃ pre, pre.length ≤ 1 ∧ (interpreter env keys).run enter pre = some st ∧ st.AtOp 0

/-- No code writes `reg_0`. -/
theorem execOp_reg0 (env : ProbeEnv) (op : OpConfig) (code : OpCode) (st : OpState) :
    (execOp env op code st).2.data.reg0 = st.data.reg0 := by
  cases code
  case readReg | filterValue | filterBuffer =>
    unfold execOp
    dsimp only
    repeat' split
    all_goals rfl
  case filterString =>
    unfold execOp
    dsimp only
    split
    · rfl
    · unfold OpState.filterString
      dsimp only
      split <;> rfl
  all_goals rfl

/-- Without a loop no code opens one. -/
theorem execOp_loopCount_zero {op : OpConfig} {code : OpCode} {st : OpState}
    (hloop : st.data.loopCount = 0) (hbreak : st.data.breakCount = 0) :
    (execOp env op code st).2.data.loopCount = 0 := by
  by_cases hptr : code = .savePtrString
  · subst hptr
    rcases savePtrString_loopCount env.mem st with hsame | hset
    · exact hsame.trans hloop
    · exact hset.trans hbreak
  · exact (execOp_loopCount env op st hptr).trans hloop

/-- What a pending code leaves as it is. -/
theorem advance_kept {st next : LoopState} {x : OpConfig × OpCode}
    (hloop : st.ctx.loopCount = 0) (hbreak : st.ctx.breakCount = 0)
    (h : st.advance env keys = some (x, next)) :
    next.ctx.reg0 = st.ctx.reg0 ∧ next.ctx.loopCount = 0 := by
  obtain ⟨mid, hfetch, hcode, -, hexec, -⟩ := advance_eq_some.mp h
  have hmid := fetch_opState hfetch
  by_cases hfor : x.2 = .forBreak
  · unfold LoopState.exec at hexec
    rw [if_pos (hcode.trans hfor)] at hexec
    obtain ⟨-, rfl⟩ := Prod.mk.inj hexec
    have hloop' : mid.ctx.loopCount = 0 := (congrArg (fun o => o.data.loopCount) hmid).trans hloop
    have hbreak' : mid.ctx.breakCount = 0 :=
      (congrArg (fun o => o.data.breakCount) hmid).trans hbreak
    have hlast : mid.ctx.forBreak =
        { mid.ctx with loopCount := 0, breakCount := 0, loopIndex := 0 } :=
      forBreak_last (by rw [hloop', hbreak'])
    dsimp only
    rw [hlast]
    exact ⟨congrArg (fun o => o.data.reg0) hmid, rfl⟩
  · have hstate := advance_opState hfor h
    constructor
    · exact (congrArg (fun o => o.data.reg0) hstate).trans (execOp_reg0 env x.1 x.2 st.opState)
    · exact (congrArg (fun o => o.data.loopCount) hstate).trans (execOp_loopCount_zero hloop hbreak)

theorem listStart_kept {enter st : LoopState} (h : LoopState.ListStart env keys enter st)
    (hloop : enter.ctx.loopCount = 0) (hbreak : enter.ctx.breakCount = 0)
    (hblack : enter.ctx.matchBlacklist = false) :
    st.AtOp 0 ∧ st.ctx.reg0 = enter.ctx.reg0 ∧ st.ctx.loopCount = 0 ∧
      st.ctx.matchBlacklist = false := by
  obtain ⟨pre, hlen, hrun, hat⟩ := h
  cases pre with
  | nil =>
      obtain rfl := Option.some.inj hrun
      exact ⟨hat, rfl, hloop, hblack⟩
  | cons x pre =>
      have hnone : pre.length = 0 := Nat.le_zero.mp (Nat.le_of_succ_le_succ hlen)
      obtain rfl : pre = [] := List.eq_nil_of_length_eq_zero hnone
      obtain ⟨next, hstep, hnil⟩ := Machine.run_cons_eq_some.mp hrun
      obtain rfl := Option.some.inj hnil
      obtain ⟨hreg, hcount⟩ := advance_kept hloop hbreak (interpreter_step.mp hstep)
      exact ⟨hat, hreg, hcount, run_matchBlacklist hblack hrun⟩

end Start

end Stackplz
