import Stackplz.Basic.Machine
import Stackplz.Probe.StraightLine

/-!
# The interpreter as a machine

The loop of `read_args` is a machine whose steps are its iterations: each is labelled with the
op and the code that it executes, and ends in the state in which the next iteration starts. An
iteration that ends the loop is no step. A run of the machine names the codes that were
executed, in order, so that statements about how often and in which state a code is executed
are statements about runs.
-/

set_option autoImplicit false

namespace Stackplz

/-- One iteration that lets the loop go on: what it executes and the state it leaves. -/
def LoopState.advance {maxOp : Nat} (env : ProbeEnv) (keys : Vector u32 maxOp) (st : LoopState) :
    Option ((OpConfig × OpCode) × LoopState) :=
  match st.fetch env keys with
  | none => none
  | some (op, mid) =>
      if mid.ctx.opCode = .skip then none
      else
        match mid.exec env op with
        | (false, _) => none
        | (true, next) =>
            if next.ctx.matchBlacklist then none else some ((op, mid.ctx.opCode), next)

/-- The loop of `read_args` without its bound on the iterations. -/
def interpreter {maxOp : Nat} (env : ProbeEnv) (keys : Vector u32 maxOp) :
    Machine LoopState (OpConfig × OpCode) where
  step st x := (st.advance env keys).bind fun next => if next.1 = x then some next.2 else none

section Advance

variable {maxOp : Nat} {env : ProbeEnv} {keys : Vector u32 maxOp}

theorem advance_eq_some {st next : LoopState} {x : OpConfig × OpCode} :
    st.advance env keys = some (x, next) ↔ ∃ mid, st.fetch env keys = some (x.1, mid) ∧
      mid.ctx.opCode = x.2 ∧ x.2 ≠ .skip ∧ mid.exec env x.1 = (true, next) ∧
      next.ctx.matchBlacklist = false := by
  obtain ⟨op, code⟩ := x
  unfold LoopState.advance
  constructor
  · intro h
    cases hfetch : st.fetch env keys with
    | none =>
        rw [hfetch] at h
        cases h
    | some y =>
        obtain ⟨op', mid⟩ := y
        rw [hfetch] at h
        dsimp only at h
        split at h
        · cases h
        · rename_i hskip
          cases hexec : mid.exec env op' with
          | mk goesOn o =>
              rw [hexec] at h
              cases goesOn with
              | false => cases h
              | true =>
                  dsimp only at h
                  split at h
                  · cases h
                  · rename_i hblack
                    obtain ⟨hx, rfl⟩ := Prod.mk.inj (Option.some.inj h)
                    obtain ⟨rfl, rfl⟩ := Prod.mk.inj hx
                    exact ⟨mid, rfl, rfl, hskip, hexec, Bool.eq_false_of_not_eq_true hblack⟩
  · rintro ⟨mid, hfetch, rfl, hskip, hexec, hblack⟩
    have hblack' : ¬ next.ctx.matchBlacklist = true := by
      rw [hblack]
      exact Bool.false_ne_true
    rw [hfetch]
    dsimp only at hskip hexec ⊢
    rw [if_neg hskip, hexec]
    exact if_neg hblack'

theorem interpreter_step {st next : LoopState} {x : OpConfig × OpCode} :
    (interpreter env keys).step st x = some next ↔ st.advance env keys = some (x, next) := by
  show (st.advance env keys).bind (fun next => if next.1 = x then some next.2 else none) =
    some next ↔ _
  rw [Option.bind_eq_some_iff]
  constructor
  · rintro ⟨⟨y, mid⟩, hadvance, hnext⟩
    split at hnext
    · rename_i hy
      obtain rfl : y = x := hy
      obtain rfl := Option.some.inj hnext
      exact hadvance
    · cases hnext
  · intro hadvance
    exact ⟨(x, next), hadvance, if_pos rfl⟩

/-- An iteration that goes on is followed by the rest of the loop. -/
theorem readArgsLoop_advance {n : Nat} {st next : LoopState} {x : OpConfig × OpCode}
    (h : st.advance env keys = some (x, next)) :
    readArgsLoop env keys (n + 1) st = readArgsLoop env keys n next := by
  obtain ⟨mid, hfetch, hcode, hskip, hexec, hblack⟩ := advance_eq_some.mp h
  have hblack' : ¬ next.ctx.matchBlacklist = true := by
    rw [hblack]
    exact Bool.false_ne_true
  rw [readArgsLoop, hfetch]
  dsimp only
  rw [if_neg (hcode ▸ hskip), hexec]
  exact if_neg hblack'

/-- An iteration that does not go on ends the loop, for a reason that is not the bound. -/
theorem readArgsLoop_stuck {st : LoopState} (h : st.advance env keys = none) :
    ∃ reason st', reason ≠ .bound ∧
      ∀ n, readArgsLoop env keys (n + 1) st = (reason, st') := by
  unfold LoopState.advance at h
  cases hfetch : st.fetch env keys with
  | none =>
      refine ⟨.returned, st, by decide, fun n => ?_⟩
      rw [readArgsLoop, hfetch]
  | some y =>
      obtain ⟨op, mid⟩ := y
      rw [hfetch] at h
      dsimp only at h
      by_cases hskip : mid.ctx.opCode = .skip
      · refine ⟨.done, mid, by decide, fun n => ?_⟩
        rw [readArgsLoop, hfetch]
        exact if_pos hskip
      · rw [if_neg hskip] at h
        cases hexec : mid.exec env op with
        | mk goesOn o =>
            rw [hexec] at h
            cases goesOn with
            | false =>
                refine ⟨.returned, o, by decide, fun n => ?_⟩
                rw [readArgsLoop, hfetch]
                dsimp only
                rw [if_neg hskip, hexec]
            | true =>
                dsimp only at h
                split at h
                · rename_i hblack
                  refine ⟨.blacklisted, o, by decide, fun n => ?_⟩
                  rw [readArgsLoop, hfetch]
                  dsimp only
                  rw [if_neg hskip, hexec]
                  exact if_pos hblack
                · cases h

/-- The iterations of a run are the first iterations of the loop. -/
theorem readArgsLoop_of_run {xs : List (OpConfig × OpCode)} {st next : LoopState} (n : Nat)
    (h : (interpreter env keys).run st xs = some next) :
    readArgsLoop env keys (xs.length + n) st = readArgsLoop env keys n next := by
  induction xs generalizing st with
  | nil =>
      obtain rfl := Option.some.inj h
      rw [List.length_nil, Nat.zero_add]
  | cons x xs ih =>
      obtain ⟨mid, hstep, hrest⟩ := Machine.run_cons_eq_some.mp h
      rw [List.length_cons, Nat.add_right_comm, readArgsLoop_advance (interpreter_step.mp hstep)]
      exact ih hrest

/-- The loop meets its bound exactly when it has that many iterations to run. -/
theorem readArgsLoop_bound_iff {n : Nat} {st st' : LoopState} :
    readArgsLoop env keys n st = (.bound, st') ↔
      ∃ xs, xs.length = n ∧ (interpreter env keys).run st xs = some st' := by
  constructor
  · intro h
    induction n generalizing st with
    | zero =>
        obtain rfl : st = st' := (Prod.mk.inj h).2
        exact ⟨[], rfl, rfl⟩
    | succ n ih =>
        cases hadvance : st.advance env keys with
        | none =>
            obtain ⟨reason, st'', hreason, hend⟩ := readArgsLoop_stuck hadvance
            rw [hend n] at h
            exact absurd (Prod.mk.inj h).1 hreason
        | some y =>
            rw [readArgsLoop_advance hadvance] at h
            obtain ⟨xs, hlen, hrun⟩ := ih h
            refine ⟨y.1 :: xs, congrArg (· + 1) hlen, ?_⟩
            exact Machine.run_cons_eq_some.mpr ⟨y.2, interpreter_step.mpr hadvance, hrun⟩
  · rintro ⟨xs, rfl, hrun⟩
    have hloop := readArgsLoop_of_run 0 hrun
    rw [Nat.add_zero] at hloop
    exact hloop

/-- The state says which op and code are executed next. -/
theorem interpreter_deterministic : (interpreter env keys).Deterministic := by
  intro st x y next next' hx hy
  have hsame := (interpreter_step.mp hx).symm.trans (interpreter_step.mp hy)
  exact (Prod.mk.inj (Option.some.inj hsame)).1

/-- A loop that does not meet its bound has room for each of its runs. -/
theorem length_lt_of_run {n : Nat} {xs : List (OpConfig × OpCode)} {st next : LoopState}
    (hbound : (readArgsLoop env keys n st).1 ≠ .bound)
    (h : (interpreter env keys).run st xs = some next) : xs.length < n := by
  by_contra hle
  rw [← List.take_append_drop n xs] at h
  obtain ⟨mid, hmid, -⟩ := Machine.run_append_eq_some.mp h
  have hlen : (xs.take n).length = n := by
    rw [List.length_take]
    omega
  have hloop := readArgsLoop_bound_iff.mpr ⟨xs.take n, hlen, hmid⟩
  exact hbound (congrArg Prod.fst hloop)

theorem readArgsLoop_eq_done {n : Nat} {st : LoopState}
    (h : (readArgsLoop env keys n st).1 = .done) :
    readArgsLoop env keys n st = (.done, (readArgsLoop env keys n st).2) :=
  Prod.ext h rfl

theorem ne_bound_of_done {n : Nat} {st : LoopState}
    (h : (readArgsLoop env keys n st).1 = .done) : (readArgsLoop env keys n st).1 ≠ .bound := by
  rw [h]
  exact LoopEnd.noConfusion

/-- What holds after any number of iterations holds at the end of every run. -/
theorem run_of_iterations (P : LoopState → Prop) {n : Nat} {xs : List (OpConfig × OpCode)}
    {st next : LoopState} (hbound : (readArgsLoop env keys n st).1 ≠ .bound)
    (hall : ∀ m < n, P (readArgsLoop env keys m st).2)
    (h : (interpreter env keys).run st xs = some next) : P next := by
  have hlen : xs.length < n := length_lt_of_run hbound h
  have hloop := readArgsLoop_bound_iff.mpr ⟨xs, rfl, h⟩
  have hnext := hall xs.length hlen
  rwa [hloop] at hnext

/-! ## Iterations of an op list -/

/-- What is fetched is the pending `post_code`, or the op that the next key leads to. -/
theorem fetch_cases {st mid : LoopState} {op : OpConfig}
    (h : st.fetch env keys = some (op, mid)) :
    st.ctx.postCode ≠ .skip ∧ mid = st.fetchedPost ∨
      (∃ hk : st.ctx.opKeyIndex.toNat < maxOp,
        env.opList.lookup keys[st.ctx.opKeyIndex.toNat] = some op) ∧ mid = st.fetched op := by
  have hkey (h : LoopState.fetch.fetchKey keys st env = some (op, mid)) :
      (∃ hk : st.ctx.opKeyIndex.toNat < maxOp,
        env.opList.lookup keys[st.ctx.opKeyIndex.toNat] = some op) ∧ mid = st.fetched op := by
    unfold LoopState.fetch.fetchKey at h
    split at h
    · rename_i hk
      obtain ⟨op', hlookup, hmid⟩ := Option.map_eq_some_iff.mp h
      obtain ⟨rfl, rfl⟩ := Prod.mk.inj hmid
      exact ⟨⟨hk, hlookup⟩, rfl⟩
    · cases h
  unfold LoopState.fetch at h
  split at h
  · split at h
    · rename_i hpost
      obtain ⟨rfl, rfl⟩ := Prod.mk.inj (Option.some.inj h)
      exact Or.inl ⟨hpost, rfl⟩
    · exact Or.inr (hkey h)
  · exact Or.inr (hkey h)

/-- The fetch is a matter of the control part. -/
theorem fetch_opState {st mid : LoopState} {op : OpConfig}
    (h : st.fetch env keys = some (op, mid)) : mid.opState = st.opState := by
  rcases fetch_cases h with ⟨-, rfl⟩ | ⟨-, rfl⟩ <;> rfl

theorem fetch_loopIndex {st mid : LoopState} {op : OpConfig}
    (h : st.fetch env keys = some (op, mid)) : mid.ctx.loopIndex = st.ctx.loopIndex := by
  rcases fetch_cases h with ⟨-, rfl⟩ | ⟨-, rfl⟩ <;> rfl

/-- The iteration that fetches and executes the code of the next op. -/
theorem advance_atOp {st : LoopState} {k : Nat} {op : OpConfig} {o : OpState} (hat : st.AtOp k)
    (hk : k < maxOp) (hkey : env.opList.lookup keys[k] = some op) (hskip : op.code ≠ .skip)
    (hfor : op.code ≠ .forBreak) (hexec : execOp env op op.code st.opState = (true, o))
    (hblack : o.data.matchBlacklist = false) :
    st.advance env keys = some ((op, op.code), (st.fetched op).withOpState o) := by
  have hexec' : (st.fetched op).exec env op = (true, (st.fetched op).withOpState o) := by
    rw [exec_of_ne (show (st.fetched op).ctx.opCode ≠ .forBreak from hfor)]
    show ((execOp env op op.code st.opState).1, (st.fetched op).withOpState
      (execOp env op op.code st.opState).2) = _
    rw [hexec]
  exact advance_eq_some.mpr ⟨_, fetch_atOp hat hk hkey, rfl, hskip, hexec', hblack⟩

/-- The iteration that executes a pending `post_code`. -/
theorem advance_pending {st : LoopState} {op : OpConfig} {o : OpState} (hop : st.op = some op)
    (hskip : st.ctx.postCode ≠ .skip) (hfor : st.ctx.postCode ≠ .forBreak)
    (hexec : execOp env op st.ctx.postCode st.opState = (true, o))
    (hblack : o.data.matchBlacklist = false) :
    st.advance env keys = some ((op, st.ctx.postCode), st.fetchedPost.withOpState o) := by
  have hexec' : st.fetchedPost.exec env op = (true, st.fetchedPost.withOpState o) := by
    rw [exec_of_ne (show st.fetchedPost.ctx.opCode ≠ .forBreak from hfor)]
    show ((execOp env op st.ctx.postCode st.opState).1, st.fetchedPost.withOpState
      (execOp env op st.ctx.postCode st.opState).2) = _
    rw [hexec]
  exact advance_eq_some.mpr ⟨_, fetch_pending hop hskip, rfl, hskip, hexec', hblack⟩

/-- The codes that neither end nor repeat the loop, `OP_SAVE_PTR_STRING` among them. -/
def OpCode.isForward (code : OpCode) : Bool := code != .skip && code != .forBreak

theorem OpCode.isForward_iff {code : OpCode} :
    code.isForward = true ↔ code ≠ .skip ∧ code ≠ .forBreak := by
  unfold OpCode.isForward
  rw [Bool.and_eq_true, bne_iff_ne, bne_iff_ne]

def OpConfig.isForward (op : OpConfig) : Bool := op.steps.all fun x => x.2.isForward

/-- The machine runs an op whose codes can be executed. -/
theorem run_op (hmax : maxOp < 2 ^ 32) {st : LoopState} {k : Nat} {op : OpConfig} {o : OpState}
    {log : List Saved} (hat : st.AtOp k) (hk : k < maxOp)
    (hkey : env.opList.lookup keys[k] = some op) (hforward : op.isForward = true)
    (h : runSteps env op.steps st.opState = some (log, o)) :
    ∃ next, (interpreter env keys).run st op.steps = some next ∧ next.AtOp (k + 1) ∧
      next.opState = o := by
  have hindex : (st.ctx.opKeyIndex + 1).toNat = k + 1 := by
    rw [BitVec.toNat_add, hat.2]
    show (k + 1) % 2 ^ 32 = k + 1
    omega
  obtain ⟨hcode, hrest⟩ := List.forall_mem_cons.mp (List.all_eq_true.mp hforward)
  obtain ⟨hskip, hfor⟩ := OpCode.isForward_iff.mp hcode
  obtain ⟨_, mid, _, hstep, hpostRun, -⟩ := runSteps_cons.mp h
  obtain ⟨hexec, hblack, -⟩ := step_eq_some.mp hstep
  have hfirst := advance_atOp hat hk hkey hskip hfor hexec hblack
  unfold OpConfig.steps
  by_cases hpost : op.postCode = .skip
  · rw [if_pos hpost] at hpostRun ⊢
    obtain ⟨-, rfl⟩ := Prod.mk.inj (Option.some.inj hpostRun)
    exact ⟨_, Machine.run_cons_eq_some.mpr ⟨_, interpreter_step.mpr hfirst, rfl⟩,
      ⟨hpost, hindex⟩, rfl⟩
  · rw [if_neg hpost] at hrest hpostRun ⊢
    obtain ⟨hskip', hfor'⟩ :=
      OpCode.isForward_iff.mp (hrest (op, op.postCode) (List.mem_singleton_self _))
    obtain ⟨_, last, _, hstep', hnil, -⟩ := runSteps_cons.mp hpostRun
    obtain ⟨hexec', hblack', -⟩ := step_eq_some.mp hstep'
    obtain ⟨-, rfl⟩ := Prod.mk.inj (Option.some.inj hnil)
    have hsecond : ((st.fetched op).withOpState mid).advance env keys =
        some ((op, op.postCode), ((st.fetched op).withOpState mid).fetchedPost.withOpState last) :=
      advance_pending rfl hskip' hfor' hexec' hblack'
    exact ⟨_, Machine.run_cons_eq_some.mpr ⟨_, interpreter_step.mpr hfirst,
      Machine.run_cons_eq_some.mpr ⟨_, interpreter_step.mpr hsecond, rfl⟩⟩, ⟨rfl, hindex⟩, rfl⟩

/-- The machine runs a list of ops whose codes can be executed. -/
theorem run_ops (hmax : maxOp < 2 ^ 32) {ops : List OpConfig} {st : LoopState} {k : Nat}
    {o : OpState} {log : List Saved} (hat : st.AtOp k) (hkeys : KeysAt env keys k ops)
    (hforward : ∀ op ∈ ops, op.isForward = true)
    (h : runSteps env (ops.flatMap OpConfig.steps) st.opState = some (log, o)) :
    ∃ next, (interpreter env keys).run st (ops.flatMap OpConfig.steps) = some next ∧
      next.AtOp (k + ops.length) ∧ next.opState = o := by
  induction ops generalizing st k log with
  | nil =>
      obtain ⟨-, rfl⟩ := Prod.mk.inj (Option.some.inj h)
      exact ⟨st, rfl, hat, rfl⟩
  | cons op ops ih =>
      obtain ⟨hop, hops⟩ := List.forall_mem_cons.mp hforward
      obtain ⟨⟨hk, hkey⟩, hkeys'⟩ := keysAt_cons hkeys
      rw [List.flatMap_cons] at h ⊢
      obtain ⟨first, mid, rest, hfirst, hrest, -⟩ := runSteps_append.mp h
      obtain ⟨st₁, hrun₁, hat₁, rfl⟩ := run_op hmax hat hk hkey hop hfirst
      obtain ⟨st₂, hrun₂, hat₂, rfl⟩ := ih hat₁ hkeys' hops hrest
      have hsum : k + (ops.length + 1) = k + 1 + ops.length := by omega
      refine ⟨st₂, Machine.run_append_eq_some.mpr ⟨st₁, hrun₁, hrun₂⟩, ?_, rfl⟩
      rw [List.length_cons, hsum]
      exact hat₂

/-- What an iteration other than `OP_FOR_BREAK` does to the data is its step. -/
theorem advance_step {st next : LoopState} {x : OpConfig × OpCode} (hfor : x.2 ≠ .forBreak)
    (h : st.advance env keys = some (x, next)) :
    ∃ log, st.opState.step env x = some (log, next.opState) := by
  obtain ⟨mid, hfetch, hcode, -, hexec, hblack⟩ := advance_eq_some.mp h
  rw [exec_of_ne (hcode ▸ hfor), hcode, fetch_opState hfetch] at hexec
  obtain ⟨hgoes, rfl⟩ := Prod.mk.inj hexec
  exact ⟨_, step_eq_some.mpr ⟨Prod.ext hgoes rfl, hblack, rfl⟩⟩

theorem advance_opState {st next : LoopState} {x : OpConfig × OpCode} (hfor : x.2 ≠ .forBreak)
    (h : st.advance env keys = some (x, next)) :
    next.opState = (execOp env x.1 x.2 st.opState).2 := by
  obtain ⟨log, hstep⟩ := advance_step hfor h
  rw [(step_eq_some.mp hstep).1]

/-- What a run without `OP_FOR_BREAK` does to the data are its steps. -/
theorem run_runSteps {xs : List (OpConfig × OpCode)} {st next : LoopState}
    (hfor : ∀ x ∈ xs, x.2 ≠ .forBreak) (h : (interpreter env keys).run st xs = some next) :
    ∃ log, runSteps env xs st.opState = some (log, next.opState) := by
  induction xs generalizing st with
  | nil =>
      obtain rfl := Option.some.inj h
      exact ⟨[], rfl⟩
  | cons x xs ih =>
      obtain ⟨hx, hxs⟩ := List.forall_mem_cons.mp hfor
      obtain ⟨mid, hstep, hrest⟩ := Machine.run_cons_eq_some.mp h
      obtain ⟨first, hfirst⟩ := advance_step hx (interpreter_step.mp hstep)
      obtain ⟨rest, hsteps⟩ := ih hxs hrest
      exact ⟨first ++ rest, runSteps_cons.mpr ⟨first, mid.opState, rest, hfirst, hsteps, rfl⟩⟩

/-- With no op pending the machine gets to the first op, after a round on a cleared
`post_code` if there is one. -/
theorem run_enter {st : LoopState} {op : OpConfig} (hop : st.op = some op)
    (hidle : st.ctx.Idle) (hindex : st.ctx.opKeyIndex = 0)
    (hblack : st.ctx.matchBlacklist = false) :
    ∃ pre next, pre.length ≤ 1 ∧ (interpreter env keys).run st pre = some next ∧
      next.AtOp 0 ∧ next.opState = st.opState := by
  have hzero : st.ctx.opKeyIndex.toNat = 0 := by rw [hindex]; rfl
  rcases hidle with hpost | hpost
  · have hexec : execOp env op st.ctx.postCode st.opState = (true, st.opState) := by
      rw [hpost]
      rfl
    have hadvance : st.advance env keys =
        some ((op, st.ctx.postCode), st.fetchedPost.withOpState st.opState) :=
      advance_pending hop (by rw [hpost]; decide) (by rw [hpost]; decide) hexec hblack
    exact ⟨[(op, st.ctx.postCode)], _, Nat.le_refl 1,
      Machine.run_cons_eq_some.mpr ⟨_, interpreter_step.mpr hadvance, rfl⟩, ⟨rfl, hzero⟩, rfl⟩
  · exact ⟨[], st, Nat.zero_le 1, rfl, ⟨hpost, hzero⟩, rfl⟩

/-- A probe gets to the first op of its list. -/
theorem run_probeEnter (keys : Vector u32 maxOp) (p : Probe) {op : OpConfig}
    (hop : env.opList.lookup 0 = some op) (ret : u64) {leftover : OpCtx}
    (hidle : leftover.Idle) (event : EventData) (strBuf : StrBufMap) :
    ∃ pre next, pre.length ≤ 1 ∧
      (interpreter env keys).run (p.enter env ret leftover event strBuf) pre = some next ∧
      next.AtOp 0 ∧ next.opState = (p.enter env ret leftover event strBuf).opState :=
  run_enter hop hidle rfl rfl

end Advance

end Stackplz
