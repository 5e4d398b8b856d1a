import Stackplz.Probe.Progress
import Stackplz.Probe.Verdict

/-!
# Iterations that a list of ops takes

`read_args` makes `MAX_OP_COUNT` iterations, and each executes one code. `LoopState.Leads` says
that a list of ops is got through with a number of codes, unless a black list ends the loop
before. Lists one after the other take as many codes as they do together (`Leads.trans`), so
whether the loop gets to its terminator is a matter of a sum.
-/

set_option autoImplicit false

namespace Stackplz

/-- The loop has read all arguments, or a black list keeps the event from being reported. -/
def LoopEnd.completes : LoopEnd → Bool
  | .done | .blacklisted => true
  | .bound | .returned => false

/-- No op is pending, no loop is open, and the op at `k` comes next. -/
structure LoopState.Ready (st : LoopState) (k : Nat) : Prop where
  atOp : st.AtOp k
  loopCount : st.ctx.loopCount = 0
  matchBlacklist : st.ctx.matchBlacklist = false

section Leads

variable {maxOp : Nat} {env : ProbeEnv} {keys : Vector u32 maxOp}

/-- The next iteration finds a match of a black list, and is the last one. -/
def LoopState.Rejects (env : ProbeEnv) (keys : Vector u32 maxOp) (st : LoopState) : Prop :=
  ∀ n, (readArgsLoop env keys (n + 1) st).1 = .blacklisted

/-- From `st` the loop gets to a state in `P` with at most `c` codes, unless a black list ends it
before. In a process that is `calm` no black list does, and it takes all `c` codes. -/
def LoopState.Leads (env : ProbeEnv) (keys : Vector u32 maxOp) (calm : Prop) (c : Nat)
    (st : LoopState) (P : LoopState → Prop) : Prop :=
  ∃ xs mid, (interpreter env keys).run st xs = some mid ∧
    (P mid ∧ xs.length ≤ c ∧ (calm → xs.length = c) ∨
      mid.Rejects env keys ∧ xs.length < c ∧ ¬ calm)

variable {calm : Prop} {c c' : Nat} {st : LoopState} {P Q : LoopState → Prop}

theorem leads_nil (h : P st) : st.Leads env keys calm 0 P :=
  ⟨[], st, rfl, Or.inl ⟨h, Nat.le_refl 0, fun _ => rfl⟩⟩

theorem leads_of_run {xs : List (OpConfig × OpCode)} {next : LoopState}
    (hrun : (interpreter env keys).run st xs = some next) (h : P next) :
    st.Leads env keys calm xs.length P :=
  ⟨xs, next, hrun, Or.inl ⟨h, Nat.le_refl _, fun _ => rfl⟩⟩

/-- One after the other. -/
theorem LoopState.Leads.trans (h : st.Leads env keys calm c P)
    (hnext : ∀ mid : LoopState, P mid → mid.Leads env keys calm c' Q) :
    st.Leads env keys calm (c + c') Q := by
  obtain ⟨xs, mid, hrun, ⟨hP, hlen, hexact⟩ | ⟨hblack, hlen, hcalm⟩⟩ := h
  · obtain ⟨ys, last, hrun', hlast⟩ := hnext mid hP
    refine ⟨xs ++ ys, last, Machine.run_append_eq_some.mpr ⟨mid, hrun, hrun'⟩, ?_⟩
    rw [List.length_append]
    rcases hlast with ⟨hQ, hlen', hexact'⟩ | ⟨hblack, hlen', hcalm⟩
    · refine Or.inl ⟨hQ, by omega, fun hc => ?_⟩
      have hxs := hexact hc
      have hys := hexact' hc
      omega
    · exact Or.inr ⟨hblack, by omega, hcalm⟩
  · exact ⟨xs, mid, hrun, Or.inr ⟨hblack, by omega, hcalm⟩⟩

/-- A straight list of ops that read no missing register takes all its codes. -/
theorem leads_ops (hmax : maxOp < 2 ^ 32) {ops : List OpConfig} {k : Nat} (hready : st.Ready k)
    (hkeys : KeysAt env keys k ops)
    (hstraight : ∀ x ∈ ops.flatMap OpConfig.steps, x.2.isStraight = true)
    (hruns : ∀ x ∈ ops.flatMap OpConfig.steps, runsOn x = true) :
    st.Leads env keys calm (ops.flatMap OpConfig.steps).length (·.Ready (k + ops.length)) := by
  obtain ⟨next, hrun, hat, -, hcount, -⟩ :=
    run_runsOn hmax hready.atOp hkeys hstraight hruns hready.matchBlacklist
  exact leads_of_run hrun
    ⟨hat, hcount.trans hready.loopCount, run_matchBlacklist hready.matchBlacklist hrun⟩

/-! ## Filters -/

theorem OpConfig.isFilter_iff {op : OpConfig} :
    op.isFilter = true ↔
      (op.code = .filterValue ∨ op.code = .filterBuffer ∨ op.code = .filterString) ∧
        op.postCode = .skip := by
  unfold OpConfig.isFilter
  simp only [Bool.and_eq_true, decide_eq_true_eq, List.mem_cons, List.not_mem_nil, or_false]

/-- A filter that is loaded lets the loop go on, and a white list leaves `match_blacklist` as
it is. -/
theorem execOp_loaded {op : OpConfig} (hfilter : op.isFilter = true) {filter : ArgFilter}
    (hloaded : env.argFilter.lookup op.value = some filter) (st : OpState) :
    (execOp env op op.code st).1 = true ∧
      (filter.filterType = .whitelist →
        (execOp env op op.code st).2.data.matchBlacklist = st.data.matchBlacklist) := by
  obtain ⟨hcode, -⟩ := OpConfig.isFilter_iff.mp hfilter
  rcases hcode with hcode | hcode | hcode
  · rw [hcode]
    simp only [execOp, hloaded]
    refine ⟨trivial, fun hwhite => ?_⟩
    show (st.data.matchBlacklist || filterValueRejects filter st.data.regValue) = _
    unfold filterValueRejects
    rw [hwhite, Bool.or_false]
  · rw [hcode]
    simp only [execOp, hloaded]
    split <;> exact ⟨rfl, fun _ => rfl⟩
  · rw [hcode]
    simp only [execOp, hloaded]
    refine ⟨trivial, fun hwhite => ?_⟩
    unfold OpState.filterString
    simp only [hwhite]

/-- The filter op at `k`. -/
theorem leads_filter (hmax : maxOp < 2 ^ 32) {op : OpConfig} {k : Nat} (hready : st.Ready k)
    (hkeys : KeysAt env keys k [op]) (hfilter : op.isFilter = true) {filter : ArgFilter}
    (hloaded : env.argFilter.lookup op.value = some filter)
    (hcalm : calm → filter.filterType = .whitelist) :
    st.Leads env keys calm 1 (·.Ready (k + 1)) := by
  obtain ⟨hcode, hpost⟩ := OpConfig.isFilter_iff.mp hfilter
  have hskip : op.code ≠ .skip := by
    rcases hcode with hcode | hcode | hcode <;> rw [hcode] <;> decide
  have hfor : op.code ≠ .forBreak := by
    rcases hcode with hcode | hcode | hcode <;> rw [hcode] <;> decide
  have hptr : op.code ≠ .savePtrString := by
    rcases hcode with hcode | hcode | hcode <;> rw [hcode] <;> decide
  obtain ⟨⟨hk, hkey⟩, -⟩ := keysAt_cons hkeys
  obtain ⟨hgoes, hwhite⟩ := execOp_loaded hfilter hloaded st.opState
  have hexec : execOp env op op.code st.opState =
      (true, (execOp env op op.code st.opState).2) := Prod.ext hgoes rfl
  by_cases hblack : (execOp env op op.code st.opState).2.data.matchBlacklist = true
  · -- the match ends the loop in this iteration
    refine ⟨[], st, rfl, Or.inr ⟨fun n => ?_, Nat.one_pos, fun hc => ?_⟩⟩
    · have hbody : (st.fetched op).exec env op = (true, (st.fetched op).withOpState
          (execOp env op op.code st.opState).2) :=
        (exec_of_ne (show (st.fetched op).ctx.opCode ≠ .forBreak from hfor)).trans
          (congrArg (·, _) hgoes)
      rw [readArgsLoop, fetch_atOp hready.atOp hk hkey]
      dsimp only
      rw [if_neg (show (st.fetched op).ctx.opCode ≠ .skip from hskip), hbody]
      exact congrArg Prod.fst (if_pos hblack)
    · rw [hwhite (hcalm hc)] at hblack
      exact Bool.false_ne_true (hready.matchBlacklist.symm.trans hblack)
  · have hblack := Bool.eq_false_of_not_eq_true hblack
    have hstep := advance_atOp hready.atOp hk hkey hskip hfor hexec hblack
    have hindex : (st.ctx.opKeyIndex + 1).toNat = k + 1 := by
      rw [BitVec.toNat_add, hready.atOp.2]
      show (k + 1) % 2 ^ 32 = k + 1
      omega
    have hrun : (interpreter env keys).run st [(op, op.code)] = some ((st.fetched op).withOpState
        (execOp env op op.code st.opState).2) :=
      Machine.run_cons_eq_some.mpr ⟨_, interpreter_step.mpr hstep, rfl⟩
    refine leads_of_run hrun ⟨⟨hpost, hindex⟩, ?_, hblack⟩
    exact (execOp_loopCount env op st.opState hptr).trans hready.loopCount

/-- Filter ops in a row, each for a filter that is loaded. -/
theorem leads_filters (hmax : maxOp < 2 ^ 32) {ops : List OpConfig} {k : Nat}
    (hready : st.Ready k) (hkeys : KeysAt env keys k ops)
    (hfilter : ∀ op ∈ ops, op.isFilter = true)
    (hloaded : ∀ op ∈ ops, (env.argFilter.lookup op.value).isSome = true)
    (hcalm : calm → ∀ op ∈ ops, ∀ filter, env.argFilter.lookup op.value = some filter →
      filter.filterType = .whitelist) :
    st.Leads env keys calm ops.length (·.Ready (k + ops.length)) := by
  induction ops generalizing st k with
  | nil => exact leads_nil hready
  | cons op ops ih =>
      obtain ⟨hfirst, hrest⟩ := List.forall_mem_cons.mp hfilter
      obtain ⟨hop, hops⟩ := List.forall_mem_cons.mp hloaded
      obtain ⟨filter, hlookup⟩ := Option.isSome_iff_exists.mp hop
      obtain ⟨hkey, hkeys'⟩ := keysAt_append (show KeysAt env keys k ([op] ++ ops) from hkeys)
      have hcons : (op :: ops).length = 1 + ops.length := Nat.add_comm ops.length 1
      rw [hcons, ← Nat.add_assoc]
      refine (leads_filter hmax hready hkey hfirst hlookup fun hc =>
        hcalm hc op (List.mem_cons_self ..) filter hlookup).trans fun mid hmid => ?_
      exact ih hmid hkeys' hrest hops fun hc op hop => hcalm hc op (List.mem_cons_of_mem _ hop)

/-! ## The end of the loop -/

/-- With an iteration left for the terminator the loop completes. -/
theorem LoopState.Leads.completes {k n : Nat} (h : st.Leads env keys calm c (·.Ready k))
    (hk : k < maxOp) {op : OpConfig} (hkey : env.opList.lookup keys[k] = some op)
    (hskip : op.code = .skip) (hn : c < n) :
    (readArgsLoop env keys n st).1.completes = true := by
  obtain ⟨xs, mid, hrun, hend⟩ := h
  have hlen : xs.length < n := by
    rcases hend with ⟨-, hlen, -⟩ | ⟨-, hlen, -⟩ <;> omega
  obtain ⟨n', rfl⟩ : ∃ n', n = xs.length + (n' + 1) := ⟨n - xs.length - 1, by omega⟩
  rw [readArgsLoop_of_run (n' + 1) hrun]
  rcases hend with ⟨hready, -, -⟩ | ⟨hblack, -, -⟩
  · rw [readArgsLoop, fetch_atOp hready.atOp hk hkey]
    dsimp only
    rw [if_pos (show (mid.fetched op).ctx.opCode = .skip from hskip)]
    rfl
  · rw [hblack n']
    rfl

theorem ne_bound_of_completes {n : Nat} (h : (readArgsLoop env keys n st).1.completes = true) :
    (readArgsLoop env keys n st).1 ≠ .bound := by
  intro hbound
  rw [hbound] at h
  cases h

/-- A loop that completes goes on to complete, and in a calm process it has room for all codes. -/
theorem LoopState.Leads.of_completes {n : Nat} (h : st.Leads env keys calm c P) (hcalm : calm)
    (hend : (readArgsLoop env keys n st).1.completes = true) :
    ∃ n' mid, n = c + n' ∧ 0 < n' ∧ P mid ∧
      (readArgsLoop env keys n' mid).1.completes = true := by
  obtain ⟨xs, mid, hrun, ⟨hP, -, hexact⟩ | ⟨-, -, hno⟩⟩ := h
  · have hlen := length_lt_of_run (ne_bound_of_completes hend) hrun
    have hxs := hexact hcalm
    refine ⟨n - c, mid, by omega, by omega, hP, ?_⟩
    rw [← readArgsLoop_of_run (n - c) hrun, hxs, Nat.add_sub_cancel' (by omega)]
    exact hend
  · exact absurd hcalm hno

/-- A loop that completes reads no register that does not exist. -/
theorem register_of_completes {n k : Nat} (hready : st.Ready k) {op : OpConfig}
    {ops : List OpConfig} (hkeys : KeysAt env keys k (op :: ops)) (hcode : op.code = .readReg)
    (hpre : op.preCode = .setRegIndex)
    (hend : (readArgsLoop env keys n st).1.completes = true) :
    (op.value.setWidth 8).toNat < 33 := by
  by_contra hge
  obtain ⟨⟨hk, hkey⟩, -⟩ := keysAt_cons hkeys
  have hread : op.readIndex st.opState.data.regIndex = op.value.setWidth 8 := if_pos hpre
  have hexec : (execOp env op op.code st.opState).1 = false := by
    rw [hcode]
    unfold execOp
    dsimp only
    rw [hread, if_pos (Nat.le_of_not_lt hge)]
  have hfetched : (st.fetched op).ctx.opCode = .readReg := hcode
  have hbody : ((st.fetched op).exec env op).1 = false := by
    rw [exec_of_ne (by rw [hfetched]; decide)]
    exact hexec
  cases n with
  | zero => cases hend
  | succ n =>
      rw [readArgsLoop, fetch_atOp hready.atOp hk hkey] at hend
      dsimp only at hend
      rw [if_neg (by rw [hfetched]; decide)] at hend
      generalize (st.fetched op).exec env op = r at hbody hend
      obtain ⟨goesOn, next⟩ := r
      obtain rfl : goesOn = false := hbody
      cases hend

end Leads

end Stackplz
