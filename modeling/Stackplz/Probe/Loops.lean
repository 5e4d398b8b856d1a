import Stackplz.Probe.Iterations

/-!
# Loops in op lists

One op, `OP_FOR_BREAK`, is both the head and the tail of a loop. At the head it remembers where
the body starts, at the tail it goes back there until `break_count` rounds are done. The head
goes on into the body whatever the count is, so that a loop always makes its first round:
`OpLoop.executes_iff` says for which counts the number of rounds is the count.
-/

set_option autoImplicit false

namespace Stackplz

/-! ## What ops do to the counters -/

/-- The codes that set the count of a loop. -/
def OpCode.setsBreakCount : OpCode → Bool
  | .setBreakCount | .setBreakCountRegValue | .setBreakCountPointerValue => true
  | _ => false

/-- The codes other than `OP_FOR_BREAK` that write `break_count`. -/
def OpCode.writesBreakCount (code : OpCode) : Bool := code.setsBreakCount || code == .resetCtx

/-- The value from which a code sets the count. -/
def OpState.countValue (op : OpConfig) (code : OpCode) (st : OpState) : u64 :=
  match code with
  | .setBreakCount => op.value
  | .setBreakCountRegValue => st.data.regValue
  | .setBreakCountPointerValue => st.data.pointerValue
  | _ => 0

theorem execOp_setsBreakCount (env : ProbeEnv) (op : OpConfig) {code : OpCode} (st : OpState)
    (h : code.setsBreakCount = true) :
    (execOp env op code st).2.data.breakCount = breakCountOf (st.countValue op code) := by
  cases code
  case setBreakCount | setBreakCountRegValue | setBreakCountPointerValue => rfl
  all_goals cases h

theorem execOp_breakCount (env : ProbeEnv) (op : OpConfig) {code : OpCode} (st : OpState)
    (h : code.writesBreakCount = false) :
    (execOp env op code st).2.data.breakCount = st.data.breakCount := by
  cases code
  case readReg | filterValue | filterBuffer =>
    unfold execOp
    dsimp only
    repeat' split
    all_goals rfl
  case filterString =>
    unfold execOp
    dsimp only
    split
    · rfl
    · unfold OpState.filterString
      dsimp only
      split <;> rfl
  all_goals first | rfl | cases h

/-- Only a string that cannot be saved makes an op change `loop_count`. -/
theorem execOp_loopCount (env : ProbeEnv) (op : OpConfig) {code : OpCode} (st : OpState)
    (h : code ≠ .savePtrString) :
    (execOp env op code st).2.data.loopCount = st.data.loopCount := by
  cases code
  case readReg | filterValue | filterBuffer =>
    unfold execOp
    dsimp only
    repeat' split
    all_goals rfl
  case filterString =>
    unfold execOp
    dsimp only
    split
    · rfl
    · unfold OpState.filterString
      dsimp only
      split <;> rfl
  case savePtrString => exact absurd rfl h
  all_goals rfl

/-- `OP_SAVE_PTR_STRING` leaves the counter alone, or sets it to the count. -/
theorem savePtrString_loopCount (mem : UserMem) (st : OpState) :
    (st.savePtrString mem).data.loopCount = st.data.loopCount ∨
      (st.savePtrString mem).data.loopCount = st.data.breakCount := by
  unfold OpState.savePtrString
  dsimp only
  split
  · exact Or.inl rfl
  · exact Or.inr rfl

/-- The count is cut down to `MAX_LOOP_COUNT`. -/
theorem toNat_breakCountOf (value : u64) : (breakCountOf value).toNat = min value.toNat 32 := by
  have hmax : (maxLoopCount.setWidth 64).toNat = 32 := by decide
  unfold breakCountOf
  split
  · rename_i hlt
    have hlt : value.toNat < 32 := hmax ▸ hlt
    rw [BitVec.toNat_setWidth, Nat.mod_eq_of_lt (by omega), Nat.min_eq_left (by omega)]
  · rename_i hge
    have hge : 32 ≤ value.toNat := hmax ▸ Nat.le_of_not_lt hge
    rw [Nat.min_eq_right hge]
    rfl

/-! ## The form of a loop -/

/-- An op list `set-break-count, ..., FOR_BREAK, body, FOR_BREAK`. The count is the one that
`setter` finds: no op between it and the second `FOR_BREAK` writes `break_count` again. -/
structure OpLoop where
  setup : List OpConfig
  head : OpConfig
  body : List OpConfig
  tail : OpConfig
  first : List (OpConfig × OpCode)
  setter : OpConfig × OpCode
  others : List (OpConfig × OpCode)
  codes_setup : setup.flatMap OpConfig.steps = first ++ setter :: others
  setter_sets : setter.2.setsBreakCount = true
  others_keep : ∀ x ∈ others, x.2.writesBreakCount = false
  body_keep : ∀ x ∈ body.flatMap OpConfig.steps, x.2.writesBreakCount = false
  setup_forBreak : ∀ op ∈ setup, ∀ x ∈ op.steps, x.2 ≠ .forBreak
  body_forBreak : ∀ op ∈ body, ∀ x ∈ op.steps, x.2 ≠ .forBreak
  head_steps : head.steps = [(head, .forBreak)]
  tail_steps : tail.steps = [(tail, .forBreak)]

namespace OpLoop

theorem no_others : ∀ x ∈ ([] : List (OpConfig × OpCode)), x.2.writesBreakCount = false :=
  List.forall_mem_nil _

def ops (L : OpLoop) : List OpConfig := L.setup ++ L.head :: (L.body ++ [L.tail])

/-- The codes of the body. -/
def bodyCodes (L : OpLoop) : List (OpConfig × OpCode) := L.body.flatMap OpConfig.steps

/-- The codes of one round. -/
def round (L : OpLoop) : List (OpConfig × OpCode) := L.bodyCodes ++ [(L.tail, .forBreak)]

/-- The codes that the loop executes in `r` rounds. -/
def trace (L : OpLoop) (r : Nat) : List (OpConfig × OpCode) :=
  L.setup.flatMap OpConfig.steps ++ (L.head, .forBreak) :: (List.replicate r L.round).flatten

theorem length_trace (L : OpLoop) (r : Nat) :
    (L.trace r).length =
      (L.setup.flatMap OpConfig.steps).length + 1 + r * L.round.length := by
  unfold trace
  rw [List.length_append, List.length_cons, List.length_flatten, List.map_replicate,
    List.sum_replicate_nat]
  omega

end OpLoop

section Loop

variable {maxOp : Nat} {env : ProbeEnv} {keys : Vector u32 maxOp}

/-- The next key to fetch comes before place `last`. -/
def LoopState.Before (last : Nat) (st : LoopState) : Prop := st.ctx.opKeyIndex.toNat < last

/-- Nothing that is executed before place `last` ends `read_args`. -/
def NoExit (env : ProbeEnv) (keys : Vector u32 maxOp) (last : Nat) (st : LoopState) : Prop :=
  ∀ xs s, (interpreter env keys).Within (LoopState.Before last) st xs s →
    s.advance env keys ≠ none

/-- No string that ends an array ends the loop early: where one is found before place `last`,
the round is the last one anyhow. -/
def NoTerminator (env : ProbeEnv) (keys : Vector u32 maxOp) (last : Nat) (st : LoopState) :
    Prop :=
  ∀ xs s x next, (interpreter env keys).Within (LoopState.Before last) st xs s →
    s.advance env keys = some (x, next) → x.2 = .savePtrString →
    next.ctx.loopCount = s.ctx.loopCount

theorem NoExit.of_within {last : Nat} {st s : LoopState} {xs : List (OpConfig × OpCode)}
    (h : NoExit env keys last st)
    (hw : (interpreter env keys).Within (LoopState.Before last) st xs s) :
    NoExit env keys last s :=
  fun ys t ht => h (xs ++ ys) t (hw.append ht)

theorem NoTerminator.of_within {last : Nat} {st s : LoopState} {xs : List (OpConfig × OpCode)}
    (h : NoTerminator env keys last st)
    (hw : (interpreter env keys).Within (LoopState.Before last) st xs s) :
    NoTerminator env keys last s :=
  fun ys t x next ht => h (xs ++ ys) t x next (hw.append ht)

/-! ## One iteration -/

theorem advance_atOp_inv {st next : LoopState} {k : Nat} {op : OpConfig} {x : OpConfig × OpCode}
    (hat : st.AtOp k) (hk : k < maxOp) (hkey : env.opList.lookup keys[k] = some op)
    (h : st.advance env keys = some (x, next)) :
    x = (op, op.code) ∧ (st.fetched op).exec env op = (true, next) := by
  obtain ⟨mid, hfetch, hcode, -, hexec, -⟩ := advance_eq_some.mp h
  have hsame := (fetch_atOp hat hk hkey).symm.trans hfetch
  obtain ⟨rfl, rfl⟩ := Prod.mk.inj (Option.some.inj hsame)
  exact ⟨Prod.ext rfl hcode.symm, hexec⟩

theorem advance_pending_inv {st next : LoopState} {op : OpConfig} {x : OpConfig × OpCode}
    (hop : st.op = some op) (hpost : st.ctx.postCode ≠ .skip)
    (h : st.advance env keys = some (x, next)) :
    x = (op, st.ctx.postCode) ∧ st.fetchedPost.exec env op = (true, next) := by
  obtain ⟨mid, hfetch, hcode, -, hexec, -⟩ := advance_eq_some.mp h
  have hsame := (fetch_pending hop hpost).symm.trans hfetch
  obtain ⟨rfl, rfl⟩ := Prod.mk.inj (Option.some.inj hsame)
  exact ⟨Prod.ext rfl hcode.symm, hexec⟩

/-- An iteration other than `OP_FOR_BREAK` leaves the jump target alone. -/
theorem advance_loopIndex {st next : LoopState} {x : OpConfig × OpCode} (hfor : x.2 ≠ .forBreak)
    (h : st.advance env keys = some (x, next)) : next.ctx.loopIndex = st.ctx.loopIndex := by
  obtain ⟨mid, hfetch, hcode, -, hexec, -⟩ := advance_eq_some.mp h
  rw [exec_of_ne (hcode ▸ hfor)] at hexec
  obtain ⟨-, rfl⟩ := Prod.mk.inj hexec
  show mid.ctx.loopIndex = st.ctx.loopIndex
  exact fetch_loopIndex hfetch

theorem advance_breakCount {st next : LoopState} {x : OpConfig × OpCode} (hfor : x.2 ≠ .forBreak)
    (hkeep : x.2.writesBreakCount = false) (h : st.advance env keys = some (x, next)) :
    next.ctx.breakCount = st.ctx.breakCount := by
  show next.opState.data.breakCount = st.opState.data.breakCount
  rw [advance_opState hfor h, execOp_breakCount env x.1 st.opState hkeep]

theorem advance_setsBreakCount {st next : LoopState} {x : OpConfig × OpCode}
    (hfor : x.2 ≠ .forBreak) (hset : x.2.setsBreakCount = true)
    (h : st.advance env keys = some (x, next)) :
    next.ctx.breakCount = breakCountOf (st.opState.countValue x.1 x.2) := by
  show next.opState.data.breakCount = _
  rw [advance_opState hfor h, execOp_setsBreakCount env x.1 st.opState hset]

theorem advance_loopCount {st next : LoopState} {x : OpConfig × OpCode} {last : Nat}
    (hfor : x.2 ≠ .forBreak) (hbefore : st.Before last) (hquiet : NoTerminator env keys last st)
    (h : st.advance env keys = some (x, next)) : next.ctx.loopCount = st.ctx.loopCount := by
  by_cases hptr : x.2 = .savePtrString
  · exact hquiet [] st x next (Machine.within_nil hbefore) h hptr
  · show next.opState.data.loopCount = st.opState.data.loopCount
    rw [advance_opState hfor h, execOp_loopCount env x.1 st.opState hptr]

/-- `OP_FOR_BREAK` is a matter of the control part and the counters. -/
theorem advance_forBreak_frame {st next : LoopState} {x : OpConfig × OpCode}
    (hfor : x.2 = .forBreak) (h : st.advance env keys = some (x, next)) :
    next.event = st.event ∧ next.ctx.readAddr = st.ctx.readAddr ∧
      next.ctx.saveIndex = st.ctx.saveIndex := by
  obtain ⟨mid, hfetch, hcode, -, hexec, -⟩ := advance_eq_some.mp h
  have hmid := fetch_opState hfetch
  unfold LoopState.exec at hexec
  rw [if_pos (hcode.trans hfor)] at hexec
  obtain ⟨-, rfl⟩ := Prod.mk.inj hexec
  have hkept : mid.ctx.forBreak.readAddr = mid.ctx.readAddr ∧
      mid.ctx.forBreak.saveIndex = mid.ctx.saveIndex := by
    unfold OpCtx.forBreak
    dsimp only
    split <;> exact ⟨rfl, rfl⟩
  exact ⟨congrArg OpState.event hmid,
    hkept.1.trans (congrArg (fun o => o.data.readAddr) hmid),
    hkept.2.trans (congrArg (fun o => o.data.saveIndex) hmid)⟩

/-- A run of codes that stand by themselves appends what they save. -/
theorem run_straight {xs : List (OpConfig × OpCode)} {st next : LoopState}
    (hstraight : ∀ x ∈ xs, x.2.isStraight = true)
    (h : (interpreter env keys).run st xs = some next) (hroom : next.event.refused = false) :
    next.opState = (execSteps env xs st.opState).2 ∧ st.event.refused = false ∧
      ∃ bytes, Written (execSteps env xs st.opState).1 bytes ∧
        next.event.args = st.event.args ++ bytes := by
  have hfor : ∀ x ∈ xs, x.2 ≠ .forBreak := by
    intro x hx heq
    have hx' := hstraight x hx
    rw [heq] at hx'
    cases hx'
  obtain ⟨log, hsteps⟩ := run_runSteps hfor h
  obtain ⟨rfl, hnext⟩ := Prod.mk.inj (runSteps_eq_execSteps hsteps)
  obtain ⟨hstart, bytes, hbytes, hargs⟩ := runSteps_event hstraight hsteps hroom
  exact ⟨hnext, hstart, bytes, hbytes, hargs⟩

/-! ## A loop that reaches the terminator -/

/-- Inside the list from place `k` on, the jump target of an open loop included. -/
structure LoopState.InList (k : Nat) (st : LoopState) : Prop where
  place : k ≤ st.ctx.opKeyIndex.toNat
  target : st.ctx.loopCount ≠ 0 → k ≤ st.ctx.loopIndex.toNat

theorem inList_advance (hmax : maxOp < 2 ^ 32) {st next : LoopState} {x : OpConfig × OpCode}
    {k : Nat} (hin : st.InList k)
    (hcount : x.2 ≠ .forBreak → next.ctx.loopCount = st.ctx.loopCount)
    (h : st.advance env keys = some (x, next)) : next.InList k := by
  obtain ⟨mid, hfetch, hcode, -, hexec, -⟩ := advance_eq_some.mp h
  have hmid : k ≤ mid.ctx.opKeyIndex.toNat := by
    rcases fetch_cases hfetch with ⟨-, rfl⟩ | ⟨⟨hk, -⟩, rfl⟩
    · exact hin.place
    · have hplace := hin.place
      show k ≤ (st.ctx.opKeyIndex + 1).toNat
      rw [BitVec.toNat_add]
      show k ≤ (st.ctx.opKeyIndex.toNat + 1) % 2 ^ 32
      omega
  have htarget : mid.ctx.loopCount ≠ 0 → k ≤ mid.ctx.loopIndex.toNat := by
    have hcount : mid.ctx.loopCount = st.ctx.loopCount :=
      congrArg (fun o => o.data.loopCount) (fetch_opState hfetch)
    rw [hcount, fetch_loopIndex hfetch]
    exact hin.target
  by_cases hfor : x.2 = .forBreak
  · unfold LoopState.exec at hexec
    rw [if_pos (hcode.trans hfor)] at hexec
    obtain ⟨-, rfl⟩ := Prod.mk.inj hexec
    have hjump : k ≤ (if mid.ctx.loopCount = 0 then mid.ctx.opKeyIndex
        else mid.ctx.loopIndex).toNat := by
      split
      · exact hmid
      · rename_i hopen
        exact htarget hopen
    unfold OpCtx.forBreak
    dsimp only
    generalize (if mid.ctx.loopCount = 0 then mid.ctx.opKeyIndex else mid.ctx.loopIndex) = target
      at hjump
    split
    · exact ⟨hmid, fun hopen => absurd rfl hopen⟩
    · exact ⟨hjump, fun _ => hjump⟩
  · refine ⟨?_, fun hopen => ?_⟩
    · rw [exec_of_ne (hcode ▸ hfor)] at hexec
      obtain ⟨-, rfl⟩ := Prod.mk.inj hexec
      exact hmid
    · rw [advance_loopIndex hfor h]
      rw [hcount hfor] at hopen
      exact hin.target hopen

theorem inList_atOp {st : LoopState} {k : Nat} (hat : st.AtOp k) (hzero : st.ctx.loopCount = 0) :
    st.InList k := ⟨Nat.le_of_eq hat.2.symm, fun hopen => absurd hzero hopen⟩

/-- In a list, what is fetched is the pending `post_code` or an op of the list. -/
theorem fetch_inList {k : Nat} {ops : List OpConfig} {st mid : LoopState} {op : OpConfig}
    (hkeys : KeysAt env keys k ops) (hin : st.InList k) (hbefore : st.Before (k + ops.length))
    (h : st.fetch env keys = some (op, mid)) :
    st.ctx.postCode ≠ .skip ∧ mid = st.fetchedPost ∨ op ∈ ops ∧ mid = st.fetched op := by
  rcases fetch_cases h with hpost | ⟨⟨hk, hkey⟩, hmid⟩
  · exact Or.inl hpost
  · have hplace := hin.place
    have hlast : st.ctx.opKeyIndex.toNat < k + ops.length := hbefore
    obtain ⟨_, hop⟩ := hkeys (st.ctx.opKeyIndex.toNat - k) (by omega)
    simp only [Nat.add_sub_cancel' hplace] at hop
    obtain rfl := Option.some.inj (hop.symm.trans hkey)
    exact Or.inr ⟨List.getElem_mem _, hmid⟩

/-- A list without arrays of strings has no terminators. -/
theorem noTerminator_of_list (hmax : maxOp < 2 ^ 32) {k : Nat} {ops : List OpConfig}
    {st : LoopState} (hkeys : KeysAt env keys k ops)
    (hcodes : ∀ op ∈ ops, op.code ≠ .savePtrString ∧ op.postCode ≠ .savePtrString)
    (hat : st.AtOp k) (hzero : st.ctx.loopCount = 0) :
    NoTerminator env keys (k + ops.length) st := by
  have hskip : OpCode.skip ≠ .savePtrString := by decide
  have hstep (s t : LoopState) (x : OpConfig × OpCode) (hin : s.InList k)
      (hpost : s.ctx.postCode ≠ .savePtrString) (hbefore : s.Before (k + ops.length))
      (h : s.advance env keys = some (x, t)) :
      x.2 ≠ .savePtrString ∧ t.InList k ∧ t.ctx.postCode ≠ .savePtrString := by
    obtain ⟨mid, hfetch, hcode, -, hexec, -⟩ := advance_eq_some.mp h
    have hnext : t.ctx.postCode = mid.ctx.postCode := by
      unfold LoopState.exec at hexec
      split at hexec
      · obtain ⟨-, rfl⟩ := Prod.mk.inj hexec
        unfold OpCtx.forBreak
        dsimp only
        split <;> rfl
      · obtain ⟨-, rfl⟩ := Prod.mk.inj hexec
        rfl
    have hown : x.2 ≠ .savePtrString ∧ t.ctx.postCode ≠ .savePtrString := by
      rw [← hcode, hnext]
      rcases fetch_inList hkeys hin hbefore hfetch with ⟨-, rfl⟩ | ⟨hop, rfl⟩
      · exact ⟨hpost, hskip⟩
      · exact hcodes x.1 hop
    refine ⟨hown.1, inList_advance hmax hin (fun hfor => ?_) h, hown.2⟩
    show t.opState.data.loopCount = s.opState.data.loopCount
    rw [advance_opState hfor h, execOp_loopCount env x.1 s.opState hown.1]
  have hreach (xs : List (OpConfig × OpCode)) : ∀ st s : LoopState, st.InList k →
      st.ctx.postCode ≠ .savePtrString →
      (interpreter env keys).Within (LoopState.Before (k + ops.length)) st xs s →
      s.InList k ∧ s.ctx.postCode ≠ .savePtrString := by
    induction xs with
    | nil =>
        intro st s hin hpost hw
        obtain rfl := Option.some.inj hw.1
        exact ⟨hin, hpost⟩
    | cons x xs ih =>
        intro st s hin hpost hw
        obtain ⟨mid, hmid, hrest⟩ := Machine.run_cons_eq_some.mp hw.1
        obtain ⟨-, hin', hpost'⟩ := hstep st mid x hin hpost hw.2.1 (interpreter_step.mp hmid)
        exact ih mid s hin' hpost' ⟨hrest, hw.2.2 mid hmid⟩
  intro xs s x next hw hadvance hptr
  obtain ⟨hin, hpost⟩ := hreach xs st s (inList_atOp hat hzero) (hat.1 ▸ hskip) hw
  exact absurd hptr
    (hstep s next x hin hpost (hw.of_prefix (List.prefix_refl _) hw.1) hadvance).1

/-- When `read_args` reaches its terminator, no op before it has ended it. -/
theorem noExit_of_done (hmax : maxOp < 2 ^ 32) {n k : Nat} {ops : List OpConfig}
    {st st' : LoopState} (hkeys : KeysAt env keys k ops) (hskip : ∀ op ∈ ops, op.code ≠ .skip)
    (hat : st.AtOp k) (hzero : st.ctx.loopCount = 0)
    (hquiet : NoTerminator env keys (k + ops.length) st)
    (hdone : readArgsLoop env keys n st = (.done, st')) :
    NoExit env keys (k + ops.length) st := by
  -- the loop reaches its terminator from every state of the run
  have hreach (xs : List (OpConfig × OpCode)) : ∀ (st s : LoopState) (n : Nat), st.InList k →
      NoTerminator env keys (k + ops.length) st → readArgsLoop env keys n st = (.done, st') →
      (interpreter env keys).Within (LoopState.Before (k + ops.length)) st xs s →
      s.InList k ∧ ∃ n', readArgsLoop env keys n' s = (.done, st') := by
    induction xs with
    | nil =>
        intro st s n hin _ hdone hw
        obtain rfl := Option.some.inj hw.1
        exact ⟨hin, n, hdone⟩
    | cons x xs ih =>
        intro st s n hin hquiet hdone hw
        obtain ⟨mid, hstep, hrest⟩ := Machine.run_cons_eq_some.mp hw.1
        have hadvance := interpreter_step.mp hstep
        have hmid := hw.2.2 mid hstep
        have hone := Machine.within_cons hw.2.1 hstep
          (Machine.within_nil (Machine.throughout_head hmid))
        cases n with
        | zero => cases hdone
        | succ n =>
            rw [readArgsLoop_advance hadvance] at hdone
            exact ih mid s n
              (inList_advance hmax hin (advance_loopCount · hw.2.1 hquiet hadvance) hadvance)
              (hquiet.of_within hone) hdone ⟨hrest, hmid⟩
  intro xs s hw hnone
  obtain ⟨hin, n', hloop⟩ := hreach xs st s n (inList_atOp hat hzero) hquiet hdone hw
  have hbefore := hw.of_prefix (List.prefix_refl _) hw.1
  cases n' with
  | zero => cases hloop
  | succ n' =>
      rw [readArgsLoop] at hloop
      unfold LoopState.advance at hnone
      cases hfetch : s.fetch env keys with
      | none =>
          rw [hfetch] at hloop
          cases hloop
      | some y =>
          obtain ⟨op, mid⟩ := y
          rw [hfetch] at hloop hnone
          have hcode : mid.ctx.opCode ≠ .skip := by
            rcases fetch_inList hkeys hin hbefore hfetch with ⟨hpost, rfl⟩ | ⟨hop, rfl⟩
            · exact hpost
            · exact hskip op hop
          dsimp only at hloop hnone
          rw [if_neg hcode] at hloop hnone
          cases hexec : mid.exec env op with
          | mk goesOn o =>
              rw [hexec] at hloop hnone
              cases goesOn with
              | false => cases hloop
              | true =>
                  dsimp only at hloop hnone
                  split at hnone
                  · rename_i hblack
                    rw [if_pos hblack] at hloop
                    cases hloop
                  · cases hnone

/-! ## Ops without `OP_FOR_BREAK` -/

/-- The machine runs an op unless one of its codes ends the loop. -/
theorem within_op (hmax : maxOp < 2 ^ 32) {st : LoopState} {k last : Nat} {op : OpConfig}
    (hat : st.AtOp k) (hk : k < maxOp) (hkey : env.opList.lookup keys[k] = some op)
    (hfor : ∀ x ∈ op.steps, x.2 ≠ .forBreak) (hlast : k + 1 < last)
    (hexit : NoExit env keys last st) :
    ∃ next, (interpreter env keys).Within (LoopState.Before last) st op.steps next ∧
      next.AtOp (k + 1) := by
  have hindex : (st.ctx.opKeyIndex + 1).toNat = k + 1 := by
    rw [BitVec.toNat_add, hat.2]
    show (k + 1) % 2 ^ 32 = k + 1
    omega
  have hbefore : st.Before last := by
    show st.ctx.opKeyIndex.toNat < last
    rw [hat.2]
    omega
  obtain ⟨hcode, hrest⟩ := List.forall_mem_cons.mp hfor
  obtain ⟨⟨x, mid⟩, hmid⟩ := Option.ne_none_iff_exists'.mp
    (hexit [] st (Machine.within_nil hbefore))
  obtain ⟨rfl, hexec⟩ := advance_atOp_inv hat hk hkey hmid
  rw [exec_of_ne (show (st.fetched op).ctx.opCode ≠ .forBreak from hcode)] at hexec
  obtain ⟨-, rfl⟩ := Prod.mk.inj hexec
  generalize (execOp env op (st.fetched op).ctx.opCode (st.fetched op).opState).2 = o at hmid
  have hbefore' : ((st.fetched op).withOpState o).Before last := by
    show (st.ctx.opKeyIndex + 1).toNat < last
    rw [hindex]
    exact hlast
  have hfirst := Machine.within_cons hbefore (interpreter_step.mpr hmid)
    (Machine.within_nil hbefore')
  unfold OpConfig.steps
  by_cases hpost : op.postCode = .skip
  · rw [if_pos hpost]
    exact ⟨_, hfirst, hpost, hindex⟩
  · -- the `post_code` is pending
    rw [if_neg hpost] at hrest ⊢
    obtain ⟨⟨y, next⟩, hnext⟩ := Option.ne_none_iff_exists'.mp (hexit _ _ hfirst)
    obtain ⟨rfl, hexec'⟩ := advance_pending_inv (show _ = some op from rfl) hpost hnext
    have hcode' : op.postCode ≠ .forBreak := hrest (op, op.postCode) (List.mem_singleton_self _)
    rw [exec_of_ne (show ((st.fetched op).withOpState o).fetchedPost.ctx.opCode ≠ .forBreak
      from hcode')] at hexec'
    obtain ⟨-, rfl⟩ := Prod.mk.inj hexec'
    have hsecond := Machine.within_cons hbefore' (interpreter_step.mpr hnext)
      (Machine.within_nil (show LoopState.Before last _ from hbefore'))
    exact ⟨_, hfirst.append hsecond, rfl, hindex⟩

theorem within_ops (hmax : maxOp < 2 ^ 32) {ops : List OpConfig} {st : LoopState} {k last : Nat}
    (hat : st.AtOp k) (hkeys : KeysAt env keys k ops)
    (hfor : ∀ op ∈ ops, ∀ x ∈ op.steps, x.2 ≠ .forBreak) (hlast : k + ops.length < last)
    (hexit : NoExit env keys last st) :
    ∃ next, (interpreter env keys).Within (LoopState.Before last) st
        (ops.flatMap OpConfig.steps) next ∧ next.AtOp (k + ops.length) := by
  induction ops generalizing st k with
  | nil =>
      refine ⟨st, Machine.within_nil ?_, hat⟩
      show st.ctx.opKeyIndex.toNat < last
      rw [hat.2]
      exact hlast
  | cons op ops ih =>
      obtain ⟨hop, hops⟩ := List.forall_mem_cons.mp hfor
      obtain ⟨⟨hk, hkey⟩, hkeys'⟩ := keysAt_cons hkeys
      rw [List.length_cons] at hlast
      obtain ⟨mid, hmid, hatMid⟩ := within_op hmax hat hk hkey hop (by omega) hexit
      obtain ⟨next, hnext, hatNext⟩ :=
        ih hatMid hkeys' hops (by omega) (hexit.of_within hmid)
      refine ⟨next, hmid.append hnext, ?_⟩
      have hsum : k + (ops.length + 1) = k + 1 + ops.length := by omega
      rw [List.length_cons, hsum]
      exact hatNext

/-- Such a run leaves the counters of the loop around it alone. -/
theorem within_counters {last : Nat} {xs : List (OpConfig × OpCode)} {st next : LoopState}
    (hfor : ∀ x ∈ xs, x.2 ≠ .forBreak) (hquiet : NoTerminator env keys last st)
    (h : (interpreter env keys).Within (LoopState.Before last) st xs next) :
    next.ctx.loopCount = st.ctx.loopCount ∧ next.ctx.loopIndex = st.ctx.loopIndex := by
  induction xs generalizing st with
  | nil =>
      obtain rfl := Option.some.inj h.1
      exact ⟨rfl, rfl⟩
  | cons x xs ih =>
      obtain ⟨hx, hxs⟩ := List.forall_mem_cons.mp hfor
      obtain ⟨hbefore, hrest⟩ := h.2
      obtain ⟨mid, hstep, hrun⟩ := Machine.run_cons_eq_some.mp h.1
      have hmid := Machine.within_cons hbefore hstep
        (Machine.within_nil (Machine.throughout_head (hrest mid hstep)))
      have hadvance := interpreter_step.mp hstep
      obtain ⟨hcount, hindex⟩ := ih hxs (hquiet.of_within hmid) ⟨hrun, hrest mid hstep⟩
      exact ⟨hcount.trans (advance_loopCount hx hbefore hquiet hadvance),
        hindex.trans (advance_loopIndex hx hadvance)⟩

theorem run_breakCount {xs : List (OpConfig × OpCode)} {st next : LoopState}
    (hfor : ∀ x ∈ xs, x.2 ≠ .forBreak) (hkeep : ∀ x ∈ xs, x.2.writesBreakCount = false)
    (h : (interpreter env keys).run st xs = some next) :
    next.ctx.breakCount = st.ctx.breakCount := by
  induction xs generalizing st with
  | nil =>
      obtain rfl := Option.some.inj h
      rfl
  | cons x xs ih =>
      obtain ⟨hx, hxs⟩ := List.forall_mem_cons.mp hfor
      obtain ⟨hkx, hkxs⟩ := List.forall_mem_cons.mp hkeep
      obtain ⟨mid, hstep, hrest⟩ := Machine.run_cons_eq_some.mp h
      exact (ih hxs hkxs hrest).trans (advance_breakCount hx hkx (interpreter_step.mp hstep))

theorem run_loopIndex {xs : List (OpConfig × OpCode)} {st next : LoopState}
    (hfor : ∀ x ∈ xs, x.2 ≠ .forBreak) (h : (interpreter env keys).run st xs = some next) :
    next.ctx.loopIndex = st.ctx.loopIndex := by
  induction xs generalizing st with
  | nil =>
      obtain rfl := Option.some.inj h
      rfl
  | cons x xs ih =>
      obtain ⟨hx, hxs⟩ := List.forall_mem_cons.mp hfor
      obtain ⟨mid, hstep, hrest⟩ := Machine.run_cons_eq_some.mp h
      exact (ih hxs hrest).trans (advance_loopIndex hx (interpreter_step.mp hstep))

/-! ## The head and the tail of a loop -/

theorem steps_forBreak {op : OpConfig} (h : op.steps = [(op, .forBreak)]) :
    op.code = .forBreak ∧ op.postCode = .skip := by
  unfold OpConfig.steps at h
  obtain ⟨hhead, htail⟩ := List.cons.inj h
  refine ⟨(Prod.mk.inj hhead).2, ?_⟩
  by_contra hpost
  rw [if_neg hpost] at htail
  cases htail

/-- The state after `OP_FOR_BREAK`. -/
def LoopState.jumped (st : LoopState) (op : OpConfig) : LoopState :=
  { st.fetched op with ctx := (st.fetched op).ctx.forBreak }

theorem step_forBreak_atOp {st : LoopState} {k : Nat} {op : OpConfig} (hat : st.AtOp k)
    (hk : k < maxOp) (hkey : env.opList.lookup keys[k] = some op) (hcode : op.code = .forBreak)
    (hblack : st.ctx.matchBlacklist = false) :
    (interpreter env keys).step st (op, .forBreak) = some (st.jumped op) := by
  have hexec : (st.fetched op).exec env op = (true, st.jumped op) :=
    if_pos (show (st.fetched op).ctx.opCode = .forBreak from hcode)
  have hjumped : (st.jumped op).ctx.matchBlacklist = st.ctx.matchBlacklist := by
    show ((st.fetched op).ctx.forBreak).matchBlacklist = st.ctx.matchBlacklist
    unfold OpCtx.forBreak
    dsimp only
    split <;> rfl
  have hskip : OpCode.forBreak ≠ .skip := by decide
  exact interpreter_step.mpr (advance_eq_some.mpr
    ⟨_, fetch_atOp hat hk hkey, hcode, hskip, hexec, hjumped.trans hblack⟩)

theorem step_forBreak {st : LoopState} {k last : Nat} {op : OpConfig} (hat : st.AtOp k)
    (hk : k < maxOp) (hkey : env.opList.lookup keys[k] = some op) (hcode : op.code = .forBreak)
    (hlast : k < last) (hexit : NoExit env keys last st) :
    (interpreter env keys).step st (op, .forBreak) = some (st.jumped op) := by
  have hbefore : st.Before last := by
    show st.ctx.opKeyIndex.toNat < last
    rw [hat.2]
    exact hlast
  obtain ⟨⟨x, next⟩, hnext⟩ := Option.ne_none_iff_exists'.mp
    (hexit [] st (Machine.within_nil hbefore))
  obtain ⟨rfl, hexec⟩ := advance_atOp_inv hat hk hkey hnext
  unfold LoopState.exec at hexec
  rw [if_pos (show (st.fetched op).ctx.opCode = .forBreak from hcode)] at hexec
  obtain ⟨-, rfl⟩ := Prod.mk.inj hexec
  rw [hcode] at hnext
  exact interpreter_step.mpr hnext

/-- The head goes on into the body, and remembers where it starts if there is a count. -/
theorem forBreak_head {ctx : OpCtx} (h : ctx.loopCount = 0) :
    ctx.forBreak.opKeyIndex = ctx.opKeyIndex ∧ ctx.forBreak.breakCount = ctx.breakCount ∧
      ctx.forBreak.postCode = ctx.postCode ∧
      (ctx.breakCount = 0 ∧ ctx.forBreak.loopCount = 0 ∨
        ctx.breakCount ≠ 0 ∧ ctx.forBreak.loopCount = 1 ∧
          ctx.forBreak.loopIndex = ctx.opKeyIndex) := by
  unfold OpCtx.forBreak
  rw [if_pos h, h]
  dsimp only
  by_cases hzero : ctx.breakCount = 0
  · rw [if_pos (by rw [hzero]; exact Nat.le_refl _)]
    exact ⟨rfl, hzero.symm, rfl, Or.inl ⟨hzero, rfl⟩⟩
  · have hlt : ¬ (0 : u8) ≥ ctx.breakCount := by
      intro hge
      have hnat : ctx.breakCount.toNat ≤ 0 := hge
      exact hzero (BitVec.eq_of_toNat_eq (Nat.le_zero.mp hnat))
    rw [if_neg hlt]
    exact ⟨rfl, rfl, rfl, Or.inr ⟨hzero, rfl, rfl⟩⟩

/-- After the last round the tail clears the counters and goes on. -/
theorem forBreak_last {ctx : OpCtx} (h : ctx.breakCount.toNat ≤ ctx.loopCount.toNat) :
    ctx.forBreak = { ctx with loopCount := 0, breakCount := 0, loopIndex := 0 } := by
  unfold OpCtx.forBreak
  exact if_pos h

/-- After any other round the tail goes back to the body. -/
theorem forBreak_again {ctx : OpCtx} (hpos : ctx.loopCount ≠ 0)
    (h : ctx.loopCount.toNat < ctx.breakCount.toNat) :
    ctx.forBreak =
      { ctx with loopCount := ctx.loopCount + 1, opKeyIndex := ctx.loopIndex } := by
  unfold OpCtx.forBreak
  rw [if_neg hpos]
  exact if_neg (Nat.not_le_of_lt h)

/-! ## The rounds -/

/-- The state in which round `i` of `r` starts; `start` is the place of the body. -/
structure LoopState.InRound (start r i : Nat) (st : LoopState) : Prop where
  atOp : st.AtOp start
  loopCount : st.ctx.loopCount.toNat = i
  breakCount : st.ctx.breakCount.toNat = r
  target : i ≠ 0 → st.ctx.loopIndex.toNat = start

/-- The state in which a loop is left for place `last`. -/
structure LoopState.LeftLoop (last : Nat) (st : LoopState) : Prop where
  atOp : st.AtOp last
  loopCount : st.ctx.loopCount = 0
  breakCount : st.ctx.breakCount = 0

/-- The head starts the first round. -/
theorem inRound_head (hmax : maxOp < 2 ^ 32) {st : LoopState} {k r : Nat} {op : OpConfig}
    (hat : st.AtOp k) (hk : k < maxOp) (hpost : op.postCode = .skip)
    (hcount : st.ctx.loopCount = 0) (hbreak : st.ctx.breakCount.toNat = r) :
    (st.jumped op).InRound (k + 1) r (min 1 r) := by
  obtain ⟨hindex, hkept, hpost', hrounds⟩ :=
    forBreak_head (show (st.fetched op).ctx.loopCount = 0 from hcount)
  have hplace : (st.ctx.opKeyIndex + 1).toNat = k + 1 := by
    rw [BitVec.toNat_add, hat.2]
    show (k + 1) % 2 ^ 32 = k + 1
    omega
  have hnext : (st.jumped op).ctx.opKeyIndex.toNat = k + 1 := by
    rw [← hplace]
    exact congrArg BitVec.toNat hindex
  refine ⟨⟨hpost'.trans hpost, hnext⟩, ?_, hkept ▸ hbreak, fun hi => ?_⟩
  · rcases hrounds with ⟨hzero, hcount'⟩ | ⟨hpos, hcount', -⟩
    · have hr : r = 0 := by rw [← hbreak]; exact congrArg BitVec.toNat hzero
      rw [hr]
      exact congrArg BitVec.toNat hcount'
    · have hr : r ≠ 0 := by
        rintro rfl
        exact hpos (BitVec.eq_of_toNat_eq hbreak)
      rw [Nat.min_eq_left (Nat.one_le_iff_ne_zero.mpr hr)]
      exact congrArg BitVec.toNat hcount'
  · rcases hrounds with ⟨hzero, -⟩ | ⟨-, -, htarget⟩
    · have hr : r = 0 := by rw [← hbreak]; exact congrArg BitVec.toNat hzero
      rw [hr] at hi
      exact absurd rfl hi
    · exact (congrArg BitVec.toNat htarget).trans hplace

/-- After the last round the tail leaves the loop. -/
theorem leftLoop_tail (hmax : maxOp < 2 ^ 32) {st : LoopState} {k : Nat} {op : OpConfig}
    (hat : st.AtOp k) (hk : k < maxOp) (hpost : op.postCode = .skip)
    (hdone : st.ctx.breakCount.toNat ≤ st.ctx.loopCount.toNat) :
    (st.jumped op).LeftLoop (k + 1) := by
  have hctx : (st.jumped op).ctx =
      { (st.fetched op).ctx with loopCount := 0, breakCount := 0, loopIndex := 0 } :=
    forBreak_last hdone
  have hindex : (st.ctx.opKeyIndex + 1).toNat = k + 1 := by
    rw [BitVec.toNat_add, hat.2]
    show (k + 1) % 2 ^ 32 = k + 1
    omega
  refine ⟨⟨?_, ?_⟩, ?_, ?_⟩
  · rw [hctx]
    exact hpost
  · rw [hctx]
    exact hindex
  · rw [hctx]
  · rw [hctx]

/-- After any other round the tail starts the next one. -/
theorem inRound_tail {st : LoopState} {start r i : Nat} (hr : r ≤ 32) {op : OpConfig}
    (hpost : op.postCode = .skip) (hpos : i ≠ 0) (hlt : i < r)
    (hcount : st.ctx.loopCount.toNat = i) (hbreak : st.ctx.breakCount.toNat = r)
    (htarget : st.ctx.loopIndex.toNat = start) : (st.jumped op).InRound start r (i + 1) := by
  have hne : st.ctx.loopCount ≠ 0 := by
    intro heq
    rw [heq] at hcount
    exact hpos hcount.symm
  have hctx : (st.jumped op).ctx = { (st.fetched op).ctx with
      loopCount := st.ctx.loopCount + 1, opKeyIndex := st.ctx.loopIndex } :=
    forBreak_again hne (show st.ctx.loopCount.toNat < st.ctx.breakCount.toNat by omega)
  refine ⟨⟨?_, ?_⟩, ?_, ?_, fun _ => ?_⟩
  all_goals rw [hctx]
  · exact hpost
  · exact htarget
  · show (st.ctx.loopCount + 1).toNat = i + 1
    rw [BitVec.toNat_add, hcount]
    show (i + 1) % 2 ^ 8 = i + 1
    omega
  · exact hbreak
  · exact htarget

variable {L : OpLoop}

/-- The body of a round leads to the tail. -/
theorem within_body (hmax : maxOp < 2 ^ 32) {st : LoopState} {start r i : Nat}
    (hkeys : KeysAt env keys start L.body) (hround : st.InRound start r i)
    (hexit : NoExit env keys (start + L.body.length + 1) st)
    (hquiet : NoTerminator env keys (start + L.body.length + 1) st) :
    ∃ mid, (interpreter env keys).Within (LoopState.Before (start + L.body.length + 1)) st
        L.bodyCodes mid ∧ mid.AtOp (start + L.body.length) ∧
      mid.ctx.loopCount.toNat = i ∧ mid.ctx.breakCount.toNat = r ∧
      (i ≠ 0 → mid.ctx.loopIndex.toNat = start) := by
  have hfor : ∀ x ∈ L.bodyCodes, x.2 ≠ .forBreak := by
    intro x hx
    obtain ⟨op, hop, hx⟩ := List.mem_flatMap.mp hx
    exact L.body_forBreak op hop x hx
  obtain ⟨mid, hmid, hat⟩ :=
    within_ops hmax hround.atOp hkeys L.body_forBreak (Nat.lt_succ_self _) hexit
  obtain ⟨hcount, hindex⟩ := within_counters hfor hquiet hmid
  have hbreak := run_breakCount hfor L.body_keep hmid.1
  exact ⟨mid, hmid, hat, hcount ▸ hround.loopCount, hbreak ▸ hround.breakCount,
    fun hi => hindex ▸ hround.target hi⟩

/-- From round `i` of `i + m` on, the loop makes `m + 1` rounds. -/
theorem exits_rounds (hmax : maxOp < 2 ^ 32) {start r : Nat} (hr : r ≤ 32)
    (hkeys : KeysAt env keys start L.body) {hk : start + L.body.length < maxOp}
    (hkey : env.opList.lookup keys[start + L.body.length] = some L.tail) (m : Nat) :
    ∀ (st : LoopState) (i : Nat), st.InRound start r i → r = i + m → (m ≠ 0 → i ≠ 0) →
      NoExit env keys (start + L.body.length + 1) st →
      NoTerminator env keys (start + L.body.length + 1) st →
      ∃ next, (interpreter env keys).Exits (LoopState.Before (start + L.body.length + 1)) st
        (List.replicate (m + 1) L.round).flatten next ∧
        next.LeftLoop (start + L.body.length + 1) := by
  obtain ⟨hcode, hpost⟩ := steps_forBreak L.tail_steps
  induction m with
  | zero =>
      intro st i hround hri _ hexit hquiet
      obtain ⟨mid, hmid, hat, hcount, hbreak, -⟩ := within_body hmax hkeys hround hexit hquiet
      have hstep := step_forBreak hat hk hkey hcode (Nat.lt_succ_self _) (hexit.of_within hmid)
      refine ⟨mid.jumped L.tail, ?_, leftLoop_tail hmax hat hk hpost (by omega)⟩
      rw [show (List.replicate (0 + 1) L.round).flatten = L.bodyCodes ++ [(L.tail, .forBreak)]
        from List.append_nil _]
      have hbefore := hmid.of_prefix (List.prefix_refl _) hmid.1
      exact hmid.exits (Machine.exits_singleton hbefore hstep)
  | succ m ih =>
      intro st i hround hri hpos hexit hquiet
      have hi : i ≠ 0 := hpos (Nat.succ_ne_zero m)
      obtain ⟨mid, hmid, hat, hcount, hbreak, htarget⟩ :=
        within_body hmax hkeys hround hexit hquiet
      have hstep := step_forBreak hat hk hkey hcode (Nat.lt_succ_self _) (hexit.of_within hmid)
      have hnext : (mid.jumped L.tail).InRound start r (i + 1) :=
        inRound_tail hr hpost hi (by omega) hcount hbreak (htarget hi)
      have hinside : (mid.jumped L.tail).Before (start + L.body.length + 1) := by
        have htarget' : (mid.jumped L.tail).ctx.opKeyIndex.toNat = start := hnext.atOp.2
        show (mid.jumped L.tail).ctx.opKeyIndex.toNat < start + L.body.length + 1
        omega
      have hback := Machine.within_cons (hmid.of_prefix (List.prefix_refl _) hmid.1) hstep
        (Machine.within_nil hinside)
      have hall : (interpreter env keys).Within (LoopState.Before (start + L.body.length + 1)) st
          L.round (mid.jumped L.tail) := hmid.append hback
      obtain ⟨next, hexits, hleft⟩ := ih _ (i + 1) hnext (by omega)
        (fun _ => Nat.succ_ne_zero i) (hexit.of_within hall) (hquiet.of_within hall)
      exact ⟨next, hall.exits hexits, hleft⟩

/-! ## The whole loop -/

/-- The machine gets into the first round. -/
theorem within_head (hmax : maxOp < 2 ^ 32) {st : LoopState} {k last r : Nat} {op : OpConfig}
    (hat : st.AtOp k) {hk : k < maxOp} (hkey : env.opList.lookup keys[k] = some op)
    (hsteps : op.steps = [(op, .forBreak)]) (hlast : k + 1 < last)
    (hexit : NoExit env keys last st) (hcount : st.ctx.loopCount = 0)
    (hbreak : st.ctx.breakCount.toNat = r) :
    (interpreter env keys).Within (LoopState.Before last) st [(op, .forBreak)] (st.jumped op) ∧
      (st.jumped op).InRound (k + 1) r (min 1 r) := by
  obtain ⟨hcode, hpost⟩ := steps_forBreak hsteps
  have hround := inRound_head hmax hat hk hpost hcount hbreak
  have hnext : (st.jumped op).ctx.opKeyIndex.toNat = k + 1 := hround.atOp.2
  refine ⟨Machine.within_cons ?_ (step_forBreak hat hk hkey hcode (by omega) hexit)
    (Machine.within_nil ?_), hround⟩
  · show st.ctx.opKeyIndex.toNat < last
    rw [hat.2]
    omega
  · show (st.jumped op).ctx.opKeyIndex.toNat < last
    omega

/-- The setup leaves the count that its setter finds. -/
theorem setup_breakCount {st mid : LoopState} {count : u64}
    (hcount : ∀ s, (interpreter env keys).run st L.first = some s →
      s.opState.countValue L.setter.1 L.setter.2 = count)
    (h : (interpreter env keys).run st (L.setup.flatMap OpConfig.steps) = some mid) :
    mid.ctx.breakCount = breakCountOf count := by
  have hfor : ∀ x ∈ L.first ++ L.setter :: L.others, x.2 ≠ .forBreak := by
    intro x hx
    rw [← L.codes_setup] at hx
    obtain ⟨op, hop, hx⟩ := List.mem_flatMap.mp hx
    exact L.setup_forBreak op hop x hx
  obtain ⟨hset, hothers⟩ := List.forall_mem_cons.mp (List.forall_mem_append.mp hfor).2
  rw [L.codes_setup] at h
  obtain ⟨s, hs, hrest⟩ := Machine.run_append_eq_some.mp h
  obtain ⟨t, hstep, ht⟩ := Machine.run_cons_eq_some.mp hrest
  rw [run_breakCount hothers L.others_keep ht,
    advance_setsBreakCount hset L.setter_sets (interpreter_step.mp hstep), hcount s hs]

/-- **What a loop does.** Unless an op ends `read_args`, the loop makes as many rounds as its
count says, up to `MAX_LOOP_COUNT`, but at least one, and leaves its counters cleared. -/
theorem OpLoop.exits (hmax : maxOp < 2 ^ 32) {st : LoopState} {k : Nat} {count : u64}
    (hkeys : KeysAt env keys k L.ops) (hat : st.AtOp k) (hzero : st.ctx.loopCount = 0)
    (hcount : ∀ s, (interpreter env keys).run st L.first = some s →
      s.opState.countValue L.setter.1 L.setter.2 = count)
    (hexit : NoExit env keys (k + L.ops.length) st)
    (hquiet : NoTerminator env keys (k + L.ops.length) st) :
    ∃ next, (interpreter env keys).Exits (LoopState.Before (k + L.ops.length)) st
        (L.trace (max 1 (min count.toNat 32))) next ∧ next.LeftLoop (k + L.ops.length) := by
  have hlast : k + L.ops.length = (k + L.setup.length + 1) + L.body.length + 1 := by
    simp only [OpLoop.ops, List.length_append, List.length_cons, List.length_nil]
    omega
  rw [hlast] at hexit hquiet ⊢
  obtain ⟨hsetup, hloop⟩ := keysAt_append hkeys
  obtain ⟨⟨hk, hhead⟩, hrest⟩ := keysAt_cons hloop
  obtain ⟨hbody, htail⟩ := keysAt_append hrest
  obtain ⟨⟨hk', htailKey⟩, -⟩ := keysAt_cons htail
  have hfor : ∀ x ∈ L.setup.flatMap OpConfig.steps, x.2 ≠ .forBreak := by
    intro x hx
    obtain ⟨op, hop, hx⟩ := List.mem_flatMap.mp hx
    exact L.setup_forBreak op hop x hx
  obtain ⟨mid, hmid, hatMid⟩ := within_ops hmax hat hsetup L.setup_forBreak (by omega) hexit
  obtain ⟨hcountMid, -⟩ := within_counters hfor hquiet hmid
  have hbreak : mid.ctx.breakCount.toNat = min count.toNat 32 := by
    rw [setup_breakCount hcount hmid.1, toNat_breakCountOf]
  generalize hr : min count.toNat 32 = r at hbreak ⊢
  obtain ⟨hheadRun, hround⟩ := within_head hmax hatMid hhead L.head_steps (by omega)
    (hexit.of_within hmid) (hcountMid.trans hzero) hbreak
  have hstart := hmid.append hheadRun
  have hle : r ≤ 32 := hr ▸ Nat.min_le_right _ _
  obtain ⟨next, hexits, hleft⟩ := exits_rounds hmax hle hbody htailKey (r - min 1 r) _ (min 1 r)
    hround (by omega) (by omega) (hexit.of_within hstart) (hquiet.of_within hstart)
  have hrounds : r - min 1 r + 1 = max 1 r := by omega
  rw [hrounds] at hexits
  refine ⟨next, ?_, hleft⟩
  have hall := hstart.exits hexits
  rwa [List.append_assoc] at hall

/-! ## The number of rounds -/

/-- Every code but `OP_FOR_BREAK`. -/
def ownCodes (xs : List (OpConfig × OpCode)) : List (OpConfig × OpCode) :=
  xs.filter fun x => x.2 != .forBreak

theorem ownCodes_eq_self {xs : List (OpConfig × OpCode)} (h : ∀ x ∈ xs, x.2 ≠ .forBreak) :
    ownCodes xs = xs :=
  List.filter_eq_self.mpr fun x hx => bne_iff_ne.mpr (h x hx)

theorem OpLoop.ownCodes_trace (L : OpLoop) (r : Nat) :
    ownCodes (L.trace r) =
      L.setup.flatMap OpConfig.steps ++ (List.replicate r L.bodyCodes).flatten := by
  have hsetup : ownCodes (L.setup.flatMap OpConfig.steps) = L.setup.flatMap OpConfig.steps := by
    refine ownCodes_eq_self fun x hx => ?_
    obtain ⟨op, hop, hx⟩ := List.mem_flatMap.mp hx
    exact L.setup_forBreak op hop x hx
  have hround : ownCodes L.round = L.bodyCodes := by
    have hbody : ownCodes L.bodyCodes = L.bodyCodes := by
      refine ownCodes_eq_self fun x hx => ?_
      obtain ⟨op, hop, hx⟩ := List.mem_flatMap.mp hx
      exact L.body_forBreak op hop x hx
    calc ownCodes (L.bodyCodes ++ [(L.tail, .forBreak)])
        = ownCodes L.bodyCodes ++ [] := by
          unfold ownCodes
          rw [List.filter_append]
          rfl
      _ = L.bodyCodes := by rw [List.append_nil, hbody]
  have hrounds : ownCodes (List.replicate r L.round).flatten =
      (List.replicate r L.bodyCodes).flatten := by
    unfold ownCodes at hround ⊢
    rw [List.filter_flatten, List.map_replicate, hround]
  calc ownCodes (L.trace r)
      = ownCodes (L.setup.flatMap OpConfig.steps) ++
          ownCodes ((L.head, .forBreak) :: (List.replicate r L.round).flatten) := by
        unfold ownCodes OpLoop.trace
        rw [List.filter_append]
    _ = L.setup.flatMap OpConfig.steps ++ (List.replicate r L.bodyCodes).flatten := by
        rw [hsetup, ← hrounds]
        rfl

/-- `read_args` executes the setup of the loop and then its body exactly `r` times, and continues
after the second `FOR_BREAK` with its counters cleared. -/
def OpLoop.Executes (L : OpLoop) (env : ProbeEnv) (keys : Vector u32 maxOp) (n k : Nat)
    (st : LoopState) (r : Nat) : Prop :=
  ∃ xs next, (interpreter env keys).run st xs = some next ∧
    ownCodes xs = L.setup.flatMap OpConfig.steps ++ (List.replicate r L.bodyCodes).flatten ∧
    next.LeftLoop (k + L.ops.length) ∧
    xs.length < n ∧ readArgsLoop env keys n st = readArgsLoop env keys (n - xs.length) next

theorem LoopState.LeftLoop.not_before {last : Nat} {st : LoopState} (h : st.LeftLoop last) :
    ¬ st.Before last := by
  intro hbefore
  have hlt : st.ctx.opKeyIndex.toNat < last := hbefore
  rw [h.atOp.2] at hlt
  exact Nat.lt_irrefl _ hlt

/-- A loop that executes its body as often as it should is not ended by one of its ops. -/
theorem noExit_of_executes {n k r : Nat} {st : LoopState} (h : L.Executes env keys n k st r) :
    NoExit env keys (k + L.ops.length) st := by
  obtain ⟨xs, next, hrun, -, hleft, -, -⟩ := h
  intro ys s hs hnone
  rcases interpreter_deterministic.prefix_or_prefix hrun hs.1 with hle | hle
  · exact hleft.not_before (hs.of_prefix hle hrun)
  · obtain ⟨zs, rfl⟩ := hle
    obtain ⟨s', hs', hrest⟩ := Machine.run_append_eq_some.mp hrun
    obtain rfl : s = s' := Option.some.inj (hs.1.symm.trans hs')
    cases zs with
    | nil =>
        obtain rfl := Option.some.inj hrest
        exact hleft.not_before (hs.of_prefix (List.prefix_refl _) hs.1)
    | cons z zs =>
        obtain ⟨t, hstep, -⟩ := Machine.run_cons_eq_some.mp hrest
        rw [interpreter_step.mp hstep] at hnone
        cases hnone

section Executes

variable {n k : Nat} {st : LoopState} {count : u64} (hmax : maxOp < 2 ^ 32)
  (hkeys : KeysAt env keys k L.ops) (hat : st.AtOp k) (hzero : st.ctx.loopCount = 0)
  (hcount : ∀ s, (interpreter env keys).run st L.first = some s →
    s.opState.countValue L.setter.1 L.setter.2 = count)
  (hquiet : NoTerminator env keys (k + L.ops.length) st)
include hmax hkeys hat hzero hcount hquiet

theorem executes_of_count (hbound : (readArgsLoop env keys n st).1 ≠ .bound)
    (hexit : NoExit env keys (k + L.ops.length) st) (h : count ≠ 0 ∨ L.body = []) :
    L.Executes env keys n k st (min count.toNat 32) := by
  obtain ⟨next, hexits, hleft⟩ := OpLoop.exits hmax hkeys hat hzero hcount hexit hquiet
  have hlen := length_lt_of_run hbound hexits.run
  refine ⟨_, next, hexits.run, ?_, hleft, hlen, ?_⟩
  · rw [L.ownCodes_trace]
    rcases h with hpos | hbody
    · have hnat : count.toNat ≠ 0 := fun h0 => hpos (BitVec.eq_of_toNat_eq h0)
      rw [Nat.max_eq_right (by omega)]
    · have hnil : L.bodyCodes = [] := by
        unfold OpLoop.bodyCodes
        rw [hbody, List.flatMap_nil]
      rw [hnil, List.flatten_replicate_nil, List.flatten_replicate_nil]
  · have hloop := readArgsLoop_of_run (n - (L.trace (max 1 (min count.toNat 32))).length)
      hexits.run
    rwa [Nat.add_sub_cancel' (Nat.le_of_lt hlen)] at hloop

theorem count_of_executes (h : L.Executes env keys n k st (min count.toNat 32)) :
    count ≠ 0 ∨ L.body = [] := by
  by_contra hno
  obtain ⟨hcount0, hbody⟩ := not_or.mp hno
  have hcount0 : count = 0 := not_not.mp hcount0
  obtain ⟨next, hexits, -⟩ := OpLoop.exits hmax hkeys hat hzero hcount (noExit_of_executes h) hquiet
  obtain ⟨xs, last, hrun, hown, hleft, -, -⟩ := h
  have hstarts := hexits.prefix interpreter_deterministic hrun hleft.not_before
  have hlen := (hstarts.filter fun x => x.2 != .forBreak).length_le
  -- the one round that is made is one too many
  have hone := L.ownCodes_trace (max 1 (min count.toNat 32))
  unfold ownCodes at hown hone
  rw [hown, hone, hcount0, List.length_append, List.length_append] at hlen
  have hbodyLen : (List.replicate 1 L.bodyCodes).flatten.length ≤
      (List.replicate 0 L.bodyCodes).flatten.length := Nat.le_of_add_le_add_left hlen
  rw [List.replicate_one, List.flatten_singleton] at hbodyLen
  have hnil : L.bodyCodes = [] := List.eq_nil_of_length_eq_zero (Nat.le_zero.mp hbodyLen)
  cases hops : L.body with
  | nil => exact hbody hops
  | cons op ops =>
      unfold OpLoop.bodyCodes at hnil
      rw [hops, List.flatMap_cons] at hnil
      cases hnil

/-- **How often the body is executed.** A loop executes its body exactly `min count 32` times
and leaves its counters cleared, exactly when its count is not zero, or its body is empty, and
none of its ops ends `read_args`. -/
theorem OpLoop.executes_iff (hbound : (readArgsLoop env keys n st).1 ≠ .bound) :
    L.Executes env keys n k st (min count.toNat 32) ↔
      (count ≠ 0 ∨ L.body = []) ∧ NoExit env keys (k + L.ops.length) st := by
  constructor
  · intro h
    exact ⟨count_of_executes hmax hkeys hat hzero hcount hquiet h, noExit_of_executes h⟩
  · rintro ⟨hbody, hexit⟩
    exact executes_of_count hmax hkeys hat hzero hcount hquiet hbound hexit hbody

end Executes

end Loop

/-! ### A loop over a count in `x0` -/

/-- The op `READ_REG_AS_BREAK_COUNT`. -/
def readCountOp : OpConfig := ⟨.readReg, .setRegIndex, .setBreakCountRegValue, 0⟩

def forBreakOp : OpConfig := ⟨.forBreak, .skip, .skip, 0⟩

def addOffsetOp : OpConfig := ⟨.addOffset, .skip, .skip, 8⟩

/-- The list: read the count from `x0`, then add 8 to the read address in every round. -/
def countLoop : OpLoop where
  setup := [readCountOp]
  head := forBreakOp
  body := [addOffsetOp]
  tail := forBreakOp
  first := [(readCountOp, .readReg)]
  setter := (readCountOp, .setBreakCountRegValue)
  others := []
  codes_setup := rfl
  setter_sets := rfl
  others_keep := OpLoop.no_others
  body_keep := by decide
  setup_forBreak := by decide
  body_forBreak := by decide
  head_steps := rfl
  tail_steps := rfl

/-- The ops with their keys. -/
def countTable : List (u32 × OpConfig) :=
  [(0, ⟨.skip, .skip, .skip, 0⟩), (1, readCountOp), (2, forBreakOp), (3, addOffsetOp)]

/-- The table with these ops, and a process with `x0 = count`. -/
def countEnv (count : u64) : ProbeEnv where
  mem := fun _ => none
  regs := ⟨Vector.replicate 31 count, 0, 0, 0⟩
  opList := countTable.foldl (fun m entry => m.put entry.1 entry.2) .empty
  argFilter := .empty

def countKeys : Vector u32 stackMaxOpCount := Vector.ofFn fun i => ([1, 2, 3, 2][i.val]?).getD 0

/-- The state before the list, with no op pending. -/
def countStart : LoopState := ⟨none, { OpCtx.cleared with postCode := .skip }, .init, .empty⟩

theorem countEnv_keysAt (count : u64) : KeysAt (countEnv count) countKeys 0 countLoop.ops := by
  have hlookup (key : u32) (op : OpConfig) (h : (key, op) ∈ countTable) :
      (countEnv count).opList.lookup key = some op :=
    (BoundedMap.lookup_foldl_put (by decide) (by decide)).1 (key, op) h
  intro i hi
  match i, hi with
  | 0, _ => exact ⟨by decide, hlookup 1 readCountOp (by decide)⟩
  | 1, _ => exact ⟨by decide, hlookup 2 forBreakOp (by decide)⟩
  | 2, _ => exact ⟨by decide, hlookup 3 addOffsetOp (by decide)⟩
  | 3, _ => exact ⟨by decide, hlookup 2 forBreakOp (by decide)⟩

theorem countEnv_noTerminator (count : u64) :
    NoTerminator (countEnv count) countKeys (0 + countLoop.ops.length) countStart :=
  noTerminator_of_list (by decide) (countEnv_keysAt count) (by decide) ⟨rfl, rfl⟩ rfl

/-- What the setter finds is the register. -/
theorem countLoop_count (count : u64) : ∀ s,
    (interpreter (countEnv count) countKeys).run countStart countLoop.first = some s →
    s.opState.countValue countLoop.setter.1 countLoop.setter.2 = count := by
  intro s hs
  obtain ⟨log, hsteps⟩ := run_runSteps (by decide) hs
  obtain ⟨first, mid, rest, hread, hnil, -⟩ := runSteps_cons.mp hsteps
  obtain ⟨-, rfl⟩ := Prod.mk.inj (Option.some.inj hnil)
  have hstep : countStart.opState.step (countEnv count) (readCountOp, .readReg) = _ :=
    step_readReg (by decide) rfl
  obtain ⟨-, hstate⟩ := Prod.mk.inj (Option.some.inj (hread.symm.trans hstep))
  rw [hstate]
  show (countEnv count).regs.get 0 = count
  exact Vector.getElem_replicate _

/-- With a count of zero the body is executed once. -/
theorem countLoop_zero_not_executes :
    KeysAt (countEnv 0) countKeys 0 countLoop.ops ∧ countStart.AtOp 0 ∧
      countStart.ctx.loopCount = 0 ∧ countStart.ctx.breakCount = 0 ∧
      NoTerminator (countEnv 0) countKeys (0 + countLoop.ops.length) countStart ∧
      (readArgsLoop (countEnv 0) countKeys stackMaxOpCount countStart).1 = .done ∧
      ¬ countLoop.Executes (countEnv 0) countKeys stackMaxOpCount 0 countStart
        (min (0 : u64).toNat 32) := by
  refine ⟨countEnv_keysAt 0, ⟨rfl, rfl⟩, rfl, rfl, countEnv_noTerminator 0, by decide +kernel,
    fun h => ?_⟩
  have hbody := count_of_executes (by decide) (countEnv_keysAt 0) ⟨rfl, rfl⟩ rfl
    (countLoop_count 0) (countEnv_noTerminator 0) h
  exact absurd hbody (by decide)

/-- With a count of two the body is executed twice. -/
theorem countLoop_two_executes :
    countLoop.Executes (countEnv 2) countKeys stackMaxOpCount 0 countStart
      (min (2 : u64).toNat 32) := by
  have hdone : (readArgsLoop (countEnv 2) countKeys stackMaxOpCount countStart).1 = .done := by
    decide +kernel
  have hexit : NoExit (countEnv 2) countKeys (0 + countLoop.ops.length) countStart :=
    noExit_of_done (by decide) (countEnv_keysAt 2) (by decide) ⟨rfl, rfl⟩ rfl
      (countEnv_noTerminator 2) (readArgsLoop_eq_done hdone)
  exact (OpLoop.executes_iff (by decide) (countEnv_keysAt 2) ⟨rfl, rfl⟩ rfl (countLoop_count 2)
    (countEnv_noTerminator 2) (ne_bound_of_done hdone)).mpr ⟨Or.inl (by decide), hexit⟩

end Stackplz
