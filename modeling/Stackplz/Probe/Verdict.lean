import Stackplz.Probe.Iterations

/-!
# The verdict of the filters

Filter ops set three sticky flags, a black list match ends the loop, and after the loop the flags
decide whether the event is skipped. What they decide can be told from the filters that were
evaluated alone (`verdict_iff_skips`), so the order of the filter ops has no part in it, although a
match of a black list keeps the filters behind it from being evaluated.
-/

set_option autoImplicit false

namespace Stackplz

/-! ## Evaluations -/

/-- What a filter op found. -/
inductive Evaluation where
  /-- a comparison of numbers, and whether it raised `match_blacklist` -/
  | value (raised : Bool)
  /-- a string or a buffer against a white list -/
  | whitelist (isMatch : Bool)
  /-- a string against a black list -/
  | blacklist (isMatch : Bool)
deriving DecidableEq

/-- The evaluation that an op makes; a filter of a type that the op does not look at is not
evaluated. -/
def evaluation (env : ProbeEnv) (op : OpConfig) (code : OpCode) (st : OpState) :
    Option Evaluation :=
  match code with
  | .filterValue => (env.argFilter.lookup op.value).map fun filter =>
      .value (filterValueRejects filter st.data.regValue)
  | .filterBuffer =>
      match env.argFilter.lookup op.value with
      | some filter =>
          if filter.filterType = .whitelist then
            some (.whitelist (filterBufferMatches env.mem filter st.data.readAddr))
          else none
      | none => none
  | .filterString =>
      match env.argFilter.lookup op.value with
      | some filter =>
          let isMatch := (strcmpByMap st.strBuf
            (StrcmpCall.ofRead env.mem st.data.strLen st.data.readAddr filter)).1
          match filter.filterType with
          | .whitelist => some (.whitelist isMatch)
          | .blacklist => some (.blacklist isMatch)
          | _ => none
      | none => none
  | _ => none

/-- An event with these evaluations is skipped. -/
def Skips (es : List Evaluation) : Prop :=
  .blacklist true ∈ es ∨ .value true ∈ es ∨
    (∃ isMatch, .whitelist isMatch ∈ es) ∧ .whitelist true ∉ es

/-- `apply_filter`, `match_whitelist` and `match_blacklist`. -/
structure Flags where
  applyFilter : Bool
  matchWhitelist : Bool
  matchBlacklist : Bool
deriving DecidableEq

/-- The flags before the first op. -/
def Flags.cleared : Flags := ⟨false, false, false⟩

def Flags.after (f : Flags) : Evaluation → Flags
  | .value raised => { f with matchBlacklist := f.matchBlacklist || raised }
  | .whitelist isMatch => { f with
      applyFilter := true, matchWhitelist := f.matchWhitelist || isMatch }
  | .blacklist isMatch => { f with matchBlacklist := f.matchBlacklist || isMatch }

def OpData.flags (d : OpData) : Flags := ⟨d.applyFilter, d.matchWhitelist, d.matchBlacklist⟩

/-- The flags an op leaves are those its evaluation makes of the flags it finds. -/
theorem execOp_flags (env : ProbeEnv) (op : OpConfig) (code : OpCode) (st : OpState) :
    (execOp env op code st).2.data.flags =
      (evaluation env op code st).toList.foldl Flags.after st.data.flags := by
  cases code
  case filterValue =>
    unfold execOp evaluation
    cases env.argFilter.lookup op.value <;> rfl
  case filterBuffer =>
    unfold execOp evaluation
    cases env.argFilter.lookup op.value with
    | none => rfl
    | some filter =>
        dsimp only
        split <;> rfl
  case filterString =>
    unfold execOp evaluation
    cases env.argFilter.lookup op.value with
    | none => rfl
    | some filter =>
        dsimp only [OpState.filterString]
        cases filter.filterType <;> rfl
  case readReg =>
    unfold execOp
    dsimp only
    split <;> rfl
  all_goals rfl

theorem execOp_skipFlag (env : ProbeEnv) (op : OpConfig) (code : OpCode) (st : OpState) :
    (execOp env op code st).2.data.skipFlag = st.data.skipFlag := by
  cases code
  case filterValue | filterBuffer | readReg =>
    unfold execOp
    dsimp only
    repeat' split
    all_goals rfl
  case filterString =>
    unfold execOp
    dsimp only
    split
    · rfl
    · unfold OpState.filterString
      dsimp only
      split <;> rfl
  all_goals rfl

/-- What the flags say about the evaluations that made them. -/
theorem foldl_after (es : List Evaluation) (f : Flags) :
    ((es.foldl Flags.after f).matchBlacklist = true ↔
        f.matchBlacklist = true ∨ .blacklist true ∈ es ∨ .value true ∈ es) ∧
      ((es.foldl Flags.after f).applyFilter = true ↔
        f.applyFilter = true ∨ ∃ isMatch, .whitelist isMatch ∈ es) ∧
      ((es.foldl Flags.after f).matchWhitelist = true ↔
        f.matchWhitelist = true ∨ .whitelist true ∈ es) := by
  induction es generalizing f with
  | nil => simp
  | cons e es ih =>
      obtain ⟨hblack, happly, hwhite⟩ := ih (f.after e)
      rw [List.foldl_cons, hblack, happly, hwhite]
      cases e with
      | value raised => cases raised <;> simp [Flags.after]
      | whitelist isMatch => cases isMatch <;> simp [Flags.after]
      | blacklist isMatch => cases isMatch <;> simp [Flags.after]

/-- A match that ends the loop skips the event, whatever is evaluated besides. -/
theorem skips_of_matchBlacklist {es es' : List Evaluation}
    (h : (es.foldl Flags.after .cleared).matchBlacklist = true) (hsub : es ⊆ es') : Skips es' := by
  rcases (foldl_after es .cleared).1.mp h with hfalse | hmem | hmem
  · cases hfalse
  · exact Or.inl (hsub hmem)
  · exact Or.inr (Or.inl (hsub hmem))

/-- The order of the evaluations makes no difference. -/
theorem skips_perm {es es' : List Evaluation} (h : es.Perm es') : Skips es ↔ Skips es' := by
  unfold Skips
  simp only [h.mem_iff]

/-! ## The loop -/

/-- The evaluations that at most `n` iterations of the loop make; with `whole`, those that they
would make if no black list match ended the loop. -/
def LoopState.evaluations {maxOp : Nat} (env : ProbeEnv) (keys : Vector u32 maxOp)
    (whole : Bool) : Nat → LoopState → List Evaluation
  | 0, _ => []
  | n + 1, st =>
      match st.fetch env keys with
      | none => []
      | some (op, mid) =>
          if mid.ctx.opCode = .skip then []
          else
            match mid.exec env op with
            | (false, _) => []
            | (true, next) =>
                (evaluation env op mid.ctx.opCode mid.opState).toList ++
                  if next.ctx.matchBlacklist && !whole then []
                  else LoopState.evaluations env keys whole n next

section Loop

variable {maxOp : Nat} {env : ProbeEnv} {keys : Vector u32 maxOp}

/-- An iteration leaves the flags that its evaluation makes, and `skip_flag`. -/
theorem exec_flags {op : OpConfig} {mid next : LoopState} {goesOn : Bool}
    (h : mid.exec env op = (goesOn, next)) :
    next.ctx.flags = (evaluation env op mid.ctx.opCode mid.opState).toList.foldl Flags.after
        mid.ctx.flags ∧ next.ctx.skipFlag = mid.ctx.skipFlag := by
  by_cases hfor : mid.ctx.opCode = .forBreak
  · unfold LoopState.exec at h
    rw [if_pos hfor] at h
    obtain rfl : ({ mid with ctx := mid.ctx.forBreak } : LoopState) = next := congrArg Prod.snd h
    rw [hfor]
    unfold OpCtx.forBreak
    dsimp only
    split <;> exact ⟨rfl, rfl⟩
  · rw [exec_of_ne hfor] at h
    obtain rfl : mid.withOpState (execOp env op mid.ctx.opCode mid.opState).2 = next :=
      congrArg Prod.snd h
    exact ⟨execOp_flags env op mid.ctx.opCode mid.opState, execOp_skipFlag ..⟩

/-- How a loop that is not returned from left the flags, and why it ended. -/
theorem readArgsLoop_flags :
    ∀ (n : Nat) {st st' : LoopState} {reason : LoopEnd}, st.ctx.matchBlacklist = false →
      readArgsLoop env keys n st = (reason, st') → reason ≠ .returned →
      st'.ctx.flags = (st.evaluations env keys false n).foldl Flags.after st.ctx.flags ∧
        st'.ctx.skipFlag = st.ctx.skipFlag ∧
        (st'.ctx.matchBlacklist = true ↔ reason = .blacklisted)
  | 0, st, st', reason, hblack, h, _ => by
      obtain ⟨rfl, rfl⟩ := Prod.mk.inj h
      exact ⟨rfl, rfl, by simp [hblack]⟩
  | n + 1, st, st', reason, hblack, h, hreason => by
      unfold readArgsLoop at h
      unfold LoopState.evaluations
      cases hfetch : st.fetch env keys with
      | none =>
          rw [hfetch] at h
          exact absurd (congrArg Prod.fst h).symm hreason
      | some x =>
          obtain ⟨op, mid⟩ := x
          have hmid : mid.opState = st.opState := fetch_opState hfetch
          have hdata : mid.ctx.toOpData = st.ctx.toOpData := congrArg OpState.data hmid
          have hflags : mid.ctx.flags = st.ctx.flags := congrArg OpData.flags hdata
          have hskipFlag : mid.ctx.skipFlag = st.ctx.skipFlag := congrArg OpData.skipFlag hdata
          have hmidBlack : mid.ctx.matchBlacklist = st.ctx.matchBlacklist :=
            congrArg OpData.matchBlacklist hdata
          rw [hfetch] at h
          dsimp only at h ⊢
          by_cases hskip : mid.ctx.opCode = .skip
          · rw [if_pos hskip] at h ⊢
            obtain ⟨rfl, rfl⟩ := Prod.mk.inj h
            exact ⟨hflags, hskipFlag, by simp [hmidBlack, hblack]⟩
          · rw [if_neg hskip] at h ⊢
            cases hexec : mid.exec env op with
            | mk goesOn next =>
                obtain ⟨hnext, hnextSkip⟩ := exec_flags hexec
                rw [hexec] at h
                cases goesOn with
                | false => exact absurd (congrArg Prod.fst h).symm hreason
                | true =>
                    dsimp only at h ⊢
                    rw [hflags] at hnext
                    by_cases hend : next.ctx.matchBlacklist = true
                    · rw [if_pos hend] at h
                      obtain ⟨rfl, rfl⟩ := Prod.mk.inj h
                      rw [hend, Bool.not_false, Bool.and_true, if_pos rfl, List.append_nil]
                      exact ⟨hnext, hnextSkip.trans hskipFlag, iff_of_true rfl rfl⟩
                    · rw [if_neg hend] at h
                      have hgoes : next.ctx.matchBlacklist = false := Bool.eq_false_iff.mpr hend
                      obtain ⟨hrest, hrestSkip, hrestBlack⟩ := readArgsLoop_flags n hgoes h hreason
                      rw [hgoes, Bool.false_and, if_neg Bool.false_ne_true, List.foldl_append,
                        ← hnext]
                      exact ⟨hrest, hrestSkip.trans (hnextSkip.trans hskipFlag), hrestBlack⟩

/-- What a loop evaluates that reached its end, or a black list match, is what it would evaluate
without that match, as far as it went. -/
theorem evaluations_prefix :
    ∀ (n : Nat) {m : Nat} {st st' : LoopState} {reason : LoopEnd}, n ≤ m →
      readArgsLoop env keys n st = (reason, st') → reason = .done ∨ reason = .blacklisted →
      st.evaluations env keys false n <+: st.evaluations env keys true m ∧
        (reason = .done → st.evaluations env keys false n = st.evaluations env keys true m)
  | 0, _, _, _, _, _, h, hreason => by
      obtain ⟨rfl, -⟩ := Prod.mk.inj h
      rcases hreason with heq | heq <;> cases heq
  | n + 1, m, st, st', reason, hle, h, hreason => by
      obtain ⟨m, rfl⟩ : ∃ m', m = m' + 1 := ⟨m - 1, by omega⟩
      unfold readArgsLoop at h
      unfold LoopState.evaluations
      cases hfetch : st.fetch env keys with
      | none => exact ⟨List.prefix_refl _, fun _ => rfl⟩
      | some x =>
          obtain ⟨op, mid⟩ := x
          rw [hfetch] at h
          dsimp only at h ⊢
          by_cases hskip : mid.ctx.opCode = .skip
          · rw [if_pos hskip, if_pos hskip]
            exact ⟨List.prefix_refl _, fun _ => rfl⟩
          · rw [if_neg hskip] at h ⊢
            rw [if_neg hskip]
            cases hexec : mid.exec env op with
            | mk goesOn next =>
                rw [hexec] at h
                cases goesOn with
                | false => exact ⟨List.prefix_refl _, fun _ => rfl⟩
                | true =>
                    dsimp only at h ⊢
                    rw [Bool.not_true, Bool.and_false, if_neg Bool.false_ne_true]
                    by_cases hend : next.ctx.matchBlacklist = true
                    · rw [if_pos hend] at h
                      obtain ⟨rfl, -⟩ := Prod.mk.inj h
                      rw [hend, Bool.not_false, Bool.and_true, if_pos rfl, List.append_nil]
                      exact ⟨List.prefix_append .., fun hdone => by cases hdone⟩
                    · rw [if_neg hend] at h
                      obtain ⟨hstarts, hdone⟩ :=
                        evaluations_prefix n (Nat.le_of_succ_le_succ hle) h hreason
                      rw [Bool.eq_false_iff.mpr hend, Bool.false_and, if_neg Bool.false_ne_true]
                      exact ⟨(List.prefix_append_right_inj _).mpr hstarts,
                        fun heq => congrArg (_ ++ ·) (hdone heq)⟩

end Loop

/-! ## Runs -/

/-- A call of `read_args` by a probe, on what earlier events left. -/
structure ReadArgsCall where
  maxOp : Nat
  probe : Probe
  env : ProbeEnv
  pointArgs : PointArgs maxOp
  ret : u64
  leftover : OpCtx
  event : EventData
  strBuf : StrBufMap

namespace ReadArgsCall

def start (c : ReadArgsCall) : LoopState := c.probe.enter c.env c.ret c.leftover c.event c.strBuf

def result (c : ReadArgsCall) : LoopEnd × LoopState :=
  readArgs c.env c.pointArgs c.start.ctx c.event c.strBuf

/-- The event is skipped. -/
def skipped (c : ReadArgsCall) : Bool := c.result.2.ctx.skipFlag

/-- The loop reached its terminator or a black list match. -/
def Completes (c : ReadArgsCall) : Prop := c.result.1 = .done ∨ c.result.1 = .blacklisted

/-- The filters that were evaluated. -/
def evaluated (c : ReadArgsCall) : List Evaluation :=
  c.start.evaluations c.env c.pointArgs.opKeyList false c.maxOp

/-- The filters that `n` iterations evaluate if no black list match ends the loop. -/
def whole (c : ReadArgsCall) (n : Nat) : List Evaluation :=
  c.start.evaluations c.env c.pointArgs.opKeyList true n

/-- The loop behind a result that is no early return. -/
theorem result_loop {c : ReadArgsCall} (h : c.Completes) :
    ∃ st, readArgsLoop c.env c.pointArgs.opKeyList c.maxOp c.start = (c.result.1, st) ∧
      c.skipped = st.ctx.applySkip.skipFlag := by
  unfold Completes skipped result readArgs at *
  change _ at h
  generalize hloop : readArgsLoop c.env c.pointArgs.opKeyList c.maxOp
    ⟨c.env.opList.lookup 0, c.start.ctx, c.event, c.strBuf⟩ = r at h ⊢
  obtain ⟨reason, st⟩ := r
  cases reason with
  | returned => rcases h with heq | heq <;> cases heq
  | _ => exact ⟨st, hloop, rfl⟩

theorem skipped_iff_evaluated {c : ReadArgsCall} (h : c.Completes) :
    c.skipped = true ↔ Skips c.evaluated := by
  obtain ⟨st, hloop, hskipped⟩ := result_loop h
  have hreturned : c.result.1 ≠ .returned := by
    rcases h with heq | heq <;> rw [heq] <;> decide
  obtain ⟨hflags, hskipFlag, -⟩ := readArgsLoop_flags c.maxOp rfl hloop hreturned
  have hfold := foldl_after c.evaluated .cleared
  have hevaluated : c.evaluated.foldl Flags.after .cleared = st.ctx.flags := hflags.symm
  rw [hevaluated] at hfold
  obtain ⟨hblack, happly, hwhite⟩ := hfold
  have hblack' : st.ctx.matchBlacklist = true ↔ _ := hblack
  have happly' : st.ctx.applyFilter = true ↔ _ := happly
  have hwhite' : st.ctx.matchWhitelist = true ↔ _ := hwhite
  have hclear : st.ctx.skipFlag = false := hskipFlag
  simp only [Flags.cleared, Bool.false_eq_true, false_or] at hblack' happly' hwhite'
  rw [hskipped, Skips, ← or_assoc, ← hblack', ← happly', ← hwhite']
  unfold OpCtx.applySkip
  cases st.ctx.matchBlacklist <;> cases st.ctx.applyFilter <;> cases st.ctx.matchWhitelist <;>
    simp [hclear]

/-- A black list match that ends the loop early takes nothing from the verdict. -/
theorem skipped_iff_whole {c : ReadArgsCall} (h : c.Completes) {n : Nat} (hn : c.maxOp ≤ n) :
    c.skipped = true ↔ Skips (c.whole n) := by
  obtain ⟨st, hloop, -⟩ := result_loop h
  obtain ⟨hstarts, hdone⟩ := evaluations_prefix c.maxOp hn hloop h
  rw [skipped_iff_evaluated h]
  rcases h with heq | heq
  · have hsame : c.evaluated = c.whole n := hdone heq
    rw [hsame]
  · have hreturned : c.result.1 ≠ .returned := by rw [heq]; decide
    obtain ⟨hflags, -, hblack⟩ := readArgsLoop_flags c.maxOp rfl hloop hreturned
    have hmatch : (c.evaluated.foldl Flags.after .cleared).matchBlacklist = true :=
      (congrArg Flags.matchBlacklist hflags).symm.trans (hblack.mpr heq)
    exact iff_of_true (skips_of_matchBlacklist hmatch (List.Subset.refl _))
      (skips_of_matchBlacklist hmatch hstarts.subset)

end ReadArgsCall

/-! ## Ops in another order

Filter ops that stand next to each other look at the same registers and addresses, and change
nothing but the flags. So they can change places. -/

/-- An op that evaluates a filter and does nothing else. -/
def OpConfig.isFilter (op : OpConfig) : Bool :=
  op.code ∈ [OpCode.filterValue, .filterBuffer, .filterString] && op.postCode = .skip

/-- The ops up to the order of filter ops that stand next to each other. -/
inductive Reordered : List OpConfig → List OpConfig → Prop
  | refl (ops : List OpConfig) : Reordered ops ops
  | filters {fs fs' : List OpConfig} (hfilter : ∀ op ∈ fs, op.isFilter = true)
      (h : fs.Perm fs') : Reordered fs fs'
  | append {as as' bs bs' : List OpConfig} (h : Reordered as as') (h' : Reordered bs bs') :
      Reordered (as ++ bs) (as' ++ bs')

/-- The state without the flags. -/
def OpState.unflagged (st : OpState) : OpState :=
  st.setData fun d =>
    { d with applyFilter := false, matchWhitelist := false, matchBlacklist := false }

/-- The states agree but for the flags, and no text is in `str_buf`. -/
def OpState.Agrees (st st' : OpState) : Prop :=
  st.unflagged = st'.unflagged ∧ st.strBuf = .empty

section Reorder

variable {env : ProbeEnv}

theorem evaluation_unflagged (env : ProbeEnv) (op : OpConfig) (code : OpCode) (st : OpState) :
    evaluation env op code st.unflagged = evaluation env op code st := by
  cases code <;> rfl

/-- No op looks at the flags. -/
theorem execOp_unflagged (env : ProbeEnv) (op : OpConfig) (code : OpCode) (st : OpState) :
    (execOp env op code st.unflagged).1 = (execOp env op code st).1 ∧
      (execOp env op code st.unflagged).2.unflagged = (execOp env op code st).2.unflagged := by
  cases code
  case filterValue =>
    unfold execOp
    dsimp only
    split <;> exact ⟨rfl, rfl⟩
  case filterBuffer =>
    unfold execOp
    dsimp only
    split
    · exact ⟨rfl, rfl⟩
    · split <;> exact ⟨rfl, rfl⟩
  case filterString =>
    unfold execOp
    dsimp only
    split
    · exact ⟨rfl, rfl⟩
    · rename_i filter _
      unfold OpState.filterString
      dsimp only
      cases filter.filterType <;> exact ⟨rfl, rfl⟩
  case readReg =>
    unfold execOp
    dsimp only
    split
    · rename_i hreg
      rw [if_pos (show (op.readIndex st.data.regIndex).toNat ≥ 33 from hreg)]
      exact ⟨rfl, rfl⟩
    · rename_i hreg
      rw [if_neg (show ¬ (op.readIndex st.data.regIndex).toNat ≥ 33 from hreg)]
      exact ⟨rfl, rfl⟩
  all_goals exact ⟨rfl, rfl⟩

/-- No op leaves a text in `str_buf`. -/
theorem execOp_strBuf_empty (env : ProbeEnv) (op : OpConfig) (code : OpCode) {st : OpState}
    (h : st.strBuf = .empty) : (execOp env op code st).2.strBuf = .empty := by
  cases code
  case filterValue | filterBuffer | readReg =>
    unfold execOp
    dsimp only
    repeat' split
    all_goals exact h
  case filterString =>
    unfold execOp
    dsimp only
    split
    · exact h
    · show (strcmpByMap st.strBuf _).2 = .empty
      rw [h, strcmpByMap_empty]
  all_goals exact h

theorem OpState.Agrees.strBuf {st st' : OpState} (h : st.Agrees st') : st'.strBuf = .empty :=
  (congrArg OpState.strBuf h.1).symm.trans h.2

theorem OpState.Agrees.exec {st st' : OpState} (h : st.Agrees st') (env : ProbeEnv)
    (op : OpConfig) (code : OpCode) :
    evaluation env op code st = evaluation env op code st' ∧
      (execOp env op code st).1 = (execOp env op code st').1 ∧
        (execOp env op code st).2.Agrees (execOp env op code st').2 := by
  obtain ⟨hgoes, hnext⟩ := execOp_unflagged env op code st
  obtain ⟨hgoes', hnext'⟩ := execOp_unflagged env op code st'
  refine ⟨?_, ?_, ?_, execOp_strBuf_empty env op code h.2⟩
  · rw [← evaluation_unflagged, h.1, evaluation_unflagged]
  · rw [← hgoes, h.1, hgoes']
  · rw [← hnext, h.1, hnext']

/-- A filter op changes nothing but the flags. -/
theorem execOp_filter {op : OpConfig} (hfilter : op.isFilter = true)
    (hfound : (env.argFilter.lookup op.value).isSome = true) {st : OpState}
    (hempty : st.strBuf = .empty) :
    (execOp env op op.code st).1 = true ∧ (execOp env op op.code st).2.Agrees st := by
  obtain ⟨filter, hfilterOf⟩ := Option.isSome_iff_exists.mp hfound
  have hcode : op.code ∈ [OpCode.filterValue, .filterBuffer, .filterString] :=
    of_decide_eq_true (Bool.and_eq_true_iff.mp hfilter).1
  have hbuf := execOp_strBuf_empty env op op.code hempty
  suffices (execOp env op op.code st).1 = true ∧
      (execOp env op op.code st).2.unflagged = st.unflagged from ⟨this.1, this.2, hbuf⟩
  simp only [List.mem_cons, List.not_mem_nil, or_false] at hcode
  rcases hcode with hcode | hcode | hcode
  · rw [hcode]
    simp only [execOp, hfilterOf]
    exact ⟨trivial, rfl⟩
  · rw [hcode]
    simp only [execOp, hfilterOf]
    split <;> exact ⟨rfl, rfl⟩
  · rw [hcode] at hbuf ⊢
    simp only [execOp, hfilterOf] at hbuf ⊢
    refine ⟨trivial, ?_⟩
    have hsame : (st.filterString env.mem filter).strBuf = st.strBuf := hbuf.trans hempty.symm
    unfold OpState.unflagged OpState.setData
    rw [hsame]
    unfold OpState.filterString
    dsimp only
    cases filter.filterType <;> rfl

/-- The evaluations that a list of codes makes if no black list match ends the loop, and the state
it leaves unless an op returns early. -/
def evaluationsOf (env : ProbeEnv) :
    List (OpConfig × OpCode) → OpState → List Evaluation × Option OpState
  | [], st => ([], some st)
  | x :: xs, st =>
      match execOp env x.1 x.2 st with
      | (false, _) => ([], none)
      | (true, next) =>
          let rest := evaluationsOf env xs next
          ((evaluation env x.1 x.2 st).toList ++ rest.1, rest.2)

theorem evaluationsOf_append (xs ys : List (OpConfig × OpCode)) (st : OpState) :
    evaluationsOf env (xs ++ ys) st =
      match evaluationsOf env xs st with
      | (es, none) => (es, none)
      | (es, some mid) => (es ++ (evaluationsOf env ys mid).1, (evaluationsOf env ys mid).2) := by
  induction xs generalizing st with
  | nil => rfl
  | cons x xs ih =>
      rw [List.cons_append, evaluationsOf, evaluationsOf]
      cases hexec : execOp env x.1 x.2 st with
      | mk goesOn next =>
          cases goesOn with
          | false => rfl
          | true =>
              dsimp only
              rw [ih next]
              cases hrest : evaluationsOf env xs next with
              | mk es o =>
                  cases o with
                  | none => rfl
                  | some mid =>
                      dsimp only
                      rw [List.append_assoc]

/-- The same evaluations up to their order, and states that agree. -/
def SameEvaluations (r r' : List Evaluation × Option OpState) : Prop :=
  r.1.Perm r'.1 ∧ Option.Rel OpState.Agrees r.2 r'.2

theorem sameEvaluations_self (xs : List (OpConfig × OpCode)) :
    ∀ {st st' : OpState}, st.Agrees st' →
      SameEvaluations (evaluationsOf env xs st) (evaluationsOf env xs st') := by
  induction xs with
  | nil => exact fun h => ⟨List.Perm.refl [], .some h⟩
  | cons x xs ih =>
      intro st st' h
      obtain ⟨hevaluation, hgoes, hnext⟩ := h.exec env x.1 x.2
      unfold evaluationsOf
      rw [← hevaluation]
      generalize execOp env x.1 x.2 st = r at hgoes hnext ⊢
      generalize execOp env x.1 x.2 st' = r' at hgoes hnext ⊢
      obtain ⟨goesOn, next⟩ := r
      obtain ⟨goesOn', next'⟩ := r'
      obtain rfl : goesOn = goesOn' := hgoes
      cases goesOn with
      | false => exact ⟨List.Perm.refl [], .none⟩
      | true => exact ⟨(ih hnext).1.append_left _, (ih hnext).2⟩

/-- A group of filters is evaluated in the state before it. -/
theorem evaluationsOf_filters {fs : List OpConfig} (hfilter : ∀ op ∈ fs, op.isFilter = true)
    (hfound : ∀ op ∈ fs, (env.argFilter.lookup op.value).isSome = true) {st : OpState}
    (hempty : st.strBuf = .empty) :
    (evaluationsOf env (fs.flatMap OpConfig.steps) st).1 =
        fs.flatMap (fun op => (evaluation env op op.code st).toList) ∧
      ∃ o, (evaluationsOf env (fs.flatMap OpConfig.steps) st).2 = some o ∧ o.Agrees st := by
  induction fs generalizing st with
  | nil => exact ⟨rfl, st, rfl, rfl, hempty⟩
  | cons op fs ih =>
      obtain ⟨hop, hfilter⟩ := List.forall_mem_cons.mp hfilter
      obtain ⟨hopFound, hfound⟩ := List.forall_mem_cons.mp hfound
      obtain ⟨hgoes, hagrees⟩ := execOp_filter hop hopFound hempty
      have hpost : op.postCode = .skip := of_decide_eq_true (Bool.and_eq_true_iff.mp hop).2
      have hsteps : op.steps = [(op, op.code)] := by
        unfold OpConfig.steps
        rw [if_pos hpost]
      generalize hexec : execOp env op op.code st = r at hgoes hagrees
      obtain ⟨goesOn, next⟩ := r
      obtain rfl : goesOn = true := hgoes
      have hcons : evaluationsOf env ((op :: fs).flatMap OpConfig.steps) st =
          ((evaluation env op op.code st).toList ++
            (evaluationsOf env (fs.flatMap OpConfig.steps) next).1,
            (evaluationsOf env (fs.flatMap OpConfig.steps) next).2) := by
        rw [List.flatMap_cons, hsteps, List.singleton_append, evaluationsOf]
        dsimp only
        rw [hexec]
      obtain ⟨hlist, o, ho, hoAgrees⟩ := ih hfilter hfound hagrees.2
      have hsame : (fun op : OpConfig => (evaluation env op op.code next).toList) =
          fun op => (evaluation env op op.code st).toList := by
        funext op'
        rw [(hagrees.exec env op' op'.code).1]
      rw [hcons, hlist, hsame, List.flatMap_cons]
      exact ⟨rfl, o, ho, hoAgrees.1.trans hagrees.1, hoAgrees.2⟩

/-- Filters that change places among themselves make the same evaluations. -/
theorem Reordered.sameEvaluations {ops ops' : List OpConfig} (h : Reordered ops ops')
    (hfound : ∀ op ∈ ops, op.isFilter = true → (env.argFilter.lookup op.value).isSome = true) :
    ∀ {st st' : OpState}, st.Agrees st' →
      SameEvaluations (evaluationsOf env (ops.flatMap OpConfig.steps) st)
        (evaluationsOf env (ops'.flatMap OpConfig.steps) st') := by
  induction h with
  | refl ops => exact sameEvaluations_self _
  | @filters fs fs' hfilter hperm =>
      intro st st' hagrees
      have hfilter' : ∀ op ∈ fs', op.isFilter = true := fun op hop =>
        hfilter op (hperm.mem_iff.mpr hop)
      have hfound' : ∀ op ∈ fs', (env.argFilter.lookup op.value).isSome = true := fun op hop =>
        hfound op (hperm.mem_iff.mpr hop) (hfilter' op hop)
      obtain ⟨hlist, o, ho, hoAgrees⟩ := evaluationsOf_filters hfilter
        (fun op hop => hfound op hop (hfilter op hop)) hagrees.2
      obtain ⟨hlist', o', ho', hoAgrees'⟩ := evaluationsOf_filters hfilter' hfound'
        hagrees.strBuf
      have hsame : (fun op : OpConfig => (evaluation env op op.code st).toList) =
          fun op => (evaluation env op op.code st').toList := by
        funext op
        rw [(hagrees.exec env op op.code).1]
      unfold SameEvaluations
      rw [hlist, hlist', ho, ho', hsame]
      refine ⟨hperm.flatMap_right _, .some ⟨?_, hoAgrees.2⟩⟩
      calc o.unflagged = st.unflagged := hoAgrees.1
        _ = st'.unflagged := hagrees.1
        _ = o'.unflagged := hoAgrees'.1.symm
  | @append as as' bs bs' _ _ ih ih' =>
      intro st st' hagrees
      have hleft := ih (fun op hop => hfound op (List.mem_append_left bs hop)) hagrees
      rw [List.flatMap_append, List.flatMap_append, evaluationsOf_append, evaluationsOf_append]
      generalize evaluationsOf env (as.flatMap OpConfig.steps) st = r at hleft ⊢
      generalize evaluationsOf env (as'.flatMap OpConfig.steps) st' = r' at hleft ⊢
      obtain ⟨es, o⟩ := r
      obtain ⟨es', o'⟩ := r'
      obtain ⟨hes, ho⟩ := hleft
      cases ho with
      | none => exact ⟨hes, .none⟩
      | some hmid =>
          have hright := ih' (fun op hop => hfound op (List.mem_append_right as hop)) hmid
          exact ⟨hes.append hright.1, hright.2⟩

end Reorder

section Loop

variable {maxOp : Nat} {env : ProbeEnv} {keys : Vector u32 maxOp}

/-- What an iteration adds to the evaluations of the iterations after it. -/
theorem evaluations_step {st mid : LoopState} {op : OpConfig} (n : Nat)
    (hfetch : st.fetch env keys = some (op, mid)) (hskip : mid.ctx.opCode ≠ .skip)
    (hfor : mid.ctx.opCode ≠ .forBreak) :
    st.evaluations env keys true (n + 1) =
      match execOp env op mid.ctx.opCode st.opState with
      | (false, _) => []
      | (true, o) => (evaluation env op mid.ctx.opCode st.opState).toList ++
          (mid.withOpState o).evaluations env keys true n := by
  have hmid : mid.opState = st.opState := fetch_opState hfetch
  rw [LoopState.evaluations, hfetch]
  dsimp only
  rw [if_neg hskip, exec_of_ne hfor, hmid]
  cases execOp env op mid.ctx.opCode st.opState with
  | mk goesOn o =>
      cases goesOn with
      | false => rfl
      | true =>
          dsimp only
          rw [Bool.not_true, Bool.and_false, if_neg Bool.false_ne_true]

/-- The evaluations of the iterations from `st` on are those of the codes `xs`, and then those of
the iterations from place `k` on. -/
def EvaluatesTo (env : ProbeEnv) (keys : Vector u32 maxOp) (st : LoopState)
    (xs : List (OpConfig × OpCode)) (k : Nat) : Prop :=
  ∃ next : OpState → LoopState, (∀ o, (next o).AtOp k ∧ (next o).opState = o) ∧
    ∀ n, st.evaluations env keys true (xs.length + n) =
      (evaluationsOf env xs st.opState).1 ++
        (evaluationsOf env xs st.opState).2.elim [] fun o =>
          (next o).evaluations env keys true n

/-- The state of the loop after the fetch of an op and the execution of its codes. -/
theorem evaluatesTo_op (hmax : maxOp < 2 ^ 32) {st : LoopState} {k : Nat} {op : OpConfig}
    (hat : st.AtOp k) (hk : k < maxOp) (hkey : env.opList.lookup keys[k] = some op)
    (hforward : op.isForward = true) : EvaluatesTo env keys st op.steps (k + 1) := by
  have hfetch := fetch_atOp hat hk hkey
  have hindex : (st.ctx.opKeyIndex + 1).toNat = k + 1 := by
    rw [BitVec.toNat_add, hat.2]
    show (k + 1) % 2 ^ 32 = k + 1
    omega
  have hcodes : ∀ x ∈ op.steps, x.2 ≠ .skip ∧ x.2 ≠ .forBreak := fun x hx =>
    OpCode.isForward_iff.mp (List.all_eq_true.mp hforward x hx)
  obtain ⟨hskip, hfor⟩ := hcodes (op, op.code) (List.mem_cons_self ..)
  have hfirst (n : Nat) := evaluations_step n hfetch hskip hfor
  by_cases hpost : op.postCode = .skip
  · have hsteps : op.steps = [(op, op.code)] := by
      unfold OpConfig.steps
      rw [if_pos hpost]
    refine ⟨(st.fetched op).withOpState, fun o => ⟨⟨hpost, hindex⟩, rfl⟩, fun n => ?_⟩
    rw [hsteps, List.length_singleton, Nat.add_comm 1 n, hfirst n, evaluationsOf]
    cases hexec : execOp env op op.code st.opState with
    | mk goesOn o =>
        rw [show execOp env op (st.fetched op).ctx.opCode st.opState = (goesOn, o) from hexec]
        cases goesOn with
        | false => rfl
        | true =>
            dsimp only [evaluationsOf, Option.elim]
            rw [List.append_nil]
            rfl
  · have hsteps : op.steps = [(op, op.code), (op, op.postCode)] := by
      unfold OpConfig.steps
      rw [if_neg hpost]
    obtain ⟨hskip', hfor'⟩ := hcodes (op, op.postCode) (hsteps ▸ by simp)
    refine ⟨fun o => (st.fetched op).fetchedPost.withOpState o, fun o => ⟨⟨rfl, hindex⟩, rfl⟩,
      fun n => ?_⟩
    rw [hsteps, show [(op, op.code), (op, op.postCode)].length + n = n + 1 + 1 from
      Nat.add_comm 2 n, hfirst (n + 1), evaluationsOf]
    cases hexec : execOp env op op.code st.opState with
    | mk goesOn o =>
        rw [show execOp env op (st.fetched op).ctx.opCode st.opState = (goesOn, o) from hexec]
        cases goesOn with
        | false => rfl
        | true =>
            have hpending : ((st.fetched op).withOpState o).fetch env keys =
                some (op, ((st.fetched op).withOpState o).fetchedPost) :=
              fetch_pending rfl hpost
            dsimp only
            rw [evaluations_step n hpending hskip' hfor', evaluationsOf]
            cases hexec' : execOp env op op.postCode o with
            | mk goesOn' o' =>
                rw [show execOp env op ((st.fetched op).withOpState o).fetchedPost.ctx.opCode
                  ((st.fetched op).withOpState o).opState = (goesOn', o') from hexec']
                cases goesOn' with
                | false =>
                    dsimp only [Option.elim]
                    rw [List.append_nil, List.append_nil, List.append_nil]
                    rfl
                | true =>
                    dsimp only [evaluationsOf, Option.elim]
                    rw [List.append_nil, List.append_assoc]
                    rfl

/-- The iterations over a list of ops without loops make the evaluations of its codes. -/
theorem evaluatesTo_ops (hmax : maxOp < 2 ^ 32) {ops : List OpConfig} :
    ∀ {st : LoopState} {k : Nat}, st.AtOp k → KeysAt env keys k ops →
      (∀ op ∈ ops, op.isForward = true) →
      EvaluatesTo env keys st (ops.flatMap OpConfig.steps) (k + ops.length) := by
  induction ops with
  | nil =>
      intro st k hat _ _
      refine ⟨st.withOpState, fun o => ⟨hat, rfl⟩, fun n => ?_⟩
      rw [List.flatMap_nil, List.length_nil, Nat.zero_add]
      rfl
  | cons op ops ih =>
      intro st k hat hkeys hforward
      obtain ⟨⟨hk, hkey⟩, hrest⟩ := keysAt_cons hkeys
      obtain ⟨hop, hforward⟩ := List.forall_mem_cons.mp hforward
      obtain ⟨next, hnext, hfirst⟩ := evaluatesTo_op hmax hat hk hkey hop
      have hplace : k + (op :: ops).length = k + 1 + ops.length := by
        rw [List.length_cons]
        omega
      have hlen (n : Nat) : ((op :: ops).flatMap OpConfig.steps).length + n =
          op.steps.length + ((ops.flatMap OpConfig.steps).length + n) := by
        rw [List.flatMap_cons, List.length_append]
        omega
      have htail (o : OpState) := ih (hnext o).1 hrest hforward
      rw [hplace]
      cases hop' : evaluationsOf env op.steps st.opState with
      | mk es mid =>
          cases mid with
          | none =>
              obtain ⟨last, hlast, -⟩ := htail st.opState
              refine ⟨last, hlast, fun n => ?_⟩
              rw [hlen, hfirst, List.flatMap_cons, evaluationsOf_append, hop']
              rfl
          | some o =>
              obtain ⟨last, hlast, hlater⟩ := htail o
              refine ⟨last, hlast, fun n => ?_⟩
              rw [hlen, hfirst, List.flatMap_cons, evaluationsOf_append, hop']
              dsimp only [Option.elim]
              rw [hlater, (hnext o).2, List.append_assoc]
              rfl

/-- At the terminator nothing is evaluated any more. -/
theorem evaluations_terminator {st : LoopState} {k : Nat} {op : OpConfig} (hat : st.AtOp k)
    (hk : k < maxOp) (hkey : env.opList.lookup keys[k] = some op) (hskip : op.code = .skip)
    (n : Nat) : st.evaluations env keys true n = [] := by
  cases n with
  | zero => rfl
  | succ n =>
      rw [LoopState.evaluations, fetch_atOp hat hk hkey]
      exact if_pos hskip

end Loop

/-- The call runs over these ops, which do not repeat, up to the terminator; the filters that they
name exist. -/
structure ReadArgsCall.RunsOver (c : ReadArgsCall) (ops : List OpConfig) : Prop where
  maxOp_lt : c.maxOp < 2 ^ 32
  loaded : ∃ op, c.env.opList.lookup 0 = some op
  keys : KeysAt c.env c.pointArgs.opKeyList 0 ops
  terminator : ∃ (hk : ops.length < c.maxOp) (op : OpConfig),
    c.env.opList.lookup c.pointArgs.opKeyList[ops.length] = some op ∧ op.code = .skip
  forward : ∀ op ∈ ops, op.isForward = true
  found : ∀ op ∈ ops, op.isFilter = true → (c.env.argFilter.lookup op.value).isSome = true
  idle : c.leftover.Idle
  alone : c.strBuf = .empty

/-- The whole of the evaluations of such a call. -/
theorem whole_of_runsOver {c : ReadArgsCall} {ops : List OpConfig} (h : c.RunsOver ops) :
    ∃ n, c.maxOp ≤ n ∧ c.whole n =
      (evaluationsOf c.env (ops.flatMap OpConfig.steps) c.start.opState).1 := by
  obtain ⟨hk, last, hlast, hskip⟩ := h.terminator
  have hfrom (st : LoopState) (hat : st.AtOp 0) (n : Nat) :
      st.evaluations c.env c.pointArgs.opKeyList true
          ((ops.flatMap OpConfig.steps).length + n) =
        (evaluationsOf c.env (ops.flatMap OpConfig.steps) st.opState).1 := by
    obtain ⟨next, hnext, heval⟩ := evaluatesTo_ops h.maxOp_lt hat h.keys h.forward
    rw [Nat.zero_add] at hnext
    rw [heval]
    cases (evaluationsOf c.env (ops.flatMap OpConfig.steps) st.opState).2 with
    | none => exact List.append_nil _
    | some o =>
        dsimp only [Option.elim]
        rw [evaluations_terminator (hnext o).1 hk hlast hskip, List.append_nil]
  obtain ⟨op, hop⟩ := h.loaded
  rcases h.idle with hpost | hpost
  · -- a cleared `post_code` costs one iteration
    have hne : c.start.ctx.postCode ≠ .skip := by
      show c.leftover.postCode ≠ .skip
      rw [hpost]
      decide
    have hzero : c.start.fetchedPost.ctx.opCode = .zero := hpost
    have hstep := evaluations_step ((ops.flatMap OpConfig.steps).length + c.maxOp)
      (@fetch_pending c.maxOp c.env c.pointArgs.opKeyList c.start op hop hne)
      (by rw [hzero]; decide) (by rw [hzero]; decide)
    rw [hzero] at hstep
    refine ⟨(ops.flatMap OpConfig.steps).length + c.maxOp + 1, by omega, hstep.trans ?_⟩
    exact hfrom (c.start.fetchedPost.withOpState c.start.opState) ⟨rfl, rfl⟩ c.maxOp
  · exact ⟨(ops.flatMap OpConfig.steps).length + c.maxOp, by omega,
      hfrom c.start ⟨hpost, rfl⟩ c.maxOp⟩

/-- **The verdict of the filters.** Of an op list that runs to its terminator or to a black list
match, the event is skipped exactly when a black list matched, a comparison raised
`match_blacklist`, or a white list was evaluated and none matched. The verdict is the same for any
other such run whose filters, none of them kept from being evaluated, find the same in another
order; and filter ops of a list that stand next to each other can change places. -/
theorem verdict_iff_skips (c : ReadArgsCall) (h : c.Completes) :
    (c.skipped = true ↔ Skips c.evaluated) ∧
    (∀ (c' : ReadArgsCall) (n n' : Nat), c'.Completes → c.maxOp ≤ n → c'.maxOp ≤ n' →
      (c.whole n).Perm (c'.whole n') → c'.skipped = c.skipped) ∧
    ∀ (pointArgs : PointArgs c.maxOp) (ops ops' : List OpConfig),
      ({ c with pointArgs := pointArgs } : ReadArgsCall).Completes → c.RunsOver ops →
      ({ c with pointArgs := pointArgs } : ReadArgsCall).RunsOver ops' → Reordered ops ops' →
      ({ c with pointArgs := pointArgs } : ReadArgsCall).skipped = c.skipped := by
  have hperm (c' : ReadArgsCall) (n n' : Nat) (h' : c'.Completes) (hn : c.maxOp ≤ n)
      (hn' : c'.maxOp ≤ n') (hes : (c.whole n).Perm (c'.whole n')) : c'.skipped = c.skipped := by
    rw [Bool.eq_iff_iff, ReadArgsCall.skipped_iff_whole h hn,
      ReadArgsCall.skipped_iff_whole h' hn']
    exact (skips_perm hes).symm
  refine ⟨ReadArgsCall.skipped_iff_evaluated h, hperm, ?_⟩
  intro pointArgs ops ops' h' hruns hruns' hreordered
  obtain ⟨n, hn, hwhole⟩ := whole_of_runsOver hruns
  obtain ⟨n', hn', hwhole'⟩ := whole_of_runsOver hruns'
  refine hperm _ n n' h' hn hn' ?_
  rw [hwhole, hwhole']
  exact (hreordered.sameEvaluations hruns.found ⟨rfl, hruns.alone⟩).1

/-- A call in a process with `x0 = 7`, under an op that reads `x0` and two filters on it, `eq:7`
and `eq:8`. -/
def twoFiltersCall : ReadArgsCall where
  maxOp := stackMaxOpCount
  probe := .probeStack
  env :=
    { mem := fun _ => none
      regs := .ofX0 7
      opList := (((BoundedMap.empty.put 0 ⟨.skip, .skip, .skip, 0⟩).put
        1 ⟨.readReg, .setRegIndex, .saveReg, 0⟩).put
        2 ⟨.filterValue, .skip, .skip, 1⟩).put
        3 ⟨.filterValue, .skip, .skip, 2⟩
      argFilter := (BoundedMap.empty.put 1 ⟨.equal, Vector.replicate 256 0, 0, 7⟩).put
        2 ⟨.equal, Vector.replicate 256 0, 0, 8⟩ }
  pointArgs :=
    ⟨0, 3, ((Vector.replicate _ 0).setIfInBounds 0 1).setIfInBounds 1 2 |>.setIfInBounds 2 3⟩
  ret := 0
  leftover := .cleared
  event := .init
  strBuf := .empty

/-- The second filter raises `match_blacklist`, so the event is skipped. -/
theorem twoFiltersCall_skipped :
    twoFiltersCall.evaluated = [.value false, .value true] ∧ twoFiltersCall.skipped = true := by
  have hevaluated : twoFiltersCall.evaluated = [.value false, .value true] := by
    decide +kernel
  have hblack : twoFiltersCall.result.1 = .blacklisted := by decide +kernel
  have hskips : Skips twoFiltersCall.evaluated := Or.inr (Or.inl (by rw [hevaluated]; decide))
  exact ⟨hevaluated, (verdict_iff_skips twoFiltersCall (Or.inr hblack)).1.mpr hskips⟩

end Stackplz
