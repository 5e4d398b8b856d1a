import Mathlib.Order.BooleanAlgebra.Defs
import Mathlib.Order.Lattice
import Stackplz.Probe.Isolation
import Stackplz.Probe.Loops

/-!
# Op lists that read what they have written

Whether a run reads a field of `op_ctx` before it writes it (`LoopState.clean`) can mostly be seen
from the op list alone. `readsWritten` goes through the ops once and keeps the fields that may
still hold a leftover; `OP_FOR_BREAK` takes the run back to a place that was passed with more of
them, so one pass is enough for every number of rounds (`clean_of_readsWritten`).
-/

set_option autoImplicit false

namespace Stackplz

/-! ## Stale fields -/

section Stale

variable {stale S : Stale} {fs gs : List Leftover}

theorem allFresh_of_le (hle : stale ≤ S) (hsub : fs ⊆ gs) (h : S.allFresh gs = true) :
    stale.allFresh fs = true := by
  refine List.all_eq_true.mpr fun f hf => ?_
  have hfresh : S f = false := not_stale_of_allFresh h (hsub hf)
  have hbelow : stale f ≤ S f := hle f
  rw [hfresh] at hbelow
  simp [Bool.eq_false_of_le_false hbelow]

theorem fresh_le (stale : Stale) (fs : List Leftover) : stale.fresh fs ≤ stale := by
  intro f
  show (stale f && !fs.contains f) ≤ stale f
  cases stale f <;> simp

theorem fresh_mono (hle : stale ≤ S) (hsub : gs ⊆ fs) : stale.fresh fs ≤ S.fresh gs := by
  intro f
  show (stale f && !fs.contains f) ≤ (S f && !gs.contains f)
  have hbelow : stale f ≤ S f := hle f
  by_cases hmem : f ∈ gs
  · have hboth : f ∈ fs := hsub hmem
    simp [hboth]
  · cases hf : stale f with
    | false => simp
    | true =>
        rw [hf] at hbelow
        have hstale : S f = true := Bool.eq_true_of_true_le hbelow
        simp [hstale, hmem, Bool.le_true]

end Stale

/-! ## What a code reads and writes -/

/-- The leftover fields that a code can depend on. -/
def OpCode.mayRead : OpCode → List Leftover
  | .setReadLenRegValue => [.readLen, .regValue]
  | .setReadLenPointerValue => [.readLen, .pointerValue]
  | .setReadCount => [.readLen]
  | .addOffset | .subOffset | .setTmpValue | .saveAddr | .readPointer | .saveString
  | .savePtrString | .readStdString => [.readAddr]
  | .moveRegValue | .setBreakCountRegValue | .saveReg => [.regValue]
  | .movePointerValue | .setBreakCountPointerValue | .savePointer => [.pointerValue]
  | .moveTmpValue => [.tmpValue]
  | .addReg | .subReg => [.readAddr, .regValue]
  | .saveStruct => [.readAddr, .readLen]
  | .filterValue => [.regValue]
  | .filterBuffer => [.readAddr]
  | .filterString => [.strLen, .readAddr]
  | .zero | .skip | .resetCtx | .setRegIndex | .setReadLen | .forBreak | .setBreakCount
  | .readReg | .readRet => []

/-- The leftover fields that a code has written when the loop goes on after it. -/
def OpCode.mustWrite : OpCode → List Leftover
  | .resetCtx => [.readAddr, .readLen, .regValue, .pointerValue]
  | .setReadLen => [.readLen]
  | .moveRegValue | .movePointerValue | .moveTmpValue => [.readAddr]
  | .setTmpValue => [.tmpValue]
  | .readReg | .readRet => [.regValue]
  | .readPointer => [.pointerValue]
  | _ => []

/-- The codes that can stand inside a loop, and those that can stand outside: the rounds to go are
set before the loop, and only a string of an array can end it early. -/
def OpCode.standsIn (inLoop : Bool) (code : OpCode) : Bool :=
  code != .forBreak && if inLoop then !code.writesBreakCount else code != .savePtrString

section Codes

variable {env : ProbeEnv} {op : OpConfig} {code : OpCode} {st : OpState}

theorem reads_subset (env : ProbeEnv) (op : OpConfig) (code : OpCode) (st : OpState) :
    OpState.reads env op code st ⊆ code.mayRead := by
  cases code
  case filterValue | filterBuffer | filterString =>
    unfold OpState.reads
    dsimp only
    repeat' split
    all_goals simp [OpCode.mayRead]
  all_goals exact List.Subset.refl _

theorem mustWrite_subset (h : (execOp env op code st).1 = true) :
    code.mustWrite ⊆ st.writes env op code := by
  cases code
  case readReg =>
    by_cases hbad : (op.readIndex st.data.regIndex).toNat ≥ 33
    · simp [execOp, hbad] at h
    · simp [OpCode.mustWrite, OpState.writes, hbad]
  all_goals first
    | exact List.Subset.refl _
    | exact List.nil_subset _

end Codes

/-! ## The pass over an op list -/

/-- The code can stand here, and what it may read is fresh. -/
def OpCode.readsFresh (stale : Stale) (inLoop : Bool) (code : OpCode) : Bool :=
  code.standsIn inLoop && stale.allFresh code.mayRead

/-- The fields that may still hold a leftover after an op. -/
def OpConfig.after (stale : Stale) (op : OpConfig) : Stale :=
  (stale.fresh op.code.mustWrite).fresh op.postCode.mustWrite

/-- Every op reads fields that are written before it, and every loop is closed. -/
def readsWritten : Stale → Bool → List OpConfig → Bool
  | _, inLoop, [] => !inLoop
  | stale, inLoop, op :: ops =>
      if op.code = .forBreak then
        decide (op.postCode = .skip) && readsWritten stale (!inLoop) ops
      else
        op.code.readsFresh stale inLoop &&
          op.postCode.readsFresh (stale.fresh op.code.mustWrite) inLoop &&
            readsWritten (op.after stale) inLoop ops

theorem readsFresh_mono {stale S : Stale} (hle : stale ≤ S) {inLoop : Bool} {code : OpCode}
    (h : code.readsFresh S inLoop = true) : code.readsFresh stale inLoop = true := by
  obtain ⟨hstands, hfresh⟩ := Bool.and_eq_true_iff.mp h
  exact Bool.and_eq_true_iff.mpr ⟨hstands, allFresh_of_le hle (List.Subset.refl _) hfresh⟩

theorem after_mono {stale S : Stale} (hle : stale ≤ S) (op : OpConfig) :
    op.after stale ≤ op.after S :=
  fresh_mono (fresh_mono hle (List.Subset.refl _)) (List.Subset.refl _)

/-- With fewer leftovers the list is as good. -/
theorem readsWritten_mono {stale S : Stale} (hle : stale ≤ S) {inLoop : Bool}
    {ops : List OpConfig} (h : readsWritten S inLoop ops = true) :
    readsWritten stale inLoop ops = true := by
  induction ops generalizing stale S inLoop with
  | nil => exact h
  | cons op ops ih =>
      rw [readsWritten] at h ⊢
      by_cases hfor : op.code = .forBreak
      · rw [if_pos hfor, Bool.and_eq_true] at h ⊢
        exact ⟨h.1, ih hle h.2⟩
      · rw [if_neg hfor, Bool.and_eq_true, Bool.and_eq_true] at h ⊢
        obtain ⟨⟨hcode, hpost⟩, hrest⟩ := h
        refine ⟨⟨readsFresh_mono hle hcode, ?_⟩, ih (after_mono hle op) hrest⟩
        exact readsFresh_mono (fresh_mono hle (List.Subset.refl _)) hpost

/-- The fields that may still hold a leftover after a list of ops. -/
def staleAfter (stale : Stale) (ops : List OpConfig) : Stale := ops.foldl OpConfig.after stale

theorem staleAfter_le (stale : Stale) (ops : List OpConfig) : staleAfter stale ops ≤ stale := by
  induction ops generalizing stale with
  | nil => exact le_refl stale
  | cons op ops ih =>
      calc staleAfter (op.after stale) ops
          ≤ op.after stale := ih _
        _ ≤ stale.fresh op.code.mustWrite := fresh_le _ _
        _ ≤ stale := fresh_le _ _

/-- One list behind the other, where the second may read what the first has written. -/
theorem readsWritten_append {stale : Stale} {inLoop : Bool} {ops ops' : List OpConfig}
    (h : readsWritten stale inLoop ops = true)
    (h' : readsWritten (staleAfter stale ops) false ops' = true) :
    readsWritten stale inLoop (ops ++ ops') = true := by
  induction ops generalizing stale inLoop with
  | nil =>
      have hout : inLoop = false := by simpa [readsWritten] using h
      rw [hout]
      exact h'
  | cons op ops ih =>
      rw [List.cons_append, readsWritten]
      rw [readsWritten] at h
      by_cases hfor : op.code = .forBreak
      · rw [if_pos hfor, Bool.and_eq_true, decide_eq_true_eq] at h ⊢
        have hsame : op.after stale = stale := by
          unfold OpConfig.after
          rw [hfor, h.1]
          exact (fresh_nil _).trans (fresh_nil _)
        refine ⟨h.1, ih h.2 ?_⟩
        rw [← hsame]
        exact h'
      · rw [if_neg hfor, Bool.and_eq_true] at h ⊢
        exact ⟨h.1, ih h.2 h'⟩

/-- One op before a list that may read what the op has written. -/
theorem readsWritten_cons {stale : Stale} {op : OpConfig} {ops : List OpConfig}
    (h : readsWritten stale false [op] = true)
    (h' : readsWritten (op.after stale) false ops = true) :
    readsWritten stale false (op :: ops) = true := readsWritten_append h h'

/-- Lists that read nothing from before them can stand in any order. -/
theorem readsWritten_flatMap {α : Type} {S : Stale} {f : α → List OpConfig} {xs : List α}
    (h : ∀ x ∈ xs, readsWritten S false (f x) = true) :
    readsWritten S false (xs.flatMap f) = true := by
  induction xs with
  | nil => rfl
  | cons x xs ih =>
      obtain ⟨hx, hxs⟩ := List.forall_mem_cons.mp h
      rw [List.flatMap_cons]
      exact readsWritten_append hx (readsWritten_mono (staleAfter_le S _) (ih hxs))

/-! ## A run over such a list -/

/-- The counters at a place that the pass has inside or outside of a loop. Outside no round is
done. Inside, a round goes back to a place that the pass has seen with no fewer leftovers. -/
structure LoopState.Counts (ops : List OpConfig) (stale : Stale) (inLoop : Bool)
    (st : LoopState) : Prop where
  outside : inLoop = false → st.ctx.loopCount = 0
  single : inLoop = true → st.ctx.loopCount = 0 → st.ctx.breakCount = 0
  back : inLoop = true → st.ctx.loopCount ≠ 0 → st.ctx.loopCount < st.ctx.breakCount →
    stale .loopIndex = false ∧
      ∃ S, stale ≤ S ∧ readsWritten S true (ops.drop st.ctx.loopIndex.toNat) = true

section Run

variable {maxOp : Nat} {env : ProbeEnv} {keys : Vector u32 maxOp} {ops : List OpConfig}
  {stale S : Stale} {inLoop : Bool} {st mid : LoopState} {op : OpConfig} {n : Nat}

theorem counts_mono {stale' : Stale} (hle : stale' ≤ stale) (h : st.Counts ops stale inLoop) :
    st.Counts ops stale' inLoop := by
  refine ⟨h.outside, h.single, fun hin hcount hlt => ?_⟩
  obtain ⟨hindex, S, hS, hpass⟩ := h.back hin hcount hlt
  refine ⟨?_, S, hle.trans hS, hpass⟩
  have hbelow : stale' .loopIndex ≤ stale .loopIndex := hle .loopIndex
  rw [hindex] at hbelow
  exact Bool.eq_false_of_le_false hbelow

theorem counts_outside (hcount : st.ctx.loopCount = 0) : st.Counts ops stale false :=
  ⟨fun _ => hcount, fun hin => absurd hin (by decide), fun hin => absurd hin (by decide)⟩

/-- A code that can stand here leaves the counters in order. -/
theorem counts_exec {code : OpCode} (hstands : code.standsIn inLoop = true)
    (h : mid.Counts ops stale inLoop) :
    (mid.withOpState (execOp env op code mid.opState).2).Counts ops stale inLoop := by
  have hstate : mid.opState.data.loopCount = mid.ctx.loopCount := rfl
  have hbreaks : mid.opState.data.breakCount = mid.ctx.breakCount := rfl
  cases inLoop with
  | false =>
      have hptr : code ≠ .savePtrString := by
        simp only [OpCode.standsIn, Bool.and_eq_true] at hstands
        simpa using hstands.2
      apply counts_outside
      exact (execOp_loopCount env op mid.opState hptr).trans (h.outside rfl)
  | true =>
      have hwrites : code.writesBreakCount = false := by
        simp only [OpCode.standsIn, Bool.and_eq_true] at hstands
        simpa using hstands.2
      have hbreak := execOp_breakCount env op mid.opState hwrites
      -- a string that cannot be saved ends the loop, and then no round goes back
      have hcount : (execOp env op code mid.opState).2.data.loopCount = mid.ctx.loopCount ∨
          (execOp env op code mid.opState).2.data.loopCount = mid.ctx.breakCount := by
        by_cases hptr : code = .savePtrString
        · subst hptr
          exact savePtrString_loopCount env.mem mid.opState
        · exact Or.inl (execOp_loopCount env op mid.opState hptr)
      refine ⟨fun hout => absurd hout (by decide), fun _ hzero => ?_, fun _ hne hlt => ?_⟩
      · show (execOp env op code mid.opState).2.data.breakCount = 0
        rw [hbreak, hbreaks]
        rcases hcount with hsame | hended
        · exact h.single rfl (hsame.symm.trans hzero)
        · exact hended.symm.trans hzero
      · have hlt' : (execOp env op code mid.opState).2.data.loopCount < mid.ctx.breakCount := by
          rw [← hbreaks, ← hbreak]
          exact hlt
        rcases hcount with hsame | hended
        · rw [hsame] at hlt'
          exact h.back rfl (fun hzero => hne (hsame.trans hzero)) hlt'
        · rw [hended] at hlt'
          exact absurd hlt' (BitVec.lt_irrefl _)

/-- One iteration: what its body reads is fresh, and the rest is clean. -/
theorem clean_succ (hpost : stale .postCode = false)
    (hfetch : st.fetch env keys = some (op, mid))
    (hreads : mid.ctx.opCode ≠ .skip →
      (stale.fresh [.opCode, .postCode]).allFresh (mid.reads env op) = true)
    (hnext : mid.ctx.opCode ≠ .skip → ∀ next, mid.exec env op = (true, next) →
      LoopState.clean env keys n
        ((stale.fresh [.opCode, .postCode]).fresh (mid.writes env op)) next = true) :
    LoopState.clean env keys (n + 1) stale st = true := by
  have hfresh : stale.allFresh st.fetchReads = true := by
    unfold LoopState.fetchReads
    split <;> simp [Stale.allFresh, hpost]
  unfold LoopState.clean
  rw [hfresh, Bool.true_and, hfetch]
  dsimp only
  by_cases hskip : mid.ctx.opCode = .skip
  · rw [if_pos hskip]
  · rw [if_neg hskip, hreads hskip, Bool.true_and]
    cases hexec : mid.exec env op with
    | mk goesOn next =>
        cases goesOn with
        | false => rfl
        | true =>
            dsimp only
            rw [hnext hskip next hexec, Bool.or_true]

/-- An iteration of a code that can stand here. -/
theorem clean_forward (hpost : stale .postCode = false) (hle : stale ≤ S)
    (hfetch : st.fetch env keys = some (op, mid))
    (hcode : mid.ctx.opCode.readsFresh S inLoop = true) (hcounts : mid.Counts ops stale inLoop)
    (hnext : ∀ stale' o, stale' .postCode = false → stale' ≤ S.fresh mid.ctx.opCode.mustWrite →
      (mid.withOpState o).Counts ops stale' inLoop →
      LoopState.clean env keys n stale' (mid.withOpState o) = true) :
    LoopState.clean env keys (n + 1) stale st = true := by
  obtain ⟨hstands, hfresh⟩ := Bool.and_eq_true_iff.mp hcode
  have hfor : mid.ctx.opCode ≠ .forBreak := by
    simp only [OpCode.standsIn, Bool.and_eq_true] at hstands
    simpa using hstands.1
  have hcontrol : stale.fresh [.opCode, .postCode] ≤ stale := fresh_le _ _
  apply clean_succ hpost hfetch
  · intro _
    have hreads : mid.reads env op ⊆ mid.ctx.opCode.mayRead := by
      unfold LoopState.reads
      rw [if_neg hfor]
      exact reads_subset env op mid.ctx.opCode _
    exact allFresh_of_le (hcontrol.trans hle) hreads hfresh
  · intro _ next hexec
    rw [exec_of_ne hfor] at hexec
    obtain ⟨hgoes, rfl⟩ := Prod.mk.inj hexec
    have hwrites : mid.ctx.opCode.mustWrite ⊆ mid.writes env op := by
      unfold LoopState.writes
      rw [if_neg hfor]
      exact mustWrite_subset hgoes
    apply hnext
    · simp [Stale.fresh]
    · exact fresh_mono (hcontrol.trans hle) hwrites
    · exact counts_mono ((fresh_le _ _).trans hcontrol) (counts_exec hstands hcounts)

/-- `OP_FOR_BREAK` opens a loop, goes back to its first op, or leaves it. -/
theorem counts_forBreak {k : Nat} (hindex : mid.ctx.opKeyIndex.toNat = k)
    (hcounts : mid.Counts ops stale inLoop) (hle : stale ≤ S)
    (hpass : readsWritten S (!inLoop) (ops.drop k) = true) :
    ∃ S' inLoop', stale.fresh [.loopIndex] ≤ S' ∧
      readsWritten S' inLoop' (ops.drop mid.ctx.forBreak.opKeyIndex.toNat) = true ∧
      LoopState.Counts ops (stale.fresh [.loopIndex]) inLoop'
        { mid with ctx := mid.ctx.forBreak } := by
  have hbelow : stale.fresh [.loopIndex] ≤ S := (fresh_le _ _).trans hle
  have hwritten : stale.fresh [.loopIndex] .loopIndex = false := by simp [Stale.fresh]
  cases inLoop with
  | false =>
      have hzero : mid.ctx.loopCount = 0 := hcounts.outside rfl
      obtain ⟨hkey, hbreak, -, hopens⟩ := forBreak_head hzero
      rw [hkey, hindex]
      refine ⟨S, true, hbelow, hpass, fun hout => absurd hout (by decide),
        fun _ hcount => ?_, fun _ hcount _ => ?_⟩
      · rcases hopens with ⟨hnone, -⟩ | ⟨-, hone, -⟩
        · exact hbreak.trans hnone
        · exact absurd (hone.symm.trans hcount) (by decide)
      · rcases hopens with ⟨-, hnone⟩ | ⟨-, -, hback⟩
        · exact absurd hnone hcount
        · refine ⟨hwritten, S, hbelow, ?_⟩
          show readsWritten S true (ops.drop mid.ctx.forBreak.loopIndex.toNat) = true
          rw [hback, hindex]
          exact hpass
  | true =>
      by_cases hlast : mid.ctx.breakCount ≤ mid.ctx.loopCount
      · rw [forBreak_last hlast]
        refine ⟨S, false, hbelow, ?_, counts_outside rfl⟩
        rw [hindex]
        exact hpass
      · have hlt : mid.ctx.loopCount < mid.ctx.breakCount := BitVec.not_le.mp hlast
        have hne : mid.ctx.loopCount ≠ 0 := by
          intro hzero
          have hnone : mid.ctx.breakCount = 0 := hcounts.single rfl hzero
          rw [hzero, hnone] at hlt
          exact absurd hlt (BitVec.lt_irrefl _)
        obtain ⟨-, S', hS', hback⟩ := hcounts.back rfl hne hlt
        have hbelow' : stale.fresh [.loopIndex] ≤ S' := (fresh_le _ _).trans hS'
        rw [forBreak_again hne hlt]
        refine ⟨S', true, hbelow', hback, fun hout => absurd hout (by decide),
          fun _ hcount => ?_, fun _ _ _ => ⟨hwritten, S', hbelow', hback⟩⟩
        -- the count is below the rounds to go, so it does not wrap
        have hwrap : mid.ctx.loopCount + 1 = 0 := hcount
        bv_omega

/-- An iteration of `OP_FOR_BREAK`. -/
theorem clean_forBreak {k : Nat} (hpost : stale .postCode = false) (hle : stale ≤ S)
    (hfetch : st.fetch env keys = some (op, mid)) (hfor : mid.ctx.opCode = .forBreak)
    (hindex : mid.ctx.opKeyIndex.toNat = k) (hcounts : mid.Counts ops stale inLoop)
    (hpass : readsWritten S (!inLoop) (ops.drop k) = true)
    (hnext : ∀ stale' S' inLoop' next, stale' .postCode = false → stale' ≤ S' →
      next.ctx.postCode = mid.ctx.postCode → next.Counts ops stale' inLoop' →
      readsWritten S' inLoop' (ops.drop next.ctx.opKeyIndex.toNat) = true →
      LoopState.clean env keys n stale' next = true) :
    LoopState.clean env keys (n + 1) stale st = true := by
  have hcontrol : stale.fresh [.opCode, .postCode] ≤ stale := fresh_le _ _
  apply clean_succ hpost hfetch
  · intro _
    unfold LoopState.reads OpCtx.forBreakReads
    rw [if_pos hfor]
    split
    · rename_i hback
      have hfresh : stale .loopIndex = false := by
        cases inLoop with
        | false => exact absurd (hcounts.outside rfl) hback.1
        | true => exact (hcounts.back rfl hback.1 hback.2).1
      simp [Stale.allFresh, Stale.fresh, hfresh]
    · rfl
  · intro _ next hexec
    have hwrites : mid.writes env op = [.loopIndex] := if_pos hfor
    unfold LoopState.exec at hexec
    rw [if_pos hfor] at hexec
    obtain ⟨-, rfl⟩ := Prod.mk.inj hexec
    obtain ⟨S', inLoop', hbelow, hpass', hcounts'⟩ :=
      counts_forBreak hindex (counts_mono hcontrol hcounts) (hcontrol.trans hle) hpass
    have hkept : mid.ctx.forBreak.postCode = mid.ctx.postCode := by
      unfold OpCtx.forBreak
      dsimp only
      split <;> rfl
    rw [hwrites]
    apply hnext _ S' inLoop' _ _ hbelow hkept hcounts' hpass'
    simp [Stale.fresh]

/-- **An op list that reads what it has written** leads to a run that reads no leftover, however
often its loops are run. -/
theorem clean_of_readsWritten (hmax : maxOp < 2 ^ 32)
    (hkeys : ∀ k (hk : k < maxOp) op, env.opList.lookup keys[k] = some op →
      ops[k]? = some op ∨ op.code = .skip)
    (n : Nat) {k : Nat} (hat : st.AtOp k) (hpost : stale .postCode = false) (hle : stale ≤ S)
    (hpass : readsWritten S inLoop (ops.drop k) = true) (hcounts : st.Counts ops stale inLoop) :
    LoopState.clean env keys n stale st = true := by
  induction n using Nat.strong_induction_on generalizing stale S inLoop st k with
  | _ n ih =>
    cases n with
    | zero => rfl
    | succ n =>
      cases hfetch : st.fetch env keys with
      | none =>
          have hfresh : stale.allFresh st.fetchReads = true := by
            unfold LoopState.fetchReads
            split <;> simp [Stale.allFresh, hpost]
          unfold LoopState.clean
          rw [hfresh, hfetch]
          rfl
      | some fetched =>
          obtain ⟨op, mid⟩ := fetched
          rcases fetch_cases hfetch with ⟨hpending, -⟩ | ⟨⟨hk, hlookup⟩, rfl⟩
          · exact absurd hat.1 hpending
          · have hindex : (st.ctx.opKeyIndex + 1).toNat = k + 1 := by
              rw [BitVec.toNat_add, hat.2]
              rw [hat.2] at hk
              show (k + 1) % 2 ^ 32 = k + 1
              omega
            rcases hkeys _ hk op hlookup with hop | hskip
            · rw [hat.2] at hop
              obtain ⟨hlt, hget⟩ := List.getElem?_eq_some_iff.mp hop
              rw [List.drop_eq_getElem_cons hlt, hget, readsWritten] at hpass
              have hmid : (st.fetched op).Counts ops stale inLoop :=
                ⟨hcounts.outside, hcounts.single, hcounts.back⟩
              by_cases hfor : op.code = .forBreak
              · rw [if_pos hfor, Bool.and_eq_true, decide_eq_true_eq] at hpass
                apply clean_forBreak hpost hle hfetch hfor hindex hmid hpass.2
                intro stale' S' inLoop' next hpost' hle' hkept hcounts' hpass'
                exact ih n (Nat.lt_succ_self n) ⟨hkept.trans hpass.1, rfl⟩ hpost' hle' hpass'
                  hcounts'
              · rw [if_neg hfor, Bool.and_eq_true, Bool.and_eq_true] at hpass
                obtain ⟨⟨hcode, hlater⟩, hrest⟩ := hpass
                apply clean_forward hpost hle hfetch hcode hmid
                intro stale' o hpost' hle' hcounts'
                by_cases hskip : op.postCode = .skip
                · have hsame : op.after S = S.fresh op.code.mustWrite := by
                    unfold OpConfig.after
                    rw [hskip]
                    exact fresh_nil _
                  rw [hsame] at hrest
                  exact ih n (Nat.lt_succ_self n) ⟨hskip, hindex⟩ hpost' hle' hrest hcounts'
                · cases n with
                  | zero => rfl
                  | succ n =>
                      have hpending : ((st.fetched op).withOpState o).fetch env keys =
                          some (op, ((st.fetched op).withOpState o).fetchedPost) :=
                        fetch_pending rfl hskip
                      have hmid' : ((st.fetched op).withOpState o).fetchedPost.Counts ops stale'
                          inLoop := ⟨hcounts'.outside, hcounts'.single, hcounts'.back⟩
                      apply clean_forward hpost' hle' hpending hlater hmid'
                      intro stale'' o' hpost'' hle'' hcounts''
                      exact ih n (by omega) ⟨rfl, hindex⟩ hpost'' hle'' hrest hcounts''
            · apply clean_succ hpost hfetch
              · intro hcode
                exact absurd hskip hcode
              · intro hcode
                exact absurd hskip hcode

/-! ## The start of a run -/

/-- The state in which the first op is fetched. -/
def LoopState.atStart (st : LoopState) (code : OpCode) : LoopState :=
  { st with ctx := { st.ctx with opCode := code, postCode := .skip } }

/-- With nothing pending a loop that is not cut off starts at its first op. -/
theorem readArgsLoop_atStart (hop : st.op = some op) (hidle : st.ctx.Idle)
    (hblack : st.ctx.matchBlacklist = false)
    (hend : (readArgsLoop env keys n st).1 ≠ .bound) :
    ∃ code, readArgsLoop env keys n st = readArgsLoop env keys n (st.atStart code) := by
  rcases hidle with hpost | hpost
  · cases n with
    | zero => exact absurd rfl hend
    | succ n =>
        have hexec : execOp env op st.ctx.postCode st.opState = (true, st.opState) := by
          rw [hpost]
          rfl
        have hround : readArgsLoop env keys (n + 1) st =
            readArgsLoop env keys n (st.atStart st.ctx.postCode) :=
          readArgsLoop_advance (advance_pending hop (by rw [hpost]; decide)
            (by rw [hpost]; decide) hexec hblack)
        refine ⟨st.ctx.postCode, hround.trans (readArgsLoop_succ n ?_).symm⟩
        rwa [← hround]
  · refine ⟨st.ctx.opCode, ?_⟩
    have hsame : st.atStart st.ctx.opCode = st := by
      unfold LoopState.atStart
      rw [← hpost]
    rw [hsame]

end Run

/-- Everything but the pending code may be a leftover when a run starts. -/
def staleAtStart : Stale := fun f => f != .postCode

section Start

variable {maxOp : Nat} {p : Probe} {env : ProbeEnv} {packed : PointArgs maxOp} {ret : u64}
  {event : EventData} {strBuf : StrBufMap} {ops : List OpConfig} {l l' : OpCtx}

/-- What `read_args` does after a loop that ended so. -/
def LoopEnd.close (reason : LoopEnd) (st : LoopState) : LoopState :=
  if reason = .returned then st else { st with ctx := st.ctx.applySkip }

theorem readArgs_eq (ctx : OpCtx) :
    readArgs env packed ctx event strBuf =
      ((readArgsLoop env packed.opKeyList maxOp ⟨env.opList.lookup 0, ctx, event, strBuf⟩).1,
        (readArgsLoop env packed.opKeyList maxOp ⟨env.opList.lookup 0, ctx, event, strBuf⟩).1.close
          (readArgsLoop env packed.opKeyList maxOp
            ⟨env.opList.lookup 0, ctx, event, strBuf⟩).2) := by
  unfold readArgs
  cases readArgsLoop env packed.opKeyList maxOp ⟨env.opList.lookup 0, ctx, event, strBuf⟩ with
  | mk reason st => cases reason <;> rfl

/-- The skip logic looks at no leftover. -/
theorem close_poison (reason : LoopEnd) (st : LoopState) (stale : Stale) (v : OpCtx) :
    reason.close (st.poison stale v) = (reason.close st).poison stale v := by
  have hskip : (st.ctx.poison stale v).applySkip = st.ctx.applySkip.poison stale v := by
    have hblack : (st.ctx.poison stale v).matchBlacklist = st.ctx.matchBlacklist := rfl
    have happly : (st.ctx.poison stale v).applyFilter = st.ctx.applyFilter := rfl
    have hwhite : (st.ctx.poison stale v).matchWhitelist = st.ctx.matchWhitelist := rfl
    unfold OpCtx.applySkip
    rw [hblack, happly, hwhite]
    split
    · rfl
    · split <;> rfl
  unfold LoopEnd.close
  split
  · rfl
  · unfold LoopState.poison
    dsimp only
    rw [hskip]

/-- **A run forgets what was left.** Two runs that find nothing pending end in states that differ
in leftover fields only. -/
theorem run_forgets (hmax : maxOp < 2 ^ 32)
    (hkeys : ∀ k (hk : k < maxOp) op, env.opList.lookup packed.opKeyList[k] = some op →
      ops[k]? = some op ∨ op.code = .skip) {op : OpConfig} (hop : env.opList.lookup 0 = some op)
    (hpass : readsWritten staleAtStart false ops = true) (hidle : l.Idle) (hidle' : l'.Idle)
    (hend : ∀ leftover : OpCtx, leftover.Idle → (readArgs env packed
      (leftover.start (p.reg0 env.regs ret) p.saveIndex) event strBuf).1 ≠ .bound) :
    ∃ stale v, p.run env packed ret l' event strBuf =
      (p.run env packed ret l event strBuf).poison stale v := by
  -- both loops are those of their first op, whatever code they would have idled on
  have hstart (l : OpCtx) (hidle : l.Idle) : ∃ code, readArgsLoop env packed.opKeyList maxOp
      (p.enter env ret l event strBuf) = readArgsLoop env packed.opKeyList maxOp
        ((p.enter env ret l event strBuf).atStart code) := by
    apply readArgsLoop_atStart hop hidle rfl
    have hbound := hend l hidle
    rwa [readArgs_eq] at hbound
  obtain ⟨code, hloop⟩ := hstart l hidle
  obtain ⟨code', hloop'⟩ := hstart l' hidle'
  have hclean : LoopState.clean env packed.opKeyList maxOp staleAtStart
      ((p.enter env ret l event strBuf).atStart code) = true := by
    have hat : ((p.enter env ret l event strBuf).atStart code).AtOp 0 := ⟨rfl, rfl⟩
    have hfirst : readsWritten staleAtStart false (ops.drop 0) = true := hpass
    exact clean_of_readsWritten hmax hkeys maxOp hat rfl (le_refl _) hfirst
      (counts_outside rfl)
  obtain ⟨stale, hpoison⟩ := readArgsLoop_poison
    (v := ((p.enter env ret l' event strBuf).atStart code').ctx) maxOp hclean
  have hother : ((p.enter env ret l event strBuf).atStart code).poison staleAtStart
      ((p.enter env ret l' event strBuf).atStart code').ctx =
        (p.enter env ret l' event strBuf).atStart code' := rfl
  rw [hother, ← hloop, ← hloop'] at hpoison
  have hread (l : OpCtx) : readArgs env packed (l.start (p.reg0 env.regs ret) p.saveIndex) event
      strBuf = _ := readArgs_eq (l.start (p.reg0 env.regs ret) p.saveIndex)
  unfold Probe.run
  dsimp only
  split
  · exact ⟨fun _ => true, l'.start (p.reg0 env.regs ret) p.saveIndex, rfl⟩
  · refine ⟨stale, ((p.enter env ret l' event strBuf).atStart code').ctx, ?_⟩
    rw [hread, hread]
    have hboth := congrArg (fun r => r.1.close r.2) hpoison
    exact hboth.trans (close_poison _ _ _ _)

end Start

end Stackplz
