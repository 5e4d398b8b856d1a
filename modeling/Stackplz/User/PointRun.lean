import Stackplz.Probe.Verdict
import Stackplz.User.Leftover
import Stackplz.User.Sample

/-!
# A program run on a loaded point

The part of the four programs around `read_args`, on a point that start-up has packed. Whatever
earlier runs left in `op_ctx`, as long as it is idle: the run leaves it idle again, and an event
that is not skipped has the records of the arguments behind the words it started with.
-/

set_option autoImplicit false

namespace Stackplz

/-- An argument that the programs save and the decoder takes for the same. -/
structure PointArg.Decodable (program : PointType) (a : PointArg) : Prop where
  placed : a.regIndex ≠ regArm64Max
  /-- The return value, a register that exists, or a read address. -/
  located : a.isRet = true ∨ (a.extraOpList = [] ∧ a.regIndex.toNat % 256 < 33) ∨
    ∃ address : ReadAddress, a.extraOpList = address.ops ++ [opcSaveAddr]
  ret : a.isRet = true → a.ty.hasData = false
  registers : a.readMore = true → a.ty.RegsExist
  agrees : a.readMore = a.parseMore program ∨ a.ty.hasData = false

/-- The words of the arguments, and what is at them is readable. -/
structure WordsAt (env : ProbeEnv) (ret : u64) (program : PointType) (a : PointArg) (w : u64) :
    Prop where
  word : a.ReadsWord env ret w
  readable : a.parseMore program = true → a.ty.Readable env w

section Words

variable {env : ProbeEnv} {ret : u64} {program : PointType} {args : List PointArg}
  {words : List u64}

theorem savesAt_of_decodable (hargs : ∀ a ∈ args, a.Decodable program)
    (hwords : List.Forall₂ (WordsAt env ret program) args words) :
    List.Forall₂ (fun a w => a.SavesAt env ret w) args words := by
  induction hwords with
  | nil => exact List.Forall₂.nil
  | cons ha _ ih =>
      obtain ⟨hfirst, hlater⟩ := List.forall_mem_cons.mp hargs
      exact List.Forall₂.cons ⟨hfirst.placed, ha.word, hfirst.ret, hfirst.registers⟩ (ih hlater)

theorem readsBack_of_decodable (hargs : ∀ a ∈ args, a.Decodable program)
    (hwords : List.Forall₂ (WordsAt env ret program) args words) :
    List.Forall₂ (fun a w => a.ReadsBack env program w) args words := by
  induction hwords with
  | nil => exact List.Forall₂.nil
  | cons ha _ ih =>
      obtain ⟨hfirst, hlater⟩ := List.forall_mem_cons.mp hargs
      exact List.Forall₂.cons ⟨hfirst.agrees, ha.readable⟩ (ih hlater)

end Words

section Run

variable {maxOp : Nat} {m : OpManager} {env : ProbeEnv} {enterKey : u32} {args : List PointArg}
  {packed : PointArgs maxOp} {leftover : OpCtx}

/-- A point without ops has no arguments with a place. -/
theorem args_nil_of_opCount (hmax : maxOp < 2 ^ 32) (hpos : 0 < maxOp)
    (h : PackedIn m env.opList env.argFilter enterKey args packed) (hcount : packed.opCount = 0)
    (hplaced : ∀ a ∈ args, a.regIndex ≠ regArm64Max) : args = [] := by
  have hlen := (pack_holds hmax hpos h.packs).opCount
  rw [hcount, List.length_map] at hlen
  cases args with
  | nil => rfl
  | cons a args =>
      have hops := getOpList_eq (hplaced a List.mem_cons_self)
      have hword : 0 < a.wordOps.length := by
        unfold PointArg.wordOps
        split
        · exact Nat.zero_lt_succ _
        · split
          · exact List.length_pos_iff.mpr ‹_›
          · exact Nat.zero_lt_succ _
      have hpart : a.wordOps.length ≤ a.getOpList.length := by
        rw [hops, List.length_append]
        exact Nat.le_add_right _ _
      rw [List.flatMap_cons, List.length_append] at hlen
      have hzero : (0 : u32).toNat = 0 := rfl
      omega

/-- **A run leaves `op_ctx` idle.** -/
theorem run_idle (hmax : maxOp < 2 ^ 32) (hpos : 0 < maxOp) (p : Probe) (ret : u64)
    (h : PackedIn m env.opList env.argFilter enterKey args packed) (hfits : FitsBudget maxOp args)
    (hidle : leftover.Idle) (event : EventData) (strBuf : StrBufMap) :
    (p.run env packed ret leftover event strBuf).ctx.Idle := by
  unfold Probe.run
  dsimp only
  split
  · exact hidle
  · exact Or.inr (readArgs_idle hmax hpos p ret h hfits hidle event strBuf).2

/-- A run that completes and is not skipped has met no black list. -/
theorem done_of_completes {ctx : OpCtx} {event : EventData} {strBuf : StrBufMap}
    (hblack : ctx.matchBlacklist = false)
    (hcompletes : (readArgs env packed ctx event strBuf).1.completes = true)
    (hskip : (readArgs env packed ctx event strBuf).2.ctx.skipFlag = false) :
    (readArgs env packed ctx event strBuf).1 = .done := by
  unfold readArgs at hcompletes hskip ⊢
  cases hloop : readArgsLoop env packed.opKeyList maxOp
    ⟨env.opList.lookup 0, ctx, event, strBuf⟩ with
  | mk reason st =>
      rw [hloop] at hcompletes hskip
      cases reason with
      | done => rfl
      | bound | returned => cases hcompletes
      | blacklisted =>
          obtain ⟨-, -, hmatch⟩ := readArgsLoop_flags maxOp hblack hloop (by decide)
          have hflag : st.ctx.applySkip.skipFlag = true := by
            unfold OpCtx.applySkip
            rw [if_pos (hmatch.mpr rfl)]
          exact absurd (hflag.symm.trans hskip) (by decide)

/-- **A run that is not skipped saves its arguments.** -/
theorem run_saves (hmax : maxOp < 2 ^ 32) (hpos : 0 < maxOp) (p : Probe) (ret : u64)
    (h : PackedIn m env.opList env.argFilter enterKey args packed) (hfits : FitsBudget maxOp args)
    (hidle : leftover.Idle) (event : EventData) (strBuf : StrBufMap) {words : List u64}
    (hwords : List.Forall₂ (fun a w => a.SavesAt env (p.reg0 env.regs ret) w) args words)
    (hskip : (p.run env packed ret leftover event strBuf).ctx.skipFlag = false)
    (hroom : (p.run env packed ret leftover event strBuf).event.refused = false) :
    ∃ bytes, (p.run env packed ret leftover event strBuf).event.args = event.args ++ bytes ∧
      Encodes (recordsOf env args words) bytes := by
  unfold Probe.run at hskip hroom ⊢
  dsimp only at hskip hroom ⊢
  split at hskip
  · -- the uretprobe does not run the interpreter on an empty list
    rename_i hempty
    have hplaced : ∀ a ∈ args, a.regIndex ≠ regArm64Max := by
      intro a ha
      obtain ⟨i, hi, rfl⟩ := List.mem_iff_getElem.mp ha
      exact (hwords.get hi (hwords.length_eq ▸ hi)).placed
    have hnil := args_nil_of_opCount hmax hpos h hempty.2 hplaced
    subst hnil
    rw [if_pos hempty]
    exact ⟨[], (List.append_nil _).symm, .nil⟩
  · rename_i hempty
    rw [if_neg hempty] at hroom ⊢
    have hcompletes := (readArgs_idle hmax hpos p ret h hfits hidle event strBuf).1
    have hfresh := OpCtx.fresh_start hidle (p.reg0 env.regs ret) p.saveIndex
    have hdone := done_of_completes hfresh.matchBlacklist hcompletes hskip
    exact readArgs_appends hmax hpos h.loaded h.registered h.packs hwords hfresh hdone hroom

end Run

end Stackplz
