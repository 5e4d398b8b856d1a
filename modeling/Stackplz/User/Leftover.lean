import Stackplz.User.SavedArgs

/-!
# What a run leaves pending

`op_ctx` is never cleared as a whole, so a `post_code` that a run leaves behind is executed first
by the next one. The lists that a configuration packs leave none: the loop ends at the terminator
or at a filter, and neither has a `post_code`. Point lists that are packed and loaded, with room
for all their codes, therefore find and leave `op_ctx` idle, whichever of them run and in which
order.
-/

set_option autoImplicit false

namespace Stackplz

/-! ## The end of a loop -/

/-- The codes that can end the loop. -/
def endCodes : List OpCode := [.skip, .filterValue, .filterBuffer, .filterString]

/-- An op that can end the loop has nothing pending behind it. -/
def OpConfig.Settled (op : OpConfig) : Prop := op.code ∈ endCodes → op.postCode = .skip

/-- Only filters match a black list. -/
theorem execOp_matchBlacklist (env : ProbeEnv) (op : OpConfig) {code : OpCode} (st : OpState)
    (h : code ∉ endCodes) :
    (execOp env op code st).2.data.matchBlacklist = st.data.matchBlacklist := by
  cases code
  case skip | filterValue | filterBuffer | filterString => exact absurd (by decide) h
  case readReg =>
    unfold execOp
    dsimp only
    split <;> rfl
  all_goals rfl

section Loop

variable {maxOp : Nat} {env : ProbeEnv} {keys : Vector u32 maxOp}

/-- An iteration that matches a black list was one of a filter. -/
theorem exec_matchBlacklist {op : OpConfig} {mid next : LoopState} {goesOn : Bool}
    (hblack : mid.ctx.matchBlacklist = false) (hexec : mid.exec env op = (goesOn, next))
    (hmatch : next.ctx.matchBlacklist = true) :
    mid.ctx.opCode ∈ endCodes ∧ next.ctx.postCode = mid.ctx.postCode := by
  unfold LoopState.exec at hexec
  split at hexec
  · obtain ⟨-, rfl⟩ := Prod.mk.inj hexec
    have hsame : mid.ctx.forBreak.matchBlacklist = mid.ctx.matchBlacklist := by
      unfold OpCtx.forBreak
      dsimp only
      split <;> rfl
    rw [hsame, hblack] at hmatch
    cases hmatch
  · obtain ⟨-, rfl⟩ := Prod.mk.inj hexec
    refine ⟨?_, rfl⟩
    by_contra hother
    have hsame := execOp_matchBlacklist env op mid.opState hother
    have hblack' : mid.opState.data.matchBlacklist = false := hblack
    rw [hblack'] at hsame
    exact absurd (hsame.symm.trans hmatch) Bool.false_ne_true

/-- A fetched code that can end the loop leaves nothing pending. -/
theorem fetch_settled (hkeys : ∀ k (hk : k < maxOp) op, env.opList.lookup keys[k] = some op →
    op.Settled) {st mid : LoopState} {op : OpConfig} (h : st.fetch env keys = some (op, mid))
    (hend : mid.ctx.opCode ∈ endCodes) : mid.ctx.postCode = .skip := by
  rcases fetch_cases h with ⟨-, rfl⟩ | ⟨⟨hk, hlookup⟩, rfl⟩
  · rfl
  · exact hkeys _ hk op hlookup hend

/-- **A loop that ends at the terminator or at a black list** leaves nothing pending. -/
theorem readArgsLoop_settled (hkeys : ∀ k (hk : k < maxOp) op,
    env.opList.lookup keys[k] = some op → op.Settled) {n : Nat} {st st' : LoopState}
    {reason : LoopEnd} (hblack : st.ctx.matchBlacklist = false)
    (h : readArgsLoop env keys n st = (reason, st')) (hends : reason.completes = true) :
    st'.ctx.postCode = .skip := by
  induction n generalizing st with
  | zero =>
      obtain ⟨rfl, -⟩ := Prod.mk.inj h
      cases hends
  | succ n ih =>
      rw [readArgsLoop] at h
      cases hfetch : st.fetch env keys with
      | none =>
          rw [hfetch] at h
          obtain ⟨rfl, -⟩ := Prod.mk.inj h
          cases hends
      | some fetched =>
          obtain ⟨op, mid⟩ := fetched
          rw [hfetch] at h
          dsimp only at h
          -- three ways out of an iteration: the terminator, a code that fails, a black list
          split at h
          · rename_i hskip
            obtain ⟨-, rfl⟩ := Prod.mk.inj h
            exact fetch_settled hkeys hfetch (by rw [hskip]; decide)
          · have hmid : mid.ctx.matchBlacklist = false :=
              (congrArg (fun o => o.data.matchBlacklist) (fetch_opState hfetch)).trans hblack
            cases hexec : mid.exec env op with
            | mk goesOn next =>
                rw [hexec] at h
                cases goesOn with
                | false =>
                    obtain ⟨rfl, -⟩ := Prod.mk.inj h
                    cases hends
                | true =>
                    dsimp only at h
                    split at h
                    · rename_i hmatch
                      obtain ⟨-, rfl⟩ := Prod.mk.inj h
                      obtain ⟨hend, hpost⟩ := exec_matchBlacklist hmid hexec hmatch
                      exact hpost.trans (fetch_settled hkeys hfetch hend)
                    · rename_i hmatch
                      exact ih (Bool.eq_false_iff.mpr hmatch) h

end Loop

/-! ## The ops of a configuration -/

theorem settled_of_code {op : OpConfig} (h : op.code ∉ endCodes) : op.Settled :=
  fun hend => absurd hend h

theorem settled_of_isAddressOp {op : NamedOp} (h : op.isAddressOp = true) :
    op.toOpConfig.Settled := by
  simp only [NamedOp.isAddressOp, Bool.and_eq_true, decide_eq_true_eq] at h
  refine settled_of_code ?_
  obtain ⟨⟨hcode, -⟩, -⟩ := h
  revert hcode
  cases op.code <;> decide

theorem settled_of_isFilter {op : OpConfig} (h : op.isFilter = true) : op.Settled :=
  fun _ => (OpConfig.isFilter_iff.mp h).2

/-- No op list of a type ends the loop. -/
theorem settled_opList (ty : ArgType) : ∀ op ∈ ty.opList, op.toOpConfig.Settled := by
  have hcodes : ty.opList.all (fun op => decide (op.code ∉ endCodes)) = true := by
    induction ty with
    | pointerTo target style ih => exact Bool.and_eq_true_iff.mpr ⟨rfl, ih⟩
    | _ => rfl
  intro op hop
  exact settled_of_code (of_decide_eq_true (List.all_eq_true.mp hcodes op hop))

theorem settled_wordOps {a : PointArg} (h : IsAddressList a.extraOpList) :
    ∀ op ∈ a.wordOps, op.toOpConfig.Settled := by
  have hsave : opcSaveAddr.toOpConfig.Settled := settled_of_code (by decide)
  have hret : ∀ op ∈ [opcReadRet, opcSaveReg], op.toOpConfig.Settled :=
    List.forall_mem_cons.mpr ⟨settled_of_code (by decide),
      List.forall_mem_singleton.mpr (settled_of_code (by decide))⟩
  have hreg : ∀ op ∈ [readSaveReg (a.regIndex.setWidth 64), opcMoveRegValue],
      op.toOpConfig.Settled :=
    List.forall_mem_cons.mpr ⟨settled_of_code (show OpCode.readReg ∉ endCodes by decide),
      List.forall_mem_singleton.mpr (settled_of_code (by decide))⟩
  unfold PointArg.wordOps
  split
  · exact hret
  · split
    · rcases h with hnil | ⟨address, hops, haddress⟩
      · rw [hnil]
        exact List.forall_mem_nil _
      · rw [hops]
        exact List.forall_mem_append.mpr
          ⟨fun op hop => settled_of_isAddressOp (haddress op hop),
            List.forall_mem_singleton.mpr hsave⟩
    · exact hreg

/-- The ops of an argument. -/
theorem settled_getOpList {a : PointArg} (h : IsAddressList a.extraOpList) :
    ∀ op ∈ a.getOpList, op.toOpConfig.Settled := by
  have hfilters : ∀ op ∈ a.valueFilterOps ++ a.dataFilterOps, op.toOpConfig.Settled :=
    fun op hop => settled_of_isFilter (filterOps_spec a op hop).1
  obtain ⟨hvalue, hdata⟩ := List.forall_mem_append.mp hfilters
  unfold PointArg.getOpList
  split
  · exact List.forall_mem_nil _
  · refine List.forall_mem_append.mpr
      ⟨List.forall_mem_append.mpr ⟨settled_wordOps h, hvalue⟩, ?_⟩
    split
    · exact List.forall_mem_append.mpr ⟨settled_opList a.ty, hdata⟩
    · exact List.forall_mem_nil _

/-! ## Packed lists -/

/-- The arguments are packed for a program, and all that the packed list refers to is loaded. -/
structure PackedIn {maxOp : Nat} (m : OpManager) (opList : OpListMap) (argFilter : ArgFilterMap)
    (enterKey : u32) (args : List PointArg) (packed : PointArgs maxOp) : Prop where
  loaded : m.LoadedIn opList
  registered : ∀ a ∈ args, ∀ op ∈ a.getOpList, op ∈ m.opList
  packs : PointArgs.pack maxOp m enterKey args = some packed
  filters : ∀ a ∈ args, ∀ i ∈ a.filterIndexList, (argFilter.lookup (i.setWidth 64)).isSome = true

/-- The arguments read registers that exist, at addresses that were parsed, and their codes fit
into the iterations of `read_args`. -/
structure FitsBudget (maxOp : Nat) (args : List PointArg) : Prop where
  registers : ∀ a ∈ args, a.RegsExist
  address : ∀ a ∈ args, ∃ readOp, readOpList readOp = .ok a.extraOpList
  steps : listSteps args + 1 < maxOp

section Packed

variable {maxOp : Nat} {m : OpManager} {env : ProbeEnv} {enterKey : u32} {args : List PointArg}
  {packed : PointArgs maxOp}

/-- Every key of a packed list leads to an op of its arguments or to the terminator. -/
theorem packed_fetch (hmax : maxOp < 2 ^ 32) (hpos : 0 < maxOp)
    (h : PackedIn m env.opList env.argFilter enterKey args packed) {i : Nat} (hi : i < maxOp)
    {op : OpConfig} (hop : env.opList.lookup packed.opKeyList[i] = some op) :
    op = opcSkip.toOpConfig ∨ op ∈ packedOps args := by
  rw [(pack_holds hmax hpos h.packs).opKeyList i hi, List.getElem?_map] at hop
  cases hget : (args.flatMap PointArg.getOpList)[i]? with
  | none =>
      rw [hget] at hop
      exact Or.inl (Option.some.inj (hop.symm.trans h.loaded.lookup_zero))
  | some named =>
      rw [hget] at hop
      have hnamed := List.mem_of_getElem? hget
      obtain ⟨a, ha, hmem⟩ := List.mem_flatMap.mp hnamed
      have hloaded := h.loaded named (h.registered a ha named hmem)
      refine Or.inr ?_
      rw [Option.some.inj (hop.symm.trans hloaded)]
      exact List.mem_map_of_mem hnamed

theorem packed_settled (hmax : maxOp < 2 ^ 32) (hpos : 0 < maxOp)
    (h : PackedIn m env.opList env.argFilter enterKey args packed)
    (haddress : ∀ a ∈ args, IsAddressList a.extraOpList) :
    ∀ k (hk : k < maxOp) op, env.opList.lookup packed.opKeyList[k] = some op → op.Settled := by
  intro k hk op hop
  rcases packed_fetch hmax hpos h hk hop with rfl | hmem
  · exact fun _ => rfl
  · obtain ⟨named, hnamed, rfl⟩ := List.mem_map.mp hmem
    obtain ⟨a, ha, hnamed⟩ := List.mem_flatMap.mp hnamed
    exact settled_getOpList (haddress a ha) named hnamed

/-- **Runs of packed lists complete and leave `op_ctx` idle.** -/
theorem readArgs_idle (hmax : maxOp < 2 ^ 32) (hpos : 0 < maxOp) (p : Probe) (ret : u64)
    (h : PackedIn m env.opList env.argFilter enterKey args packed) (hfits : FitsBudget maxOp args)
    {leftover : OpCtx} (hidle : leftover.Idle) (event : EventData) (strBuf : StrBufMap) :
    let r := readArgs env packed (leftover.start (p.reg0 env.regs ret) p.saveIndex) event strBuf
    r.1.completes = true ∧ r.2.ctx.postCode = .skip := by
  have hpending : leftover.postCode ≠ .skip →
      runsOn (opcSkip.toOpConfig, leftover.postCode) = true := by
    intro hpost
    rw [hidle.resolve_right hpost]
    rfl
  let hit : ProbeHit m args := ⟨p, env, ret, leftover, event, strBuf, h.loaded, h.filters, hpending⟩
  have hcompletes : (hit.outcome packed).completes = true :=
    completes_of_steps hmax hpos hfits.address h.registered h.packs hfits.registers hfits.steps hit
  have hkeys := packed_settled hmax hpos h fun a ha =>
    (hfits.address a ha).elim fun _ hread => readOpList_spec hread
  dsimp only
  refine ⟨hcompletes, ?_⟩
  unfold ProbeHit.outcome at hcompletes
  change (readArgs env packed (leftover.start (p.reg0 env.regs ret) p.saveIndex) event
    strBuf).1.completes = true at hcompletes
  unfold readArgs at hcompletes ⊢
  cases hloop : readArgsLoop env packed.opKeyList maxOp ⟨env.opList.lookup 0,
    leftover.start (p.reg0 env.regs ret) p.saveIndex, event, strBuf⟩ with
  | mk reason st =>
      rw [hloop] at hcompletes
      have hreason : reason.completes = true := by
        cases reason with
        | returned => exact hcompletes
        | _ => exact hcompletes
      have hpost := readArgsLoop_settled hkeys rfl hloop hreason
      -- the verdict after the loop sets the skip flag only
      have hskip (ctx : OpCtx) : ctx.applySkip.postCode = ctx.postCode := by
        unfold OpCtx.applySkip
        split
        · rfl
        · split <;> rfl
      cases reason with
      | returned => cases hreason
      | _ => exact (hskip st.ctx).trans hpost

end Packed

end Stackplz
