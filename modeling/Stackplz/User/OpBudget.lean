import Mathlib.Data.List.Dedup
import Stackplz.Probe.Budget
import Stackplz.User.HookPoint
import Stackplz.User.TypeData

/-!
# Accepted op lists and their iterations

`AddPointArg` turns a list down when it has too many keys, and `read_args` makes as many
iterations as there may be keys. But an op with a `post_code` takes two iterations for its one
key, and a loop takes the iterations of its body again in every round, with a count that may be
found in a register or in memory. `completes_iff` says which accepted lists are read to their end
whatever is found there.
-/

set_option autoImplicit false

namespace Stackplz

/-! ## The codes of a list -/

namespace ArgType

/-- The most codes that the op list of a type executes: a loop makes up to `MAX_LOOP_COUNT`
rounds. -/
def maxSteps : ArgType → Nat
  | pointerTo target _ => 2 + target.maxSteps
  | stringArray => (stringArrayLoop.trace maxLoopCount.toNat).length
  | iovecReg regIndex => ((iovecRegLoop (regIndex.setWidth 64)).trace maxLoopCount.toNat).length
  | msghdr => (msghdrLoop.trace maxLoopCount.toNat).length
  | ty => (ty.opList.flatMap fun op => op.steps).length

end ArgType

namespace PointArg

/-- The most codes that the op list of an argument executes. -/
def maxSteps (a : PointArg) : Nat :=
  if a.regIndex = regArm64Max then 0
  else
    (a.wordOps.flatMap fun op => op.steps).length + a.valueFilterOps.length +
      if a.readMore then a.ty.maxSteps + a.dataFilterOps.length else 0

/-- The argument has an array of strings. -/
def hasArray (a : PointArg) : Bool := a.readMore && a.ty.hasArray

/-- The registers that the op list of an argument reads exist. A read address has no others. -/
def RegsExist (a : PointArg) : Prop :=
  a.regIndex ≠ regArm64Max →
    (a.isRet = false → a.extraOpList = [] → a.regIndex.toNat % 256 < 33) ∧
      (a.readMore = true → a.ty.RegsExist)

end PointArg

/-- The most codes that the packed list of the arguments executes. -/
def listSteps (args : List PointArg) : Nat := (args.map PointArg.maxSteps).sum

/-- A vector alone can take more iterations than any point has. -/
example : (ArgType.iovecReg 2).maxSteps = 388 ∧ ArgType.msghdr.maxSteps = 399 := by decide +kernel

/-! ## Hits of a probe -/

/-- A hit of a probe on a point with these arguments, with what it finds. -/
structure ProbeHit (m : OpManager) (args : List PointArg) where
  probe : Probe
  env : ProbeEnv
  ret : u64
  leftover : OpCtx
  event : EventData
  strBuf : StrBufMap
  /-- The op table is loaded, -/
  loaded : m.LoadedIn env.opList
  /-- and so are the filters that the arguments name. -/
  filters : ∀ a ∈ args, ∀ i ∈ a.filterIndexList,
    (env.argFilter.lookup (i.setWidth 64)).isSome = true
  /-- What the event before has left pending, if anything, can be executed. -/
  pending : leftover.postCode ≠ .skip → runsOn (opcSkip.toOpConfig, leftover.postCode) = true

namespace ProbeHit

variable {m : OpManager} {args : List PointArg}

/-- The state in which `read_args` starts its loop. -/
def enter (hit : ProbeHit m args) : LoopState :=
  hit.probe.enter hit.env hit.ret hit.leftover hit.event hit.strBuf

/-- How `read_args` ends in the hit. -/
def outcome {maxOp : Nat} (hit : ProbeHit m args) (packed : PointArgs maxOp) : LoopEnd :=
  (readArgs hit.env packed hit.enter.ctx hit.event hit.strBuf).1

theorem outcome_eq {maxOp : Nat} (hit : ProbeHit m args) (packed : PointArgs maxOp) :
    hit.outcome packed = (readArgsLoop hit.env packed.opKeyList maxOp hit.enter).1 := by
  have henter : hit.enter =
      ⟨hit.env.opList.lookup 0, hit.enter.ctx, hit.event, hit.strBuf⟩ := rfl
  unfold outcome readArgs
  rw [henter]
  generalize readArgsLoop hit.env packed.opKeyList maxOp
    ⟨hit.env.opList.lookup 0, hit.enter.ctx, hit.event, hit.strBuf⟩ = r
  obtain ⟨reason, st⟩ := r
  cases reason <;> rfl

end ProbeHit

/-! ## The iterations of a hit -/

/-- Whatever count a loop finds, it is as large as a loop goes. -/
structure ProbeEnv.Busy (env : ProbeEnv) : Prop where
  mem : ∀ addr, 32 ≤ (env.mem.readWord addr).toNat
  regs : ∀ i, 32 ≤ (env.regs.get i).toNat

/-- For the argument the loop takes as many codes as it can: its vectors are long, and its filters
are white lists. How many rounds an array of strings takes is also a matter of what the event has
room for. -/
structure ProbeEnv.CalmFor (env : ProbeEnv) (a : PointArg) : Prop where
  busy : env.Busy
  white : ∀ i ∈ a.filterIndexList, ∀ filter, env.argFilter.lookup (i.setWidth 64) = some filter →
    filter.filterType = .whitelist
  noArray : a.hasArray = false

namespace ArgType

theorem iovRounds_le (count : u64) : iovRounds count ≤ maxLoopCount.toNat := by
  have hmax : maxLoopCount.toNat = 32 := rfl
  unfold iovRounds
  omega

theorem iovRounds_busy {count : u64} (h : 32 ≤ count.toNat) :
    iovRounds count = maxLoopCount.toNat := by
  have hmax : maxLoopCount.toNat = 32 := rfl
  unfold iovRounds
  omega

theorem length_trace_le (L : OpLoop) {r r' : Nat} (h : r ≤ r') :
    (L.trace r).length ≤ (L.trace r').length := by
  rw [OpLoop.length_trace, OpLoop.length_trace]
  exact Nat.add_le_add_left (Nat.mul_le_mul_right _ h) _

theorem stepsAt_le (env : ProbeEnv) (ty : ArgType) :
    ∀ addr : u64, ty.stepsAt env addr ≤ ty.maxSteps := by
  induction ty with
  | pointerTo target style ih => exact fun addr => Nat.add_le_add_left (ih _) 2
  | iovecReg regIndex => exact fun addr => length_trace_le _ (iovRounds_le _)
  | msghdr => exact fun addr => length_trace_le _ (iovRounds_le _)
  | _ => exact fun addr => Nat.le_refl _

theorem stepsAt_busy {env : ProbeEnv} (h : env.Busy) (ty : ArgType) :
    ∀ addr : u64, ty.stepsAt env addr = ty.maxSteps := by
  induction ty with
  | pointerTo target style ih => exact fun addr => congrArg (2 + ·) (ih _)
  | iovecReg regIndex =>
      exact fun addr => congrArg (fun r => ((iovecRegLoop (regIndex.setWidth 64)).trace r).length)
        (iovRounds_busy (h.regs _))
  | msghdr =>
      exact fun addr => congrArg (fun r => (msghdrLoop.trace r).length) (iovRounds_busy (h.mem _))
  | _ => exact fun addr => rfl

end ArgType

/-- The ops of a read address run straight through. -/
theorem addressOp_runs {op : NamedOp} (h : AddressOp op) :
    ∀ x ∈ op.steps, x.2.isStraight = true ∧ runsOn x = true := by
  cases h with
  | @move token reg hreg =>
      have hlt : reg.toNat % 256 < 33 := by
        have := getRegIndex_lt hreg
        omega
      exact List.forall_mem_cons.mpr ⟨⟨rfl, runsOn_register hlt .moveRegValue⟩,
        List.forall_mem_singleton.mpr ⟨rfl, rfl⟩⟩
  | _ => exact List.forall_mem_singleton.mpr ⟨rfl, rfl⟩

/-- The ops of an argument's own word run straight through, if its register exists. -/
theorem wordOps_runs {a : PointArg} (hread : ∃ readOp, readOpList readOp = .ok a.extraOpList)
    (hreg : a.isRet = false → a.extraOpList = [] → a.regIndex.toNat % 256 < 33) :
    ∀ op ∈ a.wordOps, ∀ x ∈ op.steps, x.2.isStraight = true ∧ runsOn x = true := by
  unfold PointArg.wordOps
  by_cases hret : a.isRet = true
  · rw [if_pos hret]
    decide
  rw [if_neg hret]
  by_cases hextra : a.extraOpList = []
  · rw [if_neg (not_not_intro hextra)]
    have hlt := hreg (Bool.eq_false_of_not_eq_true hret) hextra
    refine List.forall_mem_cons.mpr ⟨?_, List.forall_mem_singleton.mpr
      (List.forall_mem_singleton.mpr ⟨rfl, rfl⟩)⟩
    exact List.forall_mem_cons.mpr ⟨⟨rfl, runsOn_register hlt .saveReg⟩,
      List.forall_mem_singleton.mpr ⟨rfl, rfl⟩⟩
  · rw [if_pos hextra]
    obtain ⟨readOp, hread⟩ := hread
    rcases readOpList_ops hread with hnil | ⟨address, hops, haddress⟩
    · exact absurd hnil hextra
    · rw [hops]
      refine List.forall_mem_append.mpr ⟨fun op hop => addressOp_runs (haddress op hop), ?_⟩
      exact List.forall_mem_singleton.mpr (List.forall_mem_singleton.mpr ⟨rfl, rfl⟩)

/-- The filter ops of an argument. -/
theorem filterOps_spec (a : PointArg) :
    ∀ op ∈ a.valueFilterOps ++ a.dataFilterOps,
      op.toOpConfig.isFilter = true ∧ ∃ i ∈ a.filterIndexList, op.value = i.setWidth 64 := by
  have hmap (f : NamedOp) (hf : ∀ value, (f.newValue value).toOpConfig.isFilter = true) :
      ∀ op ∈ a.filterIndexList.map fun i => f.newValue (i.setWidth 64),
        op.toOpConfig.isFilter = true ∧ ∃ i ∈ a.filterIndexList, op.value = i.setWidth 64 := by
    intro op hop
    obtain ⟨i, hi, rfl⟩ := List.mem_map.mp hop
    exact ⟨hf _, i, hi, rfl⟩
  refine List.forall_mem_append.mpr ⟨?_, ?_⟩
  · unfold PointArg.valueFilterOps
    split
    · exact List.forall_mem_nil _
    · exact hmap opcFilterValue fun _ => rfl
  · unfold PointArg.dataFilterOps
    split
    · exact hmap opcFilterString fun _ => rfl
    · split
      · exact hmap opcFilterBuffer fun _ => rfl
      · exact List.forall_mem_nil _

section Leads

variable {maxOp : Nat} {env : ProbeEnv} {keys : Vector u32 maxOp} {calm : Prop} {k : Nat}
  {st : LoopState}

theorem leads_wordOps (hmax : maxOp < 2 ^ 32) {a : PointArg}
    (hread : ∃ readOp, readOpList readOp = .ok a.extraOpList)
    (hreg : a.isRet = false → a.extraOpList = [] → a.regIndex.toNat % 256 < 33)
    (hready : st.Ready k) (hkeys : KeysAt env keys k (a.wordOps.map NamedOp.toOpConfig)) :
    st.Leads env keys calm (a.wordOps.flatMap fun op => op.steps).length
      (·.Ready (k + a.wordOps.length)) := by
  have hruns := wordOps_runs hread hreg
  have hsteps : ∀ x ∈ (a.wordOps.map NamedOp.toOpConfig).flatMap OpConfig.steps,
      x.2.isStraight = true ∧ runsOn x = true := by
    intro x hx
    obtain ⟨op, hop, hx⟩ := List.mem_flatMap.mp hx
    obtain ⟨named, hnamed, rfl⟩ := List.mem_map.mp hop
    exact hruns named hnamed x hx
  have hleads := @leads_ops maxOp env keys calm st hmax _ k hready hkeys
    (fun x hx => (hsteps x hx).1) (fun x hx => (hsteps x hx).2)
  rwa [List.flatMap_map, List.length_map] at hleads

theorem leads_opList (hmax : maxOp < 2 ^ 32) {ty : ArgType} (hregs : ty.RegsExist)
    (hready : st.Ready k) (hkeys : KeysAt env keys k (ty.opList.map NamedOp.toOpConfig))
    (hcalm : calm → env.Busy ∧ ty.hasArray = false) :
    st.Leads env keys calm ty.maxSteps (·.Ready (k + ty.opList.length)) := by
  obtain ⟨xs, next, hnext⟩ :=
    opList_runs hmax hregs hkeys hready.atOp hready.loopCount hready.matchBlacklist
  have hready' : next.Ready (k + ty.opList.length) :=
    ⟨hnext.atOp, hnext.loopCount, run_matchBlacklist hready.matchBlacklist hnext.run⟩
  refine ⟨xs, next, hnext.run, Or.inl ⟨hready', hnext.steps_le.trans (ty.stepsAt_le env _),
    fun hc => ?_⟩⟩
  obtain ⟨hbusy, harray⟩ := hcalm hc
  exact (hnext.steps_eq harray).trans (ty.stepsAt_busy hbusy _)

theorem leads_filterOps (hmax : maxOp < 2 ^ 32) {a : PointArg} {ops : List NamedOp}
    (hops : ∀ op ∈ ops, op ∈ a.valueFilterOps ++ a.dataFilterOps)
    (hloaded : ∀ i ∈ a.filterIndexList, (env.argFilter.lookup (i.setWidth 64)).isSome = true)
    (hcalm : calm → env.CalmFor a) (hready : st.Ready k)
    (hkeys : KeysAt env keys k (ops.map NamedOp.toOpConfig)) :
    st.Leads env keys calm ops.length (·.Ready (k + ops.length)) := by
  have hspec : ∀ op ∈ ops.map NamedOp.toOpConfig, op.isFilter = true ∧
      ∃ i ∈ a.filterIndexList, op.value = i.setWidth 64 := by
    intro op hop
    obtain ⟨named, hnamed, rfl⟩ := List.mem_map.mp hop
    exact filterOps_spec a named (hops named hnamed)
  have hleads := @leads_filters maxOp env keys calm st hmax _ k hready hkeys
    (fun op hop => (hspec op hop).1)
    (fun op hop => by
      obtain ⟨-, i, hi, hvalue⟩ := hspec op hop
      rw [hvalue]
      exact hloaded i hi)
    (fun hc op hop filter hfilter => by
      obtain ⟨-, i, hi, hvalue⟩ := hspec op hop
      rw [hvalue] at hfilter
      exact (hcalm hc).white i hi filter hfilter)
  rwa [List.length_map] at hleads

/-- What an argument has after its own word. -/
def PointArg.restOps (a : PointArg) : List NamedOp :=
  a.valueFilterOps ++ if a.readMore then a.ty.opList ++ a.dataFilterOps else []

theorem getOpList_eq {a : PointArg} (hne : a.regIndex ≠ regArm64Max) :
    a.getOpList = a.wordOps ++ a.restOps := by
  unfold PointArg.getOpList PointArg.restOps
  rw [if_neg hne, List.append_assoc]

theorem leads_pointArg (hmax : maxOp < 2 ^ 32) {a : PointArg}
    (hread : ∃ readOp, readOpList readOp = .ok a.extraOpList) (hregs : a.RegsExist)
    (hloaded : ∀ i ∈ a.filterIndexList, (env.argFilter.lookup (i.setWidth 64)).isSome = true)
    (hcalm : calm → env.CalmFor a) (hready : st.Ready k)
    (hkeys : KeysAt env keys k (a.getOpList.map NamedOp.toOpConfig)) :
    st.Leads env keys calm a.maxSteps (·.Ready (k + a.getOpList.length)) := by
  unfold PointArg.maxSteps
  by_cases hnone : a.regIndex = regArm64Max
  · have hnil : a.getOpList = [] := if_pos hnone
    rw [if_pos hnone, hnil]
    exact leads_nil hready
  obtain ⟨hreg, htype⟩ := hregs hnone
  rw [if_neg hnone, getOpList_eq hnone]
  rw [getOpList_eq hnone, List.map_append] at hkeys
  obtain ⟨hword, hrest⟩ := keysAt_append hkeys
  rw [List.length_map] at hrest
  unfold PointArg.restOps at hrest ⊢
  rw [List.map_append] at hrest
  obtain ⟨hvalue, hmore⟩ := keysAt_append hrest
  rw [List.length_map] at hmore
  rw [List.length_append, List.length_append, ← Nat.add_assoc]
  have hwords : st.Leads env keys calm _ (·.Ready (k + a.wordOps.length)) :=
    leads_wordOps hmax hread hreg hready hword
  have hvalues (mid : LoopState) (hmid : mid.Ready (k + a.wordOps.length)) :
      mid.Leads env keys calm _ (·.Ready (k + a.wordOps.length + a.valueFilterOps.length)) :=
    leads_filterOps hmax (fun op hop => List.mem_append_left _ hop) hloaded hcalm hmid hvalue
  refine (hwords.trans hvalues).trans fun mid hmid => ?_
  cases hreads : a.readMore with
  | false => exact leads_nil hmid
  | true =>
      rw [hreads, if_pos rfl, List.map_append] at hmore
      obtain ⟨hdata, hfilter⟩ := keysAt_append hmore
      rw [List.length_map] at hfilter
      rw [if_pos rfl, if_pos rfl, List.length_append, ← Nat.add_assoc, ← Nat.add_assoc]
      refine (leads_opList hmax (htype hreads) hmid hdata fun hc => ?_).trans fun mid hmid => ?_
      · have harray := (hcalm hc).noArray
        unfold PointArg.hasArray at harray
        rw [hreads, Bool.true_and] at harray
        exact ⟨(hcalm hc).busy, harray⟩
      · exact leads_filterOps hmax (fun op hop => List.mem_append_right _ hop) hloaded hcalm hmid
          hfilter

theorem packedOps_cons (a : PointArg) (args : List PointArg) :
    packedOps (a :: args) = a.getOpList.map NamedOp.toOpConfig ++ packedOps args := by
  unfold packedOps
  rw [List.flatMap_cons, List.map_append]

theorem listSteps_cons (a : PointArg) (args : List PointArg) :
    listSteps (a :: args) = a.maxSteps + listSteps args := by
  unfold listSteps
  rw [List.map_cons, List.sum_cons]

/-- The arguments one after the other. -/
theorem leads_args (hmax : maxOp < 2 ^ 32) {args : List PointArg}
    (hread : ∀ a ∈ args, ∃ readOp, readOpList readOp = .ok a.extraOpList)
    (hregs : ∀ a ∈ args, a.RegsExist)
    (hloaded : ∀ a ∈ args, ∀ i ∈ a.filterIndexList,
      (env.argFilter.lookup (i.setWidth 64)).isSome = true)
    (hcalm : calm → ∀ a ∈ args, env.CalmFor a) (hready : st.Ready k)
    (hkeys : KeysAt env keys k (packedOps args)) :
    st.Leads env keys calm (listSteps args) (·.Ready (k + (packedOps args).length)) := by
  induction args generalizing st k with
  | nil => exact leads_nil hready
  | cons a args ih =>
      obtain ⟨hreadA, hread⟩ := List.forall_mem_cons.mp hread
      obtain ⟨hregsA, hregs⟩ := List.forall_mem_cons.mp hregs
      obtain ⟨hloadedA, hloaded⟩ := List.forall_mem_cons.mp hloaded
      rw [packedOps_cons] at hkeys ⊢
      obtain ⟨hfirst, hrest⟩ := keysAt_append hkeys
      rw [List.length_map] at hrest
      rw [listSteps_cons, List.length_append, List.length_map, ← Nat.add_assoc]
      refine (leads_pointArg hmax hreadA hregsA hloadedA
        (fun hc => hcalm hc a (List.mem_cons_self ..)) hready hfirst).trans fun mid hmid => ?_
      exact ih hread hregs hloaded (fun hc b hb => hcalm hc b (List.mem_cons_of_mem a hb)) hmid
        hrest

/-! ## Registers -/

/-- A type whose op list is got through reads no register that does not exist. -/
theorem opList_regsExist (hmax : maxOp < 2 ^ 32) {ty : ArgType} :
    ∀ {k n : Nat} {st : LoopState}, st.Ready k →
      KeysAt env keys k (ty.opList.map NamedOp.toOpConfig) →
      (readArgsLoop env keys n st).1.completes = true → ty.RegsExist := by
  induction ty with
  | pointerTo target style ih =>
      intro k n st hready hkeys hend
      obtain ⟨hfirst, hrest⟩ := keysAt_append
        (show KeysAt env keys k ([(saveStructOp 8).toOpConfig] ++ _) from hkeys)
      obtain ⟨n', mid, -, -, hmid, hend'⟩ :=
        (leads_ops hmax hready hfirst (by decide) (by decide)).of_completes trivial hend
      exact ih hmid hrest hend'
  | bufferReg regIndex =>
      intro k n st hready hkeys hend
      obtain ⟨hfirst, hrest⟩ := keysAt_append (show KeysAt env keys k
        ([(opcSetReadLen.newValue (BitVec.ofNat 64 maxBytesArrSize)).toOpConfig] ++ _) from hkeys)
      obtain ⟨n', mid, -, -, hmid, hend'⟩ :=
        (leads_ops hmax hready hfirst (by decide) (by decide)).of_completes trivial hend
      show regIndex.toNat % 256 < 33
      rw [← toNat_regIndex]
      exact register_of_completes hmid hrest rfl rfl hend'
  | iovecReg regIndex =>
      intro k n st hready hkeys hend
      show regIndex.toNat % 256 < 33
      rw [← toNat_regIndex]
      exact register_of_completes hready hkeys rfl rfl hend
  | _ => exact fun _ _ _ => trivial

/-- So does an argument. -/
theorem pointArg_regsExist (hmax : maxOp < 2 ^ 32) {a : PointArg}
    (hread : ∃ readOp, readOpList readOp = .ok a.extraOpList)
    (hloaded : ∀ i ∈ a.filterIndexList, (env.argFilter.lookup (i.setWidth 64)).isSome = true)
    (hcalm : env.CalmFor a) (hready : st.Ready k)
    (hkeys : KeysAt env keys k (a.getOpList.map NamedOp.toOpConfig)) {n : Nat}
    (hend : (readArgsLoop env keys n st).1.completes = true) : a.RegsExist := by
  intro hne
  rw [getOpList_eq hne, List.map_append] at hkeys
  obtain ⟨hword, hrest⟩ := keysAt_append hkeys
  rw [List.length_map] at hrest
  have hreg : a.isRet = false → a.extraOpList = [] → a.regIndex.toNat % 256 < 33 := by
    intro hret hnil
    have hops : a.wordOps = [readSaveReg (a.regIndex.setWidth 64), opcMoveRegValue] := by
      unfold PointArg.wordOps
      rw [hret, hnil, if_neg Bool.false_ne_true, if_neg (not_not_intro rfl)]
    rw [hops] at hword
    rw [← toNat_regIndex]
    exact register_of_completes hready hword rfl rfl hend
  refine ⟨hreg, fun hmore => ?_⟩
  obtain ⟨n₁, st₁, -, -, hready₁, hend₁⟩ :=
    (leads_wordOps hmax hread hreg hready hword).of_completes hcalm hend
  unfold PointArg.restOps at hrest
  rw [hmore, if_pos rfl, List.map_append, List.map_append] at hrest
  obtain ⟨hvalue, htype⟩ := keysAt_append hrest
  rw [List.length_map] at htype
  obtain ⟨n₂, st₂, -, -, hready₂, hend₂⟩ :=
    (leads_filterOps hmax (fun op hop => List.mem_append_left _ hop) hloaded id hready₁
      hvalue).of_completes hcalm hend₁
  exact opList_regsExist hmax hready₂ (keysAt_append htype).1 hend₂

theorem args_regsExist (hmax : maxOp < 2 ^ 32) {args : List PointArg}
    (hread : ∀ a ∈ args, ∃ readOp, readOpList readOp = .ok a.extraOpList)
    (hloaded : ∀ a ∈ args, ∀ i ∈ a.filterIndexList,
      (env.argFilter.lookup (i.setWidth 64)).isSome = true)
    (hcalm : ∀ a ∈ args, env.CalmFor a) (hready : st.Ready k)
    (hkeys : KeysAt env keys k (packedOps args)) {n : Nat}
    (hend : (readArgsLoop env keys n st).1.completes = true) : ∀ a ∈ args, a.RegsExist := by
  induction args generalizing st k n with
  | nil => exact List.forall_mem_nil _
  | cons a args ih =>
      obtain ⟨hreadA, hread⟩ := List.forall_mem_cons.mp hread
      obtain ⟨hloadedA, hloaded⟩ := List.forall_mem_cons.mp hloaded
      obtain ⟨hcalmA, hcalm⟩ := List.forall_mem_cons.mp hcalm
      rw [packedOps_cons] at hkeys
      obtain ⟨hfirst, hrest⟩ := keysAt_append hkeys
      rw [List.length_map] at hrest
      have hregs := pointArg_regsExist hmax hreadA hloadedA hcalmA hready hfirst hend
      obtain ⟨n', mid, -, -, hmid, hend'⟩ :=
        (leads_pointArg hmax hreadA hregs hloadedA id hready hfirst).of_completes hcalmA hend
      exact List.forall_mem_cons.mpr ⟨hregs, ih hread hloaded hcalm hmid hrest hend'⟩

end Leads

/-! ## Accepted lists -/

section Hits

variable {maxOp : Nat} {m : OpManager} {args : List PointArg} {calm : Prop}

/-- What is pending takes one iteration, and then the first op comes. -/
theorem leads_enter (hit : ProbeHit m args) (keys : Vector u32 maxOp)
    (hcalm : calm → hit.leftover.postCode ≠ .skip) :
    hit.enter.Leads hit.env keys calm 1 (·.Ready 0) := by
  have hop : hit.enter.op = some opcSkip.toOpConfig := hit.loaded.lookup_zero
  by_cases hpost : hit.leftover.postCode = .skip
  · exact ⟨[], hit.enter, rfl, Or.inl ⟨⟨⟨hpost, rfl⟩, rfl, rfl⟩, Nat.zero_le 1,
      fun hc => absurd hpost (hcalm hc)⟩⟩
  have hruns := hit.pending hpost
  by_cases hfor : hit.leftover.postCode = .forBreak
  · -- without an open loop `OP_FOR_BREAK` only clears its counters
    let last : LoopState := { hit.enter.fetchedPost with
      ctx := { hit.enter.fetchedPost.ctx with loopCount := 0, breakCount := 0, loopIndex := 0 } }
    have hlast : hit.enter.fetchedPost.ctx.forBreak = last.ctx := forBreak_last (Nat.le_refl 0)
    have hexec : hit.enter.fetchedPost.exec hit.env opcSkip.toOpConfig = (true, last) :=
      (if_pos hfor).trans
        (congrArg (fun ctx => (true, { hit.enter.fetchedPost with ctx := ctx })) hlast)
    have hstep : hit.enter.advance hit.env keys =
        some ((opcSkip.toOpConfig, hit.leftover.postCode), last) :=
      advance_eq_some.mpr ⟨hit.enter.fetchedPost, fetch_pending hop hpost, rfl, hpost, hexec, rfl⟩
    have hrun := Machine.run_cons_eq_some.mpr ⟨_, interpreter_step.mpr hstep, Machine.run_nil _ _⟩
    exact leads_of_run hrun ⟨⟨rfl, rfl⟩, rfl, rfl⟩
  · obtain ⟨hgoes, hblack⟩ := @execOp_runsOn hit.env _ hruns hit.enter.opState
    have hstep := @advance_pending maxOp hit.env keys _ _ _ hop hpost hfor (Prod.ext hgoes rfl)
      hblack
    have hrun := Machine.run_cons_eq_some.mpr ⟨_, interpreter_step.mpr hstep, Machine.run_nil _ _⟩
    exact leads_of_run hrun ⟨⟨rfl, rfl⟩, execOp_loopCount_zero rfl rfl, hblack⟩

/-- A white list of no text. -/
def whiteFilter : ArgFilter := ⟨.whitelist, Vector.replicate _ 0, 0, 0⟩

/-- White lists under these indices. -/
def whiteFilters (indices : List u32) : ArgFilterMap :=
  indices.foldl (fun map i => map.put (i.setWidth 64) whiteFilter) .empty

theorem lookup_whiteFilters {indices : List u32} (hnodup : indices.Nodup)
    (hfit : indices.length ≤ 40) :
    ∀ i ∈ indices, (whiteFilters indices).lookup (i.setWidth 64) = some whiteFilter := by
  have hinj : Function.Injective fun i : u32 => i.setWidth 64 :=
    Function.LeftInverse.injective setWidth_setWidth
  have hsize : (BoundedMap.empty : ArgFilterMap).size + indices.length ≤ 40 := by
    show 0 + indices.length ≤ 40
    omega
  exact (BoundedMap.lookup_foldl_put (hnodup.map hinj) hsize).1

/-- A process in which the loops of a list are long and no filter ends it. -/
def busyEnv (m : OpManager) (args : List PointArg) : ProbeEnv where
  mem := fun _ => some 0x20
  regs := ⟨Vector.replicate 31 32, 32, 32, 32⟩
  opList := m.load
  argFilter := whiteFilters (args.flatMap fun a => a.filterIndexList).dedup

theorem busyEnv_busy (m : OpManager) (args : List PointArg) : (busyEnv m args).Busy := by
  refine ⟨fun addr => ?_, fun i => ?_⟩
  · have hword : (busyEnv m args).mem.readWord addr = 0x2020202020202020 := rfl
    rw [hword]
    decide
  · have hreg : (busyEnv m args).regs.get i = 32 := by
      unfold CtxRegs.get
      split
      · exact Vector.getElem_replicate _
      · split <;> rfl
    rw [hreg]
    decide

theorem busyEnv_filters (hfit : (args.flatMap fun a => a.filterIndexList).dedup.length ≤ 40) :
    ∀ a ∈ args, ∀ i ∈ a.filterIndexList,
      (busyEnv m args).argFilter.lookup (i.setWidth 64) = some whiteFilter := by
  intro a ha i hi
  exact lookup_whiteFilters (List.nodup_dedup _) hfit i
    (List.mem_dedup.mpr (List.mem_flatMap.mpr ⟨a, ha, hi⟩))

section Accepted

variable (hmax : maxOp < 2 ^ 32) (hpos : 0 < maxOp)
  (hread : ∀ a ∈ args, ∃ readOp, readOpList readOp = .ok a.extraOpList)
  (hmem : ∀ a ∈ args, ∀ op ∈ a.getOpList, op ∈ m.opList)
include hmax hpos hread hmem

/-- With registers that exist and room for all codes, every hit completes. -/
theorem completes_of_steps {enterKey : u32} {packed : PointArgs maxOp}
    (hpack : PointArgs.pack maxOp m enterKey args = some packed)
    (hregs : ∀ a ∈ args, a.RegsExist) (hroom : listSteps args + 1 < maxOp)
    (hit : ProbeHit m args) : (hit.outcome packed).completes = true := by
  obtain ⟨hk, hkey⟩ := packed_end hmax hpos hit.loaded hmem hpack
  have hkeys := packed_keysAt hmax hpos hit.loaded hmem hpack
  have hlist : hit.enter.Leads hit.env packed.opKeyList False (1 + listSteps args)
      (·.Ready (0 + (packedOps args).length)) :=
    (leads_enter hit packed.opKeyList False.elim).trans fun mid hmid =>
      leads_args hmax hread hregs hit.filters False.elim hmid hkeys
  rw [Nat.zero_add] at hlist
  rw [hit.outcome_eq]
  exact hlist.completes hk hkey rfl (by omega)

/-- A list that is read to its end in a busy process has registers that exist, and room for all its
codes. -/
theorem steps_of_completes (htable : m.opList.length ≤ 256)
    (hfit : (args.flatMap fun a => a.filterIndexList).dedup.length ≤ 40) {enterKey : u32}
    {packed : PointArgs maxOp} (hpack : PointArgs.pack maxOp m enterKey args = some packed)
    (harray : ∀ a ∈ args, a.hasArray = false)
    (hall : ∀ hit : ProbeHit m args, (hit.outcome packed).completes = true) :
    (∀ a ∈ args, a.RegsExist) ∧ listSteps args + 1 < maxOp := by
  have hfilters := @busyEnv_filters m args hfit
  let hit : ProbeHit m args :=
    { probe := .probeStack
      env := busyEnv m args
      ret := 0
      leftover := .cleared
      event := .init
      strBuf := .empty
      loaded := OpManager.loadedIn_load htable
      filters := fun a ha i hi => Option.isSome_iff_exists.mpr ⟨_, hfilters a ha i hi⟩
      pending := fun _ => rfl }
  have hcalm : ∀ a ∈ args, hit.env.CalmFor a := by
    refine fun a ha => ⟨busyEnv_busy m args, fun i hi filter hfilter => ?_, harray a ha⟩
    obtain rfl := Option.some.inj ((hfilters a ha i hi).symm.trans hfilter)
    rfl
  have hkeys := packed_keysAt hmax hpos hit.loaded hmem hpack
  have hend := hall hit
  rw [hit.outcome_eq] at hend
  have hne : hit.leftover.postCode ≠ .skip := (by decide : OpCtx.cleared.postCode ≠ .skip)
  obtain ⟨n, first, hn, -, hready, hend⟩ :=
    (leads_enter hit packed.opKeyList fun _ : True => hne).of_completes trivial hend
  have hregs := args_regsExist hmax hread hit.filters hcalm hready hkeys hend
  -- the iteration that is left over is the terminator's
  obtain ⟨n', -, hn', hpos', -, -⟩ :=
    (leads_args hmax hread hregs hit.filters (fun _ : True => hcalm) hready hkeys).of_completes
      trivial hend
  exact ⟨hregs, by omega⟩

/-- **Which accepted lists are read to their end.** A list that is packed completes in every hit of
a probe when the registers that it reads exist and its codes, with 32 rounds of every loop, leave
room for two more iterations: the one on a cleared `post_code`, and the terminator. A list without
an array of strings completes in every hit only then. -/
theorem completes_iff (htable : m.opList.length ≤ 256)
    (hfit : (args.flatMap fun a => a.filterIndexList).dedup.length ≤ 40) {enterKey : u32}
    {packed : PointArgs maxOp} (hpack : PointArgs.pack maxOp m enterKey args = some packed) :
    ((∀ a ∈ args, a.RegsExist) ∧ listSteps args + 1 < maxOp →
        ∀ hit : ProbeHit m args, (hit.outcome packed).completes = true) ∧
      ((∀ a ∈ args, a.hasArray = false) →
        (∀ hit : ProbeHit m args, (hit.outcome packed).completes = true) →
        (∀ a ∈ args, a.RegsExist) ∧ listSteps args + 1 < maxOp) := by
  constructor
  · rintro ⟨hregs, hroom⟩
    exact completes_of_steps hmax hpos hread hmem hpack hregs hroom
  · exact steps_of_completes hmax hpos hread hmem htable hfit hpack

end Accepted

end Hits

/-! ### Numbers -/

/-- The arguments of the hook `f[int,…,int]` with `n` numbers. -/
def intArgs (n : Nat) : List PointArg :=
  (List.range n).map fun i =>
    newUprobePointArg ("arg_".toList ++ (Nat.repr i).toList) (.num .int .plain) (BitVec.ofNat 32 i)

/-- `int`, 31 times. -/
def intsText : Text := (List.replicate 30 "int,".toList).flatten ++ "int".toList

/-- The op table after the hook is parsed. -/
def intTable (n : Nat) : OpManager :=
  ((intArgs n).flatMap PointArg.getOpList).foldl OpManager.addOp .init

theorem intArgs_read (n : Nat) :
    ∀ a ∈ intArgs n, ∃ readOp, readOpList readOp = .ok a.extraOpList := by
  intro a ha
  obtain ⟨i, -, rfl⟩ := List.mem_map.mp ha
  exact ⟨[], rfl⟩

/-- The 62 keys of 31 numbers are accepted, and their 93 codes are more than `read_args`
executes. -/
theorem intArgs_not_completes :
    builtinEnv.hookArgs false (some intsText) = .ok (intArgs 31) ∧
      ∃ packed, PointArgs.pack stackMaxOpCount (intTable 31) 0 (intArgs 31) = some packed ∧
        ¬ ∀ hit : ProbeHit (intTable 31) (intArgs 31), (hit.outcome packed).completes = true := by
  have hpack := (Option.some_get (show (PointArgs.pack stackMaxOpCount (intTable 31) 0
    (intArgs 31)).isSome = true by decide +kernel)).symm
  refine ⟨by decide +kernel, _, hpack, fun hall => ?_⟩
  obtain ⟨-, hroom⟩ := steps_of_completes (by decide) (by decide) (intArgs_read 31)
    (by decide +kernel) (by decide +kernel) (by decide +kernel) hpack (by decide +kernel) hall
  revert hroom
  decide +kernel

/-- Twenty numbers are read in every hit. -/
theorem intArgs_completes :
    ∃ packed, PointArgs.pack stackMaxOpCount (intTable 20) 0 (intArgs 20) = some packed ∧
      ∀ hit : ProbeHit (intTable 20) (intArgs 20), (hit.outcome packed).completes = true := by
  have hregs : ∀ a ∈ intArgs 20, a.RegsExist := by
    intro a ha
    obtain ⟨i, hi, rfl⟩ := List.mem_map.mp ha
    have hlt := List.mem_range.mp hi
    refine fun _ => ⟨fun _ _ => ?_, fun _ => trivial⟩
    show (BitVec.ofNat 32 i).toNat % 256 < 33
    rw [BitVec.toNat_ofNat]
    omega
  have hpack := (Option.some_get (show (PointArgs.pack stackMaxOpCount (intTable 20) 0
    (intArgs 20)).isSome = true by decide +kernel)).symm
  exact ⟨_, hpack, (completes_iff (by decide) (by decide) (intArgs_read 20) (by decide +kernel)
    (by decide +kernel) (by decide +kernel) hpack).1 ⟨hregs, by decide +kernel⟩⟩

end Stackplz
