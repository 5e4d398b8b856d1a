import Stackplz.User.DataReadBack
import Stackplz.User.OpBudget
import Stackplz.User.ReadAddress
import Stackplz.User.RoundTrip
import Stackplz.User.ValueFilter

/-!
# What a completed run has saved

A run of `read_args` that reaches its terminator has gone through the op lists of the arguments,
one after the other. Of each of them it has appended the word and, where the argument is read
further, the data of its type at that word. No matter which types the arguments have: the lists
with loops are taken from `opList_runs`, the straight pieces around them code by code.
-/

set_option autoImplicit false

namespace Stackplz

/-! ## Arguments with a word -/

/-- The word that is saved for an argument: the return value, a register that exists, or the
address that its ops find. -/
def PointArg.ReadsWord (env : ProbeEnv) (ret : u64) (a : PointArg) (w : u64) : Prop :=
  if a.isRet then w = ret
  else
    (a.extraOpList = [] ∧ a.regIndex.toNat % 256 < 33 ∧
        w = env.regs.get (a.regIndex.toNat % 256)) ∨
      ∃ address : ReadAddress, a.extraOpList = address.ops ++ [opcSaveAddr] ∧
        w = (address.exec env.mem env.regs).1

/-- The records of an argument: its word, and the data at it. -/
def PointArg.recordsAt (env : ProbeEnv) (a : PointArg) (w : u64) : List DataRecord :=
  .word w :: if a.readMore then a.ty.dataAt env w else []

/-- An argument that the interpreter gets through. -/
structure PointArg.SavesAt (env : ProbeEnv) (ret : u64) (a : PointArg) (w : u64) : Prop where
  placed : a.regIndex ≠ regArm64Max
  word : a.ReadsWord env ret w
  /-- `READ_RET` leaves the read address alone, so the data of a return value is elsewhere. -/
  data : a.isRet = true → a.ty.hasData = false
  registers : a.readMore = true → a.ty.RegsExist

theorem dataAt_of_hasData {env : ProbeEnv} {ty : ArgType} (h : ty.hasData = false) (addr : u64) :
    ty.dataAt env addr = [] := by
  cases ty with
  | num | pointer | parent => rfl
  | _ => cases h

/-! ## Straight pieces -/

section Pieces

variable {env : ProbeEnv} {st st' : OpState} {log : List Saved}

theorem runSteps_loopCount {xs : List (OpConfig × OpCode)}
    (hstraight : ∀ x ∈ xs, x.2.isStraight = true) (h : runSteps env xs st = some (log, st')) :
    st'.data.loopCount = st.data.loopCount := by
  have hexec := runSteps_eq_execSteps h
  have hkept := @execSteps_loopCount env xs (fun x hx heq => by
    have hx' := hstraight x hx
    rw [heq] at hx'
    cases hx') st
  rw [← hexec] at hkept
  exact hkept

theorem runSteps_reg0 {xs : List (OpConfig × OpCode)}
    (h : runSteps env xs st = some (log, st')) : st'.data.reg0 = st.data.reg0 := by
  induction xs generalizing st log with
  | nil =>
      obtain ⟨-, rfl⟩ := Prod.mk.inj (Option.some.inj h)
      rfl
  | cons x xs ih =>
      obtain ⟨first, mid, rest, hstep, hrest, -⟩ := runSteps_cons.mp h
      have hmid := congrArg (fun r => r.2.data.reg0) (step_eq_some.mp hstep).1
      exact (ih hrest).trans (hmid.symm.trans (execOp_reg0 env x.1 x.2 st))

/-- A filter looks at the data and sets flags. -/
theorem execOp_filter_readAddr {op : OpConfig} {code : OpCode}
    (hcode : code = .filterValue ∨ code = .filterBuffer ∨ code = .filterString) :
    (execOp env op code st).2.data.readAddr = st.data.readAddr := by
  rcases hcode with rfl | rfl | rfl
  · unfold execOp
    dsimp only
    split <;> rfl
  · unfold execOp
    dsimp only
    repeat' split
    all_goals rfl
  · unfold execOp
    dsimp only
    split
    · rfl
    · unfold OpState.filterString
      dsimp only
      split <;> rfl

/-- Filters append nothing and leave the read address alone. -/
theorem runSteps_filters {ops : List NamedOp}
    (hops : ∀ op ∈ ops, op.toOpConfig.isFilter = true)
    (h : runSteps env (codesOf ops) st = some (log, st')) :
    log = [] ∧ st'.data.readAddr = st.data.readAddr := by
  have hcodes : ∀ x ∈ codesOf ops,
      x.2 = .filterValue ∨ x.2 = .filterBuffer ∨ x.2 = .filterString := by
    intro x hx
    obtain ⟨op, hop, hx⟩ := List.mem_flatMap.mp hx
    obtain ⟨hcode, hpost⟩ := Bool.and_eq_true_iff.mp (hops op hop)
    have hpost : op.postCode = .skip := of_decide_eq_true hpost
    unfold OpConfig.steps at hx
    rw [if_pos hpost, List.mem_singleton] at hx
    subst hx
    simpa using of_decide_eq_true hcode
  have hsilent : ∀ x ∈ codesOf ops, x.2.saves = false := by
    intro x hx
    rcases hcodes x hx with h | h | h <;> rw [h] <;> rfl
  refine ⟨runSteps_silent hsilent h, ?_⟩
  clear hsilent
  generalize codesOf ops = xs at h hcodes
  induction xs generalizing st log with
  | nil =>
      obtain ⟨-, rfl⟩ := Prod.mk.inj (Option.some.inj h)
      rfl
  | cons x xs ih =>
      obtain ⟨hx, hxs⟩ := List.forall_mem_cons.mp hcodes
      obtain ⟨first, mid, rest, hstep, hrest, -⟩ := runSteps_cons.mp h
      have hmid := congrArg (fun r => r.2.data.readAddr) (step_eq_some.mp hstep).1
      exact (ih hrest hxs).trans (hmid.symm.trans (execOp_filter_readAddr hx))

/-- The ops for the return value save it. -/
theorem runSteps_ret (hrun : runSteps env (codesOf [opcReadRet, opcSaveReg]) st = some (log, st')) :
    log = [.word st.data.reg0] := by
  obtain ⟨first, mid, rest, hread, hrest, rfl⟩ := runSteps_cons.mp hrun
  obtain ⟨second, last, rest', hsave, hnil, rfl⟩ := runSteps_cons.mp hrest
  obtain ⟨hexec, -, rfl⟩ := step_eq_some.mp hread
  obtain rfl := (Prod.mk.inj hexec).2
  obtain ⟨-, -, rfl⟩ := step_eq_some.mp hsave
  obtain ⟨rfl, -⟩ := Prod.mk.inj (Option.some.inj hnil)
  rfl

/-- The ops for the word save it, and leave it in the read address if there is data to read. -/
theorem runSteps_word {a : PointArg} {w : u64} (h : a.SavesAt env st.data.reg0 w)
    (hblack : st.data.matchBlacklist = false)
    (hrun : runSteps env (codesOf a.wordOps) st = some (log, st')) :
    log = [.word w] ∧ (a.ty.hasData = true → st'.data.readAddr = w) := by
  have hword := h.word
  unfold PointArg.ReadsWord at hword
  unfold PointArg.wordOps at hrun
  cases hret : a.isRet with
  | true =>
      rw [hret, if_pos rfl] at hword hrun
      have hdata := h.data hret
      rw [runSteps_ret hrun, hword, hdata]
      exact ⟨rfl, fun hfalse => absurd hfalse Bool.false_ne_true⟩
  | false =>
      rw [hret, if_neg Bool.false_ne_true] at hword hrun
      suffices hboth : log = [.word w] ∧ st'.data.readAddr = w from ⟨hboth.1, fun _ => hboth.2⟩
      rcases hword with ⟨hnil, hreg, rfl⟩ | ⟨address, hops, rfl⟩
      · rw [if_neg (not_not_intro hnil)] at hrun
        let op := (readSaveReg (a.regIndex.setWidth 64)).toOpConfig
        have hindex : (op.readIndex st.data.regIndex).toNat = a.regIndex.toNat % 256 :=
          toNat_regIndex a.regIndex
        have hread := @step_readReg env op st (by rw [hindex]; exact hreg) hblack
        -- `READ_REG` and its `post_code` `SAVE_REG`, then `MOVE_REG_VALUE`
        obtain ⟨first, mid, rest, hfirst, hrest, rfl⟩ := runSteps_cons.mp hrun
        obtain ⟨rfl, rfl⟩ := Prod.mk.inj (Option.some.inj (hread.symm.trans hfirst))
        obtain ⟨second, mid', rest', hsave, hmove, rfl⟩ := runSteps_cons.mp hrest
        obtain ⟨hexec, -, rfl⟩ := step_eq_some.mp hsave
        obtain rfl := (Prod.mk.inj hexec).2
        obtain ⟨third, last, rest'', hthird, hnil', rfl⟩ := runSteps_cons.mp hmove
        obtain ⟨hexec', -, rfl⟩ := step_eq_some.mp hthird
        obtain rfl := (Prod.mk.inj hexec').2
        obtain ⟨rfl, rfl⟩ := Prod.mk.inj (Option.some.inj hnil')
        rw [← hindex]
        exact ⟨rfl, rfl⟩
      · rw [if_pos (by simp [hops]), hops] at hrun
        obtain ⟨next, hexec, -, hacc⟩ := @runSteps_ops env address st hblack
        obtain ⟨rfl, rfl⟩ := Prod.mk.inj (Option.some.inj (hexec.symm.trans hrun))
        exact ⟨rfl, congrArg Prod.fst hacc⟩

end Pieces

/-! ## One argument -/

section Arg

variable {maxOp : Nat} {env : ProbeEnv} {keys : Vector u32 maxOp} {n k : Nat}
  {st st' : LoopState}

/-- The loop reaches its end through `next`, where it has appended these records. -/
structure AppendsTo (env : ProbeEnv) (keys : Vector u32 maxOp) (st' st : LoopState) (k : Nat)
    (records : List DataRecord) (next : LoopState) : Prop where
  loop : ∃ n, readArgsLoop env keys n next = (.done, st')
  ready : next.Ready k
  reg0 : next.ctx.reg0 = st.ctx.reg0
  event : next.event.refused = false → st.event.refused = false ∧
    ∃ bytes, next.event.args = st.event.args ++ bytes ∧ Encodes records bytes

theorem AppendsTo.refl (hloop : readArgsLoop env keys n st = (.done, st')) (hready : st.Ready k) :
    AppendsTo env keys st' st k [] st :=
  ⟨⟨n, hloop⟩, hready, rfl, fun hroom => ⟨hroom, [], (List.append_nil _).symm, .nil⟩⟩

/-- What is appended on the way to one state and from there on. -/
theorem AppendsTo.trans {records records' : List DataRecord} {mid next : LoopState} {k' : Nat}
    (h : AppendsTo env keys st' st k records mid)
    (h' : AppendsTo env keys st' mid k' records' next) :
    AppendsTo env keys st' st k' (records ++ records') next := by
  refine ⟨h'.loop, h'.ready, h'.reg0.trans h.reg0, fun hroom => ?_⟩
  obtain ⟨hmid, bytes', hargs', hbytes'⟩ := h'.event hroom
  obtain ⟨hstart, bytes, hargs, hbytes⟩ := h.event hmid
  refine ⟨hstart, bytes ++ bytes', ?_, hbytes.append hbytes'⟩
  calc next.event.args = mid.event.args ++ bytes' := hargs'
    _ = (st.event.args ++ bytes) ++ bytes' := by rw [hargs]
    _ = st.event.args ++ (bytes ++ bytes') := List.append_assoc ..

/-- A straight piece of the list. -/
theorem appendsTo_straight (hmax : maxOp < 2 ^ 32) {ops : List NamedOp} (hready : st.Ready k)
    (hkeys : KeysAt env keys k (ops.map NamedOp.toOpConfig))
    (hstraight : ∀ op ∈ ops, op.isStraight = true)
    (hdone : readArgsLoop env keys n st = (.done, st')) :
    ∃ next log, AppendsTo env keys st' st (k + ops.length) (log.map DataRecord.ofSaved) next ∧
      runSteps env (codesOf ops) st.opState = some (log, next.opState) := by
  have hall : ∀ op ∈ ops.map NamedOp.toOpConfig, op.isStraight = true := by
    intro op hop
    obtain ⟨named, hnamed, rfl⟩ := List.mem_map.mp hop
    exact hstraight named hnamed
  obtain ⟨n', next, log, hloop, hat, hrun⟩ :=
    readArgsLoop_ops hmax hready.atOp hkeys hall hdone
  rw [List.length_map] at hat
  rw [List.flatMap_map] at hrun
  have hcodes : ∀ x ∈ codesOf ops, x.2.isStraight = true := by
    intro x hx
    obtain ⟨op, hop, hx⟩ := List.mem_flatMap.mp hx
    exact List.all_eq_true.mp (hstraight op hop) x hx
  have hcount := runSteps_loopCount hcodes hrun
  refine ⟨next, log, ⟨⟨n', hloop⟩, ⟨hat, hcount.trans hready.loopCount,
    runSteps_matchBlacklist hready.matchBlacklist hrun⟩, runSteps_reg0 hrun, fun hroom => ?_⟩, hrun⟩
  obtain ⟨hstart, bytes, hbytes, hargs⟩ := runSteps_event hcodes hrun hroom
  exact ⟨hstart, bytes, hargs, Encodes.of_written hbytes⟩

/-- No iteration writes `reg_0`. -/
theorem run_reg0 {xs : List (OpConfig × OpCode)} {next : LoopState}
    (h : (interpreter env keys).run st xs = some next) : next.ctx.reg0 = st.ctx.reg0 := by
  induction xs generalizing st with
  | nil =>
      obtain rfl := Option.some.inj h
      rfl
  | cons x xs ih =>
      obtain ⟨mid, hstep, hrest⟩ := Machine.run_cons_eq_some.mp h
      refine (ih hrest).trans ?_
      have hadvance := interpreter_step.mp hstep
      by_cases hfor : x.2 = .forBreak
      · obtain ⟨fetched, hfetch, hcode, -, hexec, -⟩ := advance_eq_some.mp hadvance
        have hkept : fetched.ctx.forBreak.reg0 = fetched.ctx.reg0 := by
          unfold OpCtx.forBreak
          dsimp only
          split <;> rfl
        unfold LoopState.exec at hexec
        rw [if_pos (hcode.trans hfor)] at hexec
        obtain ⟨-, rfl⟩ := Prod.mk.inj hexec
        exact hkept.trans (congrArg (fun o => o.data.reg0) (fetch_opState hfetch))
      · have hstate := advance_opState hfor hadvance
        exact (congrArg (fun o => o.data.reg0) hstate).trans (execOp_reg0 env x.1 x.2 st.opState)

/-- The list of a type, with its loop. -/
theorem appendsTo_opList (hmax : maxOp < 2 ^ 32) {ty : ArgType} (hregs : ty.RegsExist)
    (hready : st.Ready k) (hkeys : KeysAt env keys k (ty.opList.map NamedOp.toOpConfig))
    (hdone : readArgsLoop env keys n st = (.done, st')) :
    ∃ next, AppendsTo env keys st' st (k + ty.opList.length)
      (ty.dataAt env st.ctx.readAddr) next := by
  obtain ⟨xs, next, hnext⟩ :=
    opList_runs hmax hregs hkeys hready.atOp hready.loopCount hready.matchBlacklist
  -- the loop has as many iterations as the list takes
  have hbound : (readArgsLoop env keys n st).1 ≠ .bound :=
    ne_bound_of_done (congrArg Prod.fst hdone)
  have hlen := length_lt_of_run hbound hnext.run
  have hrest := readArgsLoop_of_run (n - xs.length) hnext.run
  have hsum : xs.length + (n - xs.length) = n := by omega
  rw [hsum, hdone] at hrest
  exact ⟨next, ⟨_, hrest.symm⟩, ⟨hnext.atOp, hnext.loopCount,
    run_matchBlacklist hready.matchBlacklist hnext.run⟩, run_reg0 hnext.run, hnext.event⟩

theorem isStraight_of_isFilter {op : NamedOp} (h : op.toOpConfig.isFilter = true) :
    op.isStraight = true := by
  obtain ⟨hcode, hpost⟩ := Bool.and_eq_true_iff.mp h
  have hpost : op.postCode = .skip := of_decide_eq_true hpost
  have hcode := of_decide_eq_true hcode
  simp only [List.mem_cons, List.not_mem_nil, or_false] at hcode
  unfold OpConfig.isStraight OpConfig.steps
  rw [if_pos hpost]
  rcases hcode with h | h | h <;> simp [h, OpCode.isStraight]

/-- Filters between the pieces append nothing. -/
theorem appendsTo_filters (hmax : maxOp < 2 ^ 32) {ops : List NamedOp}
    (hops : ∀ op ∈ ops, op.toOpConfig.isFilter = true) (hready : st.Ready k)
    (hkeys : KeysAt env keys k (ops.map NamedOp.toOpConfig))
    (hdone : readArgsLoop env keys n st = (.done, st')) :
    ∃ next, AppendsTo env keys st' st (k + ops.length) [] next ∧
      next.ctx.readAddr = st.ctx.readAddr := by
  obtain ⟨next, log, happends, hrun⟩ := appendsTo_straight hmax hready hkeys
    (fun op hop => isStraight_of_isFilter (hops op hop)) hdone
  obtain ⟨rfl, haddr⟩ := runSteps_filters hops hrun
  exact ⟨next, happends, haddr⟩

/-- A read address is compiled to address ops. -/
theorem isAddressOp_ops (a : ReadAddress) : ∀ op ∈ a.ops, op.isAddressOp = true := by
  have hterm (t : Term) : ∀ op ∈ t.ops, op.isAddressOp = true := by
    obtain ⟨minus, operand⟩ := t
    cases operand <;> cases minus <;>
      simp [Term.ops, NamedOp.isAddressOp, NamedOp.newValue, opcAddOffset, opcSubOffset, opcAddReg,
        opcSubReg, readMoveReg, combinedOp, rop]
  have hterms (terms : List Term) : ∀ op ∈ terms.flatMap Term.ops, op.isAddressOp = true := by
    intro op hop
    obtain ⟨t, -, hop⟩ := List.mem_flatMap.mp hop
    exact hterm t op hop
  unfold ReadAddress.ops
  refine List.forall_mem_cons.mpr ⟨rfl, List.forall_mem_append.mpr ⟨hterms a.rest, ?_⟩⟩
  intro op hop
  obtain ⟨seg, -, hop⟩ := List.mem_flatMap.mp hop
  have hderef : ∀ op ∈ [opcReadPointer, opcMovePointerValue], op.isAddressOp = true := by decide
  exact List.forall_mem_append.mpr ⟨hderef, hterms seg⟩ op hop

theorem isStraight_wordOps {a : PointArg} {ret w : u64} (h : a.SavesAt env ret w) :
    ∀ op ∈ a.wordOps, op.isStraight = true := by
  have hword := h.word
  unfold PointArg.ReadsWord at hword
  unfold PointArg.wordOps
  cases hret : a.isRet with
  | true => exact List.forall_mem_cons.mpr ⟨rfl, List.forall_mem_singleton.mpr rfl⟩
  | false =>
      rw [if_neg Bool.false_ne_true]
      rw [hret, if_neg Bool.false_ne_true] at hword
      rcases hword with ⟨hnil, -, -⟩ | ⟨address, hops, -⟩
      · rw [if_neg (not_not_intro hnil)]
        exact List.forall_mem_cons.mpr ⟨rfl, List.forall_mem_singleton.mpr rfl⟩
      · rw [if_pos (by simp [hops]), hops]
        exact List.forall_mem_append.mpr
          ⟨fun op hop => isStraight_of_isAddressOp (isAddressOp_ops address op hop),
            List.forall_mem_singleton.mpr rfl⟩

/-- **One argument.** A loop that ends behind the op list of an argument has appended its word and
its data. -/
theorem appendsTo_arg (hmax : maxOp < 2 ^ 32) {a : PointArg} {w : u64}
    (h : a.SavesAt env st.ctx.reg0 w) (hready : st.Ready k)
    (hkeys : KeysAt env keys k (a.getOpList.map NamedOp.toOpConfig))
    (hdone : readArgsLoop env keys n st = (.done, st')) :
    ∃ next, AppendsTo env keys st' st (k + a.getOpList.length) (a.recordsAt env w) next := by
  have hfilters := filterOps_spec a
  have hvalueOps : ∀ op ∈ a.valueFilterOps, op.toOpConfig.isFilter = true :=
    fun op hop => (hfilters op (List.mem_append_left _ hop)).1
  have hdataOps : ∀ op ∈ a.dataFilterOps, op.toOpConfig.isFilter = true :=
    fun op hop => (hfilters op (List.mem_append_right _ hop)).1
  -- the op list: the word, the filters on it, the data, and the filters on the data
  rw [getOpList_eq h.placed] at hkeys ⊢
  unfold PointArg.restOps at hkeys ⊢
  rw [List.map_append, List.map_append] at hkeys
  obtain ⟨hword, hrest⟩ := keysAt_append hkeys
  obtain ⟨hvalue, hmore⟩ := keysAt_append hrest
  rw [List.length_map] at hvalue hmore
  rw [List.length_map] at hmore
  obtain ⟨st₁, log, hfirst, hrun⟩ :=
    appendsTo_straight hmax hready hword (isStraight_wordOps h) hdone
  obtain ⟨rfl, haddr⟩ := runSteps_word h hready.matchBlacklist hrun
  obtain ⟨n₁, hloop₁⟩ := hfirst.loop
  obtain ⟨st₂, hsecond, hsame⟩ := appendsTo_filters hmax hvalueOps hfirst.ready hvalue hloop₁
  have haddr₂ : a.ty.dataAt env st₂.ctx.readAddr = a.ty.dataAt env w := by
    cases hdata : a.ty.hasData with
    | false => rw [dataAt_of_hasData hdata, dataAt_of_hasData hdata]
    | true => rw [show st₂.ctx.readAddr = w from hsame.trans (haddr hdata)]
  rw [List.length_append, List.length_append, ← Nat.add_assoc, ← Nat.add_assoc]
  unfold PointArg.recordsAt
  cases hreads : a.readMore with
  | false => exact ⟨st₂, hfirst.trans hsecond⟩
  | true =>
      rw [hreads, if_pos rfl, List.map_append] at hmore
      obtain ⟨hdata, hlast⟩ := keysAt_append hmore
      rw [List.length_map] at hlast
      obtain ⟨n₂, hloop₂⟩ := hsecond.loop
      obtain ⟨st₃, hthird⟩ :=
        appendsTo_opList hmax (h.registers hreads) hsecond.ready hdata hloop₂
      rw [haddr₂] at hthird
      obtain ⟨n₃, hloop₃⟩ := hthird.loop
      obtain ⟨st₄, hfourth, -⟩ := appendsTo_filters hmax hdataOps hthird.ready hlast hloop₃
      rw [if_pos rfl, if_pos rfl, List.length_append, ← Nat.add_assoc]
      have hall := ((hfirst.trans hsecond).trans hthird).trans hfourth
      rw [List.append_nil, List.append_nil] at hall
      exact ⟨st₄, hall⟩

/-! ## A list of arguments -/

/-- The records of a list of arguments. -/
def recordsOf (env : ProbeEnv) (args : List PointArg) (words : List u64) : List DataRecord :=
  (args.zipWith (fun a w => a.recordsAt env w) words).flatten

/-- The arguments one after the other. -/
theorem appendsTo_args (hmax : maxOp < 2 ^ 32) {args : List PointArg} {words : List u64}
    (h : List.Forall₂ (fun a w => a.SavesAt env st.ctx.reg0 w) args words) (hready : st.Ready k)
    (hkeys : KeysAt env keys k (packedOps args))
    (hdone : readArgsLoop env keys n st = (.done, st')) :
    ∃ next, AppendsTo env keys st' st (k + (packedOps args).length)
      (recordsOf env args words) next := by
  generalize hret : st.ctx.reg0 = ret at h
  induction h generalizing st n k with
  | nil => exact ⟨st, .refl hdone hready⟩
  | @cons a w args words ha hargs ih =>
      subst hret
      rw [packedOps_cons] at hkeys ⊢
      obtain ⟨hfirst, hrest⟩ := keysAt_append hkeys
      rw [List.length_map] at hrest
      obtain ⟨mid, hmid⟩ := appendsTo_arg hmax ha hready hfirst hdone
      obtain ⟨m, hloop⟩ := hmid.loop
      obtain ⟨next, hnext⟩ := ih hmid.ready hrest hloop hmid.reg0
      rw [List.length_append, List.length_map, ← Nat.add_assoc]
      exact ⟨next, hmid.trans hnext⟩

end Arg

/-! ## A run of `read_args` -/

section Run

variable {maxOp : Nat} {env : ProbeEnv} {m : OpManager} {args : List PointArg} {words : List u64}
  {packed : PointArgs maxOp} {enterKey : u32} {ctx : OpCtx} {event : EventData}
  {strBuf : StrBufMap}

/-- The context in which a probe enters `read_args`, with nothing pending of earlier runs. -/
structure OpCtx.Fresh (ctx : OpCtx) : Prop where
  idle : ctx.Idle
  opKeyIndex : ctx.opKeyIndex = 0
  loopCount : ctx.loopCount = 0
  matchBlacklist : ctx.matchBlacklist = false

theorem OpCtx.fresh_start {ctx : OpCtx} (hidle : ctx.Idle) (reg0 : u64) (saveIndex : u8) :
    (ctx.start reg0 saveIndex).Fresh := ⟨hidle, rfl, rfl, rfl⟩

/-- A run that reaches its terminator is a run of the loop. -/
theorem readArgs_loop (hdone : (readArgs env packed ctx event strBuf).1 = .done) :
    ∃ st', readArgsLoop env packed.opKeyList maxOp ⟨env.opList.lookup 0, ctx, event, strBuf⟩ =
        (.done, st') ∧ (readArgs env packed ctx event strBuf).2.event = st'.event := by
  unfold readArgs at hdone ⊢
  generalize readArgsLoop env packed.opKeyList maxOp
    ⟨env.opList.lookup 0, ctx, event, strBuf⟩ = r at hdone ⊢
  obtain ⟨reason, st'⟩ := r
  cases reason with
  | done => exact ⟨st', rfl, rfl⟩
  | _ => cases hdone

/-- **What a completed run has saved.** The bytes that `read_args` has added to an event are the
records of the arguments: for each of them its word and, where it is read further, the data of its
type. -/
theorem readArgs_appends (hmax : maxOp < 2 ^ 32) (hpos : 0 < maxOp)
    (hloaded : m.LoadedIn env.opList) (hmem : ∀ a ∈ args, ∀ op ∈ a.getOpList, op ∈ m.opList)
    (hpack : PointArgs.pack maxOp m enterKey args = some packed)
    (h : List.Forall₂ (fun a w => a.SavesAt env ctx.reg0 w) args words) (hctx : ctx.Fresh)
    (hdone : (readArgs env packed ctx event strBuf).1 = .done)
    (hroom : (readArgs env packed ctx event strBuf).2.event.refused = false) :
    ∃ bytes, (readArgs env packed ctx event strBuf).2.event.args = event.args ++ bytes ∧
      Encodes (recordsOf env args words) bytes := by
  obtain ⟨st', hloop, hevent⟩ := readArgs_loop hdone
  obtain ⟨n, st, hloop₁, hat, hstate⟩ :=
    readArgsLoop_enter hloaded.lookup_zero hctx.idle hctx.opKeyIndex hloop
  have hready : st.Ready 0 := by
    refine ⟨hat, ?_, ?_⟩
    · exact (congrArg (fun s => s.data.loopCount) hstate).trans hctx.loopCount
    · exact (congrArg (fun s => s.data.matchBlacklist) hstate).trans hctx.matchBlacklist
  have hret : ctx.reg0 = st.ctx.reg0 := (congrArg (fun s => s.data.reg0) hstate).symm
  obtain ⟨next, hnext⟩ :=
    appendsTo_args hmax (hret ▸ h) hready (packed_keysAt hmax hpos hloaded hmem hpack) hloop₁
  obtain ⟨n', hloop₂⟩ := hnext.loop
  -- behind the arguments comes the terminator
  obtain ⟨hk, hkey⟩ := packed_end hmax hpos hloaded hmem hpack
  have hat' := hnext.ready.atOp
  rw [Nat.zero_add] at hat'
  have hlast := readArgsLoop_skip hat' hk hkey rfl hloop₂
  have hevent' : (readArgs env packed ctx event strBuf).2.event = next.event :=
    hevent.trans (congrArg OpState.event hlast)
  rw [hevent'] at hroom ⊢
  obtain ⟨-, bytes, hargs, hbytes⟩ := hnext.event hroom
  have hstart : st.event = event := congrArg OpState.event hstate
  rw [hstart] at hargs
  exact ⟨bytes, hargs, hbytes⟩

end Run

end Stackplz
