import Stackplz.Probe.Progress
import Stackplz.User.ReadAddress

/-!
# Numeric filters

`eq:N`, `gt:N` and `lt:N` are documented as comparisons of the argument's value with `N`. The op
that checks them rejects an event when `N` is not equal to, at most, or at least the register
value: for `gt` and `lt` it keeps the events on the wrong side. What it compares is the register
that was read last, which for an argument with a read address is not the value that is saved.
`valueFilter_passes_iff` says for which values a filter does what is documented.
-/

set_option autoImplicit false

namespace Stackplz

/-! ## Filters -/

/-- The kinds of filters that compare numbers. -/
def comparisonOf : String → Option FilterType
  | "eq" | "equal" => some .equal
  | "gt" | "greater" => some .greater
  | "lt" | "less" => some .less
  | _ => none

/-- `AddFilter` on a filter that compares numbers; `none` for the other kinds and for a panic.
The number has the forms of `StrToNum64`. -/
def addValueFilter (filter : Text) : Option ArgFilter :=
  let (kind, value) := Text.splitTwo ':' filter
  match comparisonOf (String.ofList kind), value.bind fun s => Text.parseUint s 0 64 with
  | some type, some num => some ⟨type, Vector.replicate 256 0, 0, BitVec.ofNat 64 num⟩
  | _, _ => none

/-- What is documented: the values that satisfy the filter. -/
def ArgFilter.Accepts (f : ArgFilter) (v : u64) : Prop :=
  match f.filterType with
  | .equal => v = f.numVal
  | .greater => f.numVal < v
  | .less => v < f.numVal
  | _ => True

/-- The register value `r` is on the side of `N` that the filter lets pass exactly when the
saved value `v` is on the side that is documented. -/
def ArgFilter.Agrees (f : ArgFilter) (r v : u64) : Prop :=
  match f.filterType with
  | .equal => r = f.numVal ↔ v = f.numVal
  | .greater => r < f.numVal ↔ f.numVal < v
  | .less => f.numVal < r ↔ v < f.numVal
  | _ => True

theorem comparisonOf_cases {kind : String} {type : FilterType} (h : comparisonOf kind = some type) :
    type = .equal ∨ type = .greater ∨ type = .less := by
  unfold comparisonOf at h
  split at h <;> cases h
  all_goals simp

theorem addValueFilter_cases {filter : Text} {f : ArgFilter} (h : addValueFilter filter = some f) :
    f.filterType = .equal ∨ f.filterType = .greater ∨ f.filterType = .less := by
  unfold addValueFilter at h
  dsimp only at h
  split at h
  · rename_i htype _
    obtain rfl := Option.some.inj h
    exact comparisonOf_cases htype
  · cases h

/-- The check lets a value pass that is on the side of the filter that it keeps. -/
theorem passes_iff_agrees {filter : Text} {f : ArgFilter} (h : addValueFilter filter = some f)
    (r v : u64) : (filterValueRejects f r = false ↔ f.Accepts v) ↔ f.Agrees r v := by
  unfold filterValueRejects ArgFilter.Accepts ArgFilter.Agrees
  have hne : (f.numVal != r) = false ↔ r = f.numVal := by
    rw [bne_eq_false_iff_eq, eq_comm]
  rcases addValueFilter_cases h with hf | hf | hf <;> rw [hf]
  · show ((f.numVal != r) = false ↔ v = f.numVal) ↔ _
    rw [hne]
  · simp
  · simp

/-- On the saved value itself only `eq` does what is documented, except at `N`. -/
theorem agrees_self {filter : Text} {f : ArgFilter} (h : addValueFilter filter = some f) (v : u64) :
    f.Agrees v v ↔ f.filterType = .equal ∨ v = f.numVal := by
  have hlt : ∀ a b : u64, (a < b ↔ b < a) ↔ a = b := by
    intro a b
    constructor
    · intro hab
      refine BitVec.eq_of_toNat_eq ?_
      have hnat : a.toNat < b.toNat ↔ b.toNat < a.toNat := hab
      omega
    · rintro rfl
      exact Iff.rfl
  unfold ArgFilter.Agrees
  rcases addValueFilter_cases h with hf | hf | hf <;> rw [hf]
  · simp
  · simp [hlt]
  · show (f.numVal < v ↔ v < f.numVal) ↔ _
    rw [hlt, eq_comm]
    simp

/-! ## The register that is read last -/

/-- The last register of some terms, or the one that was read before them. -/
def lastRegister (index : RegIndex) (terms : List Term) : RegIndex :=
  terms.foldl (fun index t => match t.2 with | .reg i => i | .num _ => index) index

def ReadAddress.lastRegister (a : ReadAddress) : RegIndex :=
  a.later.foldl Stackplz.lastRegister (Stackplz.lastRegister a.head a.rest)

theorem execTerms_register {regs : CtxRegs} {terms : List Term} {index : RegIndex} {acc : Accum}
    (h : acc.2 = regs.get index.val.toNat) :
    (execTerms regs terms acc).2 = regs.get (lastRegister index terms).val.toNat := by
  induction terms generalizing index acc with
  | nil => exact h
  | cons t terms ih =>
      obtain ⟨minus, operand⟩ := t
      cases operand with
      | reg i => exact ih rfl
      | num value => exact ih h

/-- The register value that the ops leave is that of the last register. -/
theorem exec_register (a : ReadAddress) (mem : UserMem) (regs : CtxRegs) :
    (a.exec mem regs).2 = regs.get a.lastRegister.val.toNat := by
  have hlater (later : List (List Term)) : ∀ (index : RegIndex) (acc : Accum),
      acc.2 = regs.get index.val.toNat → (later.foldl (execSegment mem regs) acc).2 =
        regs.get (later.foldl lastRegister index).val.toNat := by
    induction later with
    | nil => exact fun _ _ h => h
    | cons seg later ih => exact fun index acc h => ih _ _ (execTerms_register h)
  exact hlater a.later _ _ (execTerms_register rfl)

/-! ## Arguments -/

/-- Where an argument is read: from its register, or at a read address. -/
def PointArg.ReadFrom (a : PointArg) : Option ReadAddress → Prop
  | none => a.extraOpList = [] ∧ a.regIndex.toNat < 33
  | some address => a.extraOpList = address.ops ++ [opcSaveAddr]

/-- The value that is saved and reported for the argument. -/
def PointArg.savedValue (a : PointArg) (env : ProbeEnv) : Option ReadAddress → u64
  | none => env.regs.get a.regIndex.toNat
  | some address => (address.exec env.mem env.regs).1

/-- The value that its filters look at. -/
def PointArg.filteredValue (a : PointArg) (env : ProbeEnv) : Option ReadAddress → u64
  | none => env.regs.get a.regIndex.toNat
  | some address => env.regs.get address.lastRegister.val.toNat

/-- The ops that come before the `j`-th filter of an argument. -/
def PointArg.opsBefore (a : PointArg) (j : Nat) : List NamedOp :=
  a.wordOps ++ a.valueFilterOps.take j

/-- The filter lets the values pass that it is documented to let pass. -/
def PointArg.FilterMeant (a : PointArg) (env : ProbeEnv) (f : ArgFilter) :
    Option ReadAddress → Prop
  | none => f.filterType = .equal ∨ a.savedValue env none = f.numVal
  | some address => f.Agrees (a.filteredValue env (some address)) (a.savedValue env (some address))

section Args

variable {env : ProbeEnv} {a : PointArg} {source : Option ReadAddress}

/-- The ops of the argument's word save its value and leave the register that was read last. -/
theorem runSteps_wordOps (hret : a.isRet = false) (hsource : a.ReadFrom source) {st : OpState}
    (hst : st.data.matchBlacklist = false) :
    ∃ next, runSteps env (codesOf a.wordOps) st = some ([.word (a.savedValue env source)], next) ∧
      next.data.matchBlacklist = false ∧ next.data.regValue = a.filteredValue env source := by
  unfold PointArg.wordOps
  rw [hret, if_neg Bool.false_ne_true]
  cases source with
  | none =>
      obtain ⟨hnil, hreg⟩ := hsource
      rw [if_neg (not_not_intro hnil)]
      let op := (readSaveReg (a.regIndex.setWidth 64)).toOpConfig
      have hindex : (op.readIndex st.data.regIndex).toNat = a.regIndex.toNat := by
        show ((a.regIndex.setWidth 64).setWidth 8).toNat = a.regIndex.toNat
        simp only [BitVec.toNat_setWidth]
        omega
      have hread : st.step env (op, .readReg) = _ := step_readReg (hindex ▸ hreg) hst
      refine ⟨_, runSteps_cons.mpr ⟨[], _, _, hread, runSteps_cons.mpr
        ⟨_, _, _, step_eq_some.mpr ⟨rfl, hst, rfl⟩, runSteps_cons.mpr
          ⟨[], _, [], step_eq_some.mpr ⟨rfl, hst, rfl⟩, rfl, rfl⟩, rfl⟩, ?_⟩, hst, ?_⟩
      · show [Saved.word (env.regs.get a.regIndex.toNat)] =
          [Saved.word (env.regs.get (op.readIndex st.data.regIndex).toNat)]
        rw [hindex]
      · show env.regs.get (op.readIndex st.data.regIndex).toNat = env.regs.get a.regIndex.toNat
        rw [hindex]
  | some address =>
      have hops : a.extraOpList = address.ops ++ [opcSaveAddr] := hsource
      have hne : a.extraOpList ≠ [] := by simp [hops]
      rw [if_pos hne, hops]
      obtain ⟨next, hrun, hnext, hacc⟩ := @runSteps_ops env address _ hst
      refine ⟨next, hrun, hnext, ?_⟩
      have hreg : next.data.regValue = (address.exec env.mem env.regs).2 := congrArg Prod.snd hacc
      rw [hreg, exec_register]
      rfl

/-- A run that goes on has matched no black list. -/
theorem runSteps_matchBlacklist {xs : List (OpConfig × OpCode)} {st next : OpState}
    {log : List Saved} (hst : st.data.matchBlacklist = false)
    (h : runSteps env xs st = some (log, next)) : next.data.matchBlacklist = false := by
  induction xs generalizing st log with
  | nil =>
      obtain ⟨-, rfl⟩ := Prod.mk.inj (Option.some.inj h)
      exact hst
  | cons x xs ih =>
      obtain ⟨_, mid, rest, hstep, hrest, -⟩ := runSteps_cons.mp h
      exact ih (step_eq_some.mp hstep).2.1 hrest

theorem execOp_filterValue (env : ProbeEnv) (op : OpConfig) (st : OpState) :
    (execOp env op .filterValue st).2.data.regValue = st.data.regValue := by
  unfold execOp
  dsimp only
  split <;> rfl

/-- Value filters leave the register value alone. -/
theorem runSteps_valueFilters {indices : List u32} {st next : OpState} {log : List Saved}
    (h : runSteps env (codesOf (indices.map fun i => opcFilterValue.newValue (i.setWidth 64))) st =
      some (log, next)) : next.data.regValue = st.data.regValue := by
  induction indices generalizing st log with
  | nil =>
      obtain ⟨-, rfl⟩ := Prod.mk.inj (Option.some.inj h)
      rfl
  | cons i indices ih =>
      obtain ⟨_, mid, rest, hstep, hrest, -⟩ := runSteps_cons.mp h
      obtain ⟨hexec, -, -⟩ := step_eq_some.mp hstep
      have hmid : mid.data.regValue = st.data.regValue := by
        rw [← execOp_filterValue env (opcFilterValue.newValue (i.setWidth 64)).toOpConfig st]
        exact congrArg (fun r => r.2.data.regValue) hexec.symm
      rw [ih hrest, hmid]

end Args

/-! ## In the probe -/

section Probe

variable {maxOp : Nat} {env : ProbeEnv} {keys : Vector u32 maxOp} {a : PointArg}
  {source : Option ReadAddress}

/-- Two runs of the same codes are the same. -/
theorem run_unique {st next next' : LoopState} {xs : List (OpConfig × OpCode)}
    (h : (interpreter env keys).run st xs = some next)
    (h' : (interpreter env keys).run st xs = some next') : next = next' :=
  Option.some.inj (h.symm.trans h')

/-- What the filter does with the event that reaches it. -/
theorem readArgsLoop_filterValue {mid : LoopState} {k : Nat} {i : u32} {f : ArgFilter}
    (hat : mid.AtOp k) (hk : k < maxOp)
    (hkey : env.opList.lookup keys[k] =
      some (opcFilterValue.newValue (i.setWidth 64)).toOpConfig)
    (hf : env.argFilter.lookup (i.setWidth 64) = some f) (hblack : mid.ctx.matchBlacklist = false) :
    (readArgsLoop env keys 1 mid).1 ≠ .blacklisted ↔
      filterValueRejects f mid.ctx.regValue = false := by
  let op := (opcFilterValue.newValue (i.setWidth 64)).toOpConfig
  have hexec : execOp env op .filterValue mid.opState =
      (true, mid.opState.setData fun d => { d with
        matchBlacklist := d.matchBlacklist || filterValueRejects f d.regValue }) := by
    have hlookup : env.argFilter.lookup op.value = some f := hf
    unfold execOp
    dsimp only
    rw [hlookup]
  have hstep : (mid.fetched op).exec env op = (true, (mid.fetched op).withOpState
      (mid.opState.setData fun d => { d with
        matchBlacklist := d.matchBlacklist || filterValueRejects f d.regValue })) := by
    have hfor : OpCode.filterValue ≠ .forBreak := by decide
    rw [exec_of_ne (show (mid.fetched op).ctx.opCode ≠ .forBreak from hfor)]
    show ((execOp env op .filterValue mid.opState).1, (mid.fetched op).withOpState
      (execOp env op .filterValue mid.opState).2) = _
    rw [hexec]
  have hskip : OpCode.filterValue ≠ .skip := by decide
  rw [readArgsLoop, fetch_atOp hat hk hkey]
  dsimp only
  rw [if_neg (show (mid.fetched op).ctx.opCode ≠ .skip from hskip), hstep]
  dsimp only
  show (if (mid.ctx.matchBlacklist || filterValueRejects f mid.ctx.regValue) = true then _
    else _ : LoopEnd × LoopState).1 ≠ .blacklisted ↔ _
  rw [hblack, Bool.false_or]
  cases filterValueRejects f mid.ctx.regValue <;> simp [readArgsLoop]

theorem isForward_wordOps (hret : a.isRet = false) (hsource : a.ReadFrom source) :
    ∀ op ∈ a.wordOps, op.toOpConfig.isForward = true := by
  unfold PointArg.wordOps
  rw [hret, if_neg Bool.false_ne_true]
  cases source with
  | none =>
      rw [if_neg (not_not_intro hsource.1)]
      exact List.forall_mem_cons.mpr ⟨rfl, by decide⟩
  | some address =>
      have hops : a.extraOpList = address.ops ++ [opcSaveAddr] := hsource
      have hne : a.extraOpList ≠ [] := by simp [hops]
      rw [if_pos hne, hops]
      exact fun op hop => isForward_ops address op.toOpConfig (List.mem_map_of_mem hop)

/-- The ops before a filter run as they do by themselves, and the filter comes next. -/
theorem run_opsBefore (hmax : maxOp < 2 ^ 32) (hret : a.isRet = false)
    (hstring : a.ty.isString = false) (hbuffer : a.ty.isBuffer = false)
    (hreg : a.regIndex ≠ regArm64Max) (hsource : a.ReadFrom source) {k : Nat}
    (hkeys : KeysAt env keys k (a.getOpList.map NamedOp.toOpConfig)) {st mid : LoopState}
    (hat : st.AtOp k) {j : Nat} {i : u32} (hi : a.filterIndexList[j]? = some i)
    (hrun : (interpreter env keys).run st (codesOf (a.opsBefore j)) = some mid) :
    (∃ log, runSteps env (codesOf (a.opsBefore j)) st.opState = some (log, mid.opState)) ∧
      ∃ place, mid.AtOp place ∧ ∃ hk : place < maxOp, env.opList.lookup keys[place] =
        some (opcFilterValue.newValue (i.setWidth 64)).toOpConfig := by
  have hvalue : a.valueFilterOps =
      a.filterIndexList.map fun i => opcFilterValue.newValue (i.setWidth 64) := by
    unfold PointArg.valueFilterOps
    rw [hret, hstring, hbuffer]
    rfl
  obtain ⟨hj, hget⟩ := List.getElem?_eq_some_iff.mp hi
  have hlist : ∃ after, a.getOpList =
      a.opsBefore j ++ opcFilterValue.newValue (i.setWidth 64) :: after := by
    have hsplit : a.valueFilterOps = a.valueFilterOps.take j ++
        opcFilterValue.newValue (i.setWidth 64) :: a.valueFilterOps.drop (j + 1) := by
      have hlen : j < a.valueFilterOps.length := by rwa [hvalue, List.length_map]
      have hop : a.valueFilterOps[j] = opcFilterValue.newValue (i.setWidth 64) := by
        simp only [hvalue, List.getElem_map, hget]
      rw [← hop, ← List.drop_eq_getElem_cons hlen, List.take_append_drop]
    unfold PointArg.getOpList PointArg.opsBefore
    rw [if_neg hreg]
    nth_rewrite 1 [hsplit]
    refine ⟨a.valueFilterOps.drop (j + 1) ++
      (if a.readMore then a.ty.opList ++ a.dataFilterOps else []), ?_⟩
    simp only [List.append_assoc, List.cons_append]
  obtain ⟨after, hlist⟩ := hlist
  rw [hlist, List.map_append, List.map_cons] at hkeys
  obtain ⟨hbefore, hfilter⟩ := keysAt_append hkeys
  obtain ⟨⟨hk, hkey⟩, -⟩ := keysAt_cons hfilter
  have hforward : ∀ op ∈ (a.opsBefore j).map NamedOp.toOpConfig, op.isForward = true := by
    intro op hop
    obtain ⟨named, hnamed, rfl⟩ := List.mem_map.mp hop
    rcases List.mem_append.mp hnamed with hword | hvalues
    · exact isForward_wordOps hret hsource named hword
    · have hmem := List.mem_of_mem_take hvalues
      rw [hvalue] at hmem
      obtain ⟨i', -, rfl⟩ := List.mem_map.mp hmem
      rfl
  have hcodes : ((a.opsBefore j).map NamedOp.toOpConfig).flatMap OpConfig.steps =
      codesOf (a.opsBefore j) := by
    rw [List.flatMap_map]
    rfl
  have hfor : ∀ x ∈ codesOf (a.opsBefore j), x.2 ≠ .forBreak := by
    intro x hx
    rw [← hcodes] at hx
    obtain ⟨op, hop, hx⟩ := List.mem_flatMap.mp hx
    exact (OpCode.isForward_iff.mp (List.all_eq_true.mp (hforward op hop) x hx)).2
  obtain ⟨log, hsteps⟩ := run_runSteps hfor hrun
  obtain ⟨next, hnext, hplace, -⟩ := run_ops hmax hat hbefore hforward (hcodes ▸ hsteps)
  obtain rfl : next = mid := run_unique (hcodes ▸ hnext) hrun
  exact ⟨⟨log, hsteps⟩, _, hplace, hk, hkey⟩

/-- **When a numeric filter means what is documented.** An event that reaches a filter of an
argument passes it exactly when the saved value satisfies the filter, exactly under this
condition: the filter is `eq` or the value is `N`, where the argument is read from a register;
the register read last is on the side of `N` that fits the value, where it has a read address. -/
theorem valueFilter_passes_iff (hmax : maxOp < 2 ^ 32) (hret : a.isRet = false)
    (hstring : a.ty.isString = false) (hbuffer : a.ty.isBuffer = false)
    (hreg : a.regIndex ≠ regArm64Max) (hsource : a.ReadFrom source) {k : Nat}
    (hkeys : KeysAt env keys k (a.getOpList.map NamedOp.toOpConfig)) {st mid : LoopState}
    (hat : st.AtOp k) (hblack : st.ctx.matchBlacklist = false) {j : Nat} {i : u32}
    (hi : a.filterIndexList[j]? = some i) {filter : Text} {f : ArgFilter}
    (hadd : addValueFilter filter = some f)
    (hf : env.argFilter.lookup (i.setWidth 64) = some f)
    (hrun : (interpreter env keys).run st (codesOf (a.opsBefore j)) = some mid) :
    (execSteps env (codesOf a.wordOps) st.opState).1 = [.word (a.savedValue env source)] ∧
      (((readArgsLoop env keys 1 mid).1 ≠ .blacklisted ↔ f.Accepts (a.savedValue env source)) ↔
        a.FilterMeant env f source) := by
  obtain ⟨o, hword, ho, hoReg⟩ := @runSteps_wordOps env _ _ hret hsource st.opState hblack
  refine ⟨congrArg Prod.fst (runSteps_eq_execSteps hword).symm, ?_⟩
  obtain ⟨⟨log, hsteps⟩, place, hplace, hk, hkey⟩ :=
    run_opsBefore hmax hret hstring hbuffer hreg hsource hkeys hat hi hrun
  -- the filters before this one leave the register value of the word's ops
  have hmid : mid.ctx.matchBlacklist = false ∧ mid.ctx.regValue = a.filteredValue env source := by
    have hfilters : a.valueFilterOps.take j = (a.filterIndexList.take j).map
        fun i => opcFilterValue.newValue (i.setWidth 64) := by
      unfold PointArg.valueFilterOps
      rw [hret, hstring, hbuffer, List.map_take]
      rfl
    unfold PointArg.opsBefore at hsteps
    rw [codesOf_append, hfilters] at hsteps
    obtain ⟨_, o', _, hword', hvalues, -⟩ := runSteps_append.mp hsteps
    obtain ⟨-, rfl⟩ := Prod.mk.inj (Option.some.inj (hword.symm.trans hword'))
    have hvalue : mid.opState.data.regValue = o.data.regValue := runSteps_valueFilters hvalues
    exact ⟨runSteps_matchBlacklist ho hvalues, hvalue.trans hoReg⟩
  rw [readArgsLoop_filterValue hplace hk hkey hf hmid.1, hmid.2, passes_iff_agrees hadd]
  cases source with
  | none => exact agrees_self hadd _
  | some address => exact Iff.rfl

end Probe

/-! ### Filters on a register -/

/-- An argument `int` in `x0` with one filter, as the hook `f[int.f0]` gives it. -/
def filteredArg : PointArg :=
  { newUprobePointArg [] (.num .int .plain) 0 with filterIndexList := [1] }

/-- The op table after the argument is parsed. -/
def filteredTable : OpManager := filteredArg.getOpList.foldl OpManager.addOp .init

def filteredPacked : PointArgs stackMaxOpCount :=
  (PointArgs.pack stackMaxOpCount filteredTable 0 [filteredArg]).get (by decide +kernel)

/-- The process with this filter as the first one. -/
def ProbeEnv.withFilter (env : ProbeEnv) (f : ArgFilter) : ProbeEnv :=
  { env with argFilter := BoundedMap.empty.put 1 f }

theorem loadedIn_withFilter {m : OpManager} {env : ProbeEnv} (h : m.LoadedIn env.opList)
    (f : ArgFilter) : m.LoadedIn (env.withFilter f).opList := h

theorem lookup_withFilter (env : ProbeEnv) (f : ArgFilter) :
    (env.withFilter f).argFilter.lookup 1 = some f :=
  BoundedMap.lookup_put_self f (Or.inr (by decide))

/-- A process with `x0 = value`, and this filter as the first one. -/
def filteredEnv (f : ArgFilter) (value : u64) : ProbeEnv :=
  (flatEnv filteredTable value).withFilter f

/-- The state before the argument. -/
def filteredStart : LoopState := ⟨none, { OpCtx.cleared with postCode := .skip }, .init, .empty⟩

theorem filteredEnv_keysAt (f : ArgFilter) (value : u64) :
    KeysAt (filteredEnv f value) filteredPacked.opKeyList 0
      (filteredArg.getOpList.map NamedOp.toOpConfig) := by
  have hloaded : filteredTable.LoadedIn (filteredEnv f value).opList :=
    loadedIn_withFilter (loadedIn_flatEnv (by decide +kernel) value) f
  have hkeys : KeysAt (filteredEnv f value) filteredPacked.opKeyList 0 (packedOps [filteredArg]) :=
    packed_keysAt (by decide) (by decide) hloaded (by decide +kernel) (Option.some_get _).symm
  rwa [packedOps, List.flatMap_cons, List.flatMap_nil, List.append_nil] at hkeys

/-- The filter `gt:5`. -/
def greaterFilter : ArgFilter := ⟨.greater, Vector.replicate 256 0, 0, 5⟩

/-- The filter `eq:5`. -/
def equalFilter : ArgFilter := ⟨.equal, Vector.replicate 256 0, 0, 5⟩

/-- The state in which the filter is reached. -/
def filterReached (f : ArgFilter) (value : u64) : Option LoopState :=
  (interpreter (filteredEnv f value) filteredPacked.opKeyList).run filteredStart
    (codesOf (filteredArg.opsBefore 0))

/-- `gt:5` turns the value 6 down. -/
theorem greater_not_meant :
    addValueFilter "gt:5".toList = some greaterFilter ∧
      (execSteps (filteredEnv greaterFilter 6) (codesOf filteredArg.wordOps)
        filteredStart.opState).1 = [.word 6] ∧ greaterFilter.Accepts 6 ∧
      ∃ mid, filterReached greaterFilter 6 = some mid ∧
        (readArgsLoop (filteredEnv greaterFilter 6) filteredPacked.opKeyList 1 mid).1 =
          .blacklisted := by
  have hreached : (filterReached greaterFilter 6).map (fun mid =>
      (readArgsLoop (filteredEnv greaterFilter 6) filteredPacked.opKeyList 1 mid).1) =
        some .blacklisted := by decide +kernel
  obtain ⟨mid, hmid, hend⟩ := Option.map_eq_some_iff.mp hreached
  have haccepts : greaterFilter.Accepts 6 := show (5 : u64) < 6 by decide
  exact ⟨by decide +kernel, by decide +kernel, haccepts, mid, hmid, hend⟩

/-- `eq:5` does what is documented with the value 6. -/
theorem equal_meant : ∃ mid, filterReached equalFilter 6 = some mid ∧
    (execSteps (filteredEnv equalFilter 6) (codesOf filteredArg.wordOps)
      filteredStart.opState).1 = [.word (filteredArg.savedValue (filteredEnv equalFilter 6) none)] ∧
    ((readArgsLoop (filteredEnv equalFilter 6) filteredPacked.opKeyList 1 mid).1 ≠ .blacklisted ↔
      equalFilter.Accepts (filteredArg.savedValue (filteredEnv equalFilter 6) none)) := by
  have hword := (keysAt_append (show KeysAt (filteredEnv equalFilter 6) filteredPacked.opKeyList 0
    ((filteredArg.opsBefore 0).map NamedOp.toOpConfig ++ _) from
      filteredEnv_keysAt equalFilter 6)).1
  have hat : filteredStart.AtOp 0 := ⟨rfl, rfl⟩
  obtain ⟨mid, hrun, -⟩ := run_runsOn (by decide) hat hword (by decide) (by decide) rfl
  have hmid : filterReached equalFilter 6 = some mid := by
    unfold filterReached codesOf
    rwa [List.flatMap_map] at hrun
  have hadd : addValueFilter "eq:5".toList = some equalFilter := by decide +kernel
  have hsource : filteredArg.ReadFrom none := ⟨rfl, by decide⟩
  obtain ⟨hsaved, hpasses⟩ := valueFilter_passes_iff (by decide) rfl rfl rfl (by decide) hsource
    (filteredEnv_keysAt equalFilter 6) ⟨rfl, rfl⟩ rfl (j := 0) rfl hadd
    (lookup_withFilter (flatEnv filteredTable 6) equalFilter) hmid
  exact ⟨mid, hmid, hsaved, hpasses.mpr (Or.inl rfl)⟩

end Stackplz
