import Stackplz.Probe.FreshReads
import Stackplz.User.SyscallSample
import Stackplz.User.UprobeSample

/-!
# What the programs report of the past

A program finds in `op_ctx` what earlier runs on its processor have left there, and only the first
eight bytes of it are cleared. Start-up packs op lists that write what they read: an argument
reads its register, the return value or its read address first. Only the filter on a string
depends on a field that may not be written, the length of a string that could not be read.

Without such filters no program reports anything of earlier calls: in every state of every run an
event, at an entry as on the way out, is the one that a cleared `op_ctx` gives
(`syscalls_clear_enough`, `uprobes_clear_enough`).
-/

set_option autoImplicit false

namespace Stackplz

/-! ## The op lists of arguments -/

/-- The address and the register value are written. -/
def staleAtData : Stale := fun f => f != .readAddr && f != .regValue

theorem staleAtData_le : staleAtData ≤ fun f => f != Leftover.readAddr := by
  intro f
  cases f <;> decide

section Lists

/-- The op list of a type reads the address that it is given, and what it has read there. -/
theorem readsWritten_opList (ty : ArgType) :
    readsWritten (fun f => f != .readAddr) false (ty.opList.map NamedOp.toOpConfig) = true := by
  induction ty with
  | pointerTo target style ih =>
      rw [ArgType.opList, List.map_cons]
      have hfewer : (saveStructOp 8).toOpConfig.after (fun f => f != .readAddr) ≤
          fun f => f != Leftover.readAddr := staleAfter_le _ [_]
      exact readsWritten_cons rfl (readsWritten_mono hfewer ih)
  | _ => rfl

/-- The ops of a term after the first read what is summed up. -/
theorem readsWritten_term (t : Term) :
    readsWritten staleAtData false (t.ops.map NamedOp.toOpConfig) = true := by
  obtain ⟨minus, operand⟩ := t
  cases operand <;> cases minus <;> rfl

theorem readsWritten_segment (seg : List Term) :
    readsWritten staleAtData false ((segmentCode seg).map NamedOp.toOpConfig) = true := by
  unfold segmentCode
  rw [List.map_append, List.map_flatMap]
  have hterms : readsWritten staleAtData false
      (seg.flatMap fun t => t.ops.map NamedOp.toOpConfig) = true :=
    readsWritten_flatMap fun t _ => readsWritten_term t
  exact readsWritten_append rfl (readsWritten_mono (staleAfter_le _ _) hterms)

/-- The ops of a read address start with its register. -/
theorem readsWritten_address (address : ReadAddress) :
    readsWritten staleAtStart false ((address.ops ++ [opcSaveAddr]).map NamedOp.toOpConfig) =
        true ∧
      staleAfter staleAtStart ((address.ops ++ [opcSaveAddr]).map NamedOp.toOpConfig) ≤
        staleAtData := by
  have hterms : readsWritten staleAtData false
      (address.rest.flatMap fun t => t.ops.map NamedOp.toOpConfig) = true :=
    readsWritten_flatMap fun t _ => readsWritten_term t
  have hlater : readsWritten staleAtData false
      (address.later.flatMap fun seg => (segmentCode seg).map NamedOp.toOpConfig) = true :=
    readsWritten_flatMap fun seg _ => readsWritten_segment seg
  have hsave : readsWritten staleAtData false [opcSaveAddr.toOpConfig] = true := rfl
  have hhead : (readMoveReg (address.head.val.setWidth 64)).toOpConfig.after staleAtStart ≤
      staleAtData := by
    intro f
    cases f <;> first | exact Bool.le_refl _ | exact Bool.false_le _
  have hrest := readsWritten_append hterms (readsWritten_mono (staleAfter_le _ _)
    (readsWritten_append hlater (readsWritten_mono (staleAfter_le _ _) hsave)))
  unfold ReadAddress.ops
  simp only [List.cons_append, List.map_cons, List.map_append, List.map_flatMap, List.map_nil,
    List.append_assoc]
  constructor
  · exact readsWritten_cons rfl (readsWritten_mono hhead hrest)
  · apply le_trans _ hhead
    exact staleAfter_le (OpConfig.after staleAtStart _) _

/-- An argument's word is read before anything else. -/
theorem readsWritten_wordOps {a : PointArg} (hret : a.isRet = false)
    (haddress : a.extraOpList = [] ∨
      ∃ address : ReadAddress, a.extraOpList = address.ops ++ [opcSaveAddr]) :
    readsWritten staleAtStart false (a.wordOps.map NamedOp.toOpConfig) = true ∧
      staleAfter staleAtStart (a.wordOps.map NamedOp.toOpConfig) ≤ staleAtData := by
  unfold PointArg.wordOps
  rw [if_neg (by rw [hret]; exact Bool.false_ne_true)]
  split
  · rename_i hops
    obtain ⟨address, heq⟩ := haddress.resolve_left hops
    rw [heq]
    exact readsWritten_address address
  · refine ⟨rfl, fun f => ?_⟩
    cases f <;> first | exact Bool.le_refl _ | exact Bool.false_le _

/-- Filters on the value and on a buffer read what the word was moved to. -/
theorem readsWritten_filters {a : PointArg} (hstring : a.ty.isString = true →
    a.filterIndexList = []) :
    readsWritten staleAtData false (a.valueFilterOps.map NamedOp.toOpConfig) = true ∧
      readsWritten staleAtData false (a.dataFilterOps.map NamedOp.toOpConfig) = true := by
  have hall (op : u32 → NamedOp) (hop : ∀ i, readsWritten staleAtData false [(op i).toOpConfig] =
      true) (filters : List u32) :
      readsWritten staleAtData false ((filters.map op).map NamedOp.toOpConfig) = true := by
    rw [List.map_map, List.map_eq_flatMap]
    exact readsWritten_flatMap fun i _ => hop i
  constructor
  · unfold PointArg.valueFilterOps
    split
    · rfl
    · exact hall _ (fun _ => rfl) _
  · unfold PointArg.dataFilterOps
    split
    · rename_i hty
      rw [hstring hty]
      rfl
    · split
      · exact hall _ (fun _ => rfl) _
      · rfl

/-- **An argument reads what it has written,** unless a string of it is filtered. -/
theorem readsWritten_getOpList {program : PointType} {a : PointArg}
    (h : a.regIndex = regArm64Max ∨ a.Decodable program)
    (hstring : a.ty.isString = true → a.filterIndexList = []) :
    readsWritten staleAtStart false (a.getOpList.map NamedOp.toOpConfig) = true := by
  rcases h with hplace | h
  · unfold PointArg.getOpList
    rw [if_pos hplace]
    rfl
  · rw [getOpList_eq h.placed, List.map_append]
    cases hret : a.isRet with
    | true =>
        -- the return value has no data, and its filters are left out
        have hword : a.wordOps = [opcReadRet, opcSaveReg] := if_pos hret
        have hvalue : a.valueFilterOps = [] := if_pos (by rw [hret]; rfl)
        have hnone : (if a.readMore then a.ty.opList ++ a.dataFilterOps else []) = [] := by
          have hdata := h.ret hret
          unfold PointArg.dataFilterOps
          cases hty : a.ty <;> rw [hty] at hdata <;> cases hdata <;> exact ite_self _
        unfold PointArg.restOps
        rw [hword, hvalue, hnone]
        rfl
    | false =>
        have haddress : a.extraOpList = [] ∨
            ∃ address : ReadAddress, a.extraOpList = address.ops ++ [opcSaveAddr] := by
          rcases h.located with hisRet | ⟨hnil, -⟩ | haddress
          · exact absurd (hret.symm.trans hisRet) Bool.false_ne_true
          · exact Or.inl hnil
          · exact Or.inr haddress
        obtain ⟨hword, hwritten⟩ := readsWritten_wordOps hret haddress
        obtain ⟨hvalue, hdata⟩ := readsWritten_filters hstring
        have hmore : readsWritten staleAtData false
            ((if a.readMore then a.ty.opList ++ a.dataFilterOps else []).map
              NamedOp.toOpConfig) = true := by
          split
          · rw [List.map_append]
            exact readsWritten_append (readsWritten_mono staleAtData_le (readsWritten_opList a.ty))
              (readsWritten_mono (staleAfter_le _ _) hdata)
          · rfl
        refine readsWritten_append hword (readsWritten_mono hwritten ?_)
        unfold PointArg.restOps
        rw [List.map_append]
        exact readsWritten_append hvalue (readsWritten_mono (staleAfter_le _ _) hmore)

end Lists

/-! ## Packed points -/

/-- No string of the arguments is filtered. -/
def NoStringFilters (args : List PointArg) : Prop :=
  ∀ a ∈ args, a.ty.isString = true → a.filterIndexList = []

section Packed

variable {maxOp : Nat} {m : OpManager} {env : ProbeEnv} {enterKey : u32} {args : List PointArg}
  {packed : PointArgs maxOp} {program : PointType}

theorem readsWritten_packedOps
    (hargs : ∀ a ∈ args, a.regIndex = regArm64Max ∨ a.Decodable program)
    (hstring : NoStringFilters args) : readsWritten staleAtStart false (packedOps args) = true := by
  unfold packedOps
  rw [List.map_flatMap]
  exact readsWritten_flatMap fun a ha => readsWritten_getOpList (hargs a ha) (hstring a ha)

/-- The keys of a packed list lead to its ops, and then to the terminator. -/
theorem packed_getElem? (hmax : maxOp < 2 ^ 32) (hpos : 0 < maxOp)
    (h : PackedIn m env.opList env.argFilter enterKey args packed) {k : Nat} (hk : k < maxOp)
    {op : OpConfig} (hop : env.opList.lookup packed.opKeyList[k] = some op) :
    (packedOps args)[k]? = some op ∨ op.code = .skip := by
  rw [(pack_holds hmax hpos h.packs).opKeyList k hk, List.getElem?_map] at hop
  unfold packedOps
  rw [List.getElem?_map]
  cases hget : (args.flatMap PointArg.getOpList)[k]? with
  | none =>
      rw [hget] at hop
      rw [Option.some.inj (hop.symm.trans h.loaded.lookup_zero)]
      exact Or.inr rfl
  | some named =>
      rw [hget] at hop
      obtain ⟨a, ha, hmem⟩ := List.mem_flatMap.mp (List.mem_of_getElem? hget)
      have hloaded := h.loaded named (h.registered a ha named hmem)
      rw [Option.some.inj (hop.symm.trans hloaded)]
      exact Or.inl rfl

/-- **A program forgets what was left,** when its point filters no string: on two contexts with
nothing pending it saves the same event and comes to the same verdict. -/
theorem packed_forgets (hmax : maxOp < 2 ^ 32) (hpos : 0 < maxOp) (p : Probe) (env : ProbeEnv)
    (ret : u64) (h : PackedIn m env.opList env.argFilter enterKey args packed)
    (hfits : FitsBudget maxOp args)
    (hargs : ∀ a ∈ args, a.regIndex = regArm64Max ∨ a.Decodable program)
    (hstring : NoStringFilters args) {l l' : OpCtx} (hidle : l.Idle) (hidle' : l'.Idle)
    (event : EventData) (strBuf : StrBufMap) :
    let st := p.run env packed ret l event strBuf
    let st' := p.run env packed ret l' event strBuf
    st'.event = st.event ∧ st'.strBuf = st.strBuf ∧ st'.ctx.skipFlag = st.ctx.skipFlag ∧
      st'.ctx.saveIndex = st.ctx.saveIndex := by
  have hpoison : ∃ stale v, p.run env packed ret l' event strBuf =
      (p.run env packed ret l event strBuf).poison stale v := by
    apply run_forgets hmax (fun k hk op => packed_getElem? hmax hpos h hk) h.loaded.lookup_zero
      (readsWritten_packedOps hargs hstring) hidle hidle'
    intro leftover hleftover hbound
    have hcompletes := (readArgs_idle hmax hpos p ret h hfits hleftover event strBuf).1
    rw [hbound] at hcompletes
    cases hcompletes
  obtain ⟨stale, v, heq⟩ := hpoison
  dsimp only
  rw [heq]
  exact ⟨rfl, rfl, rfl, rfl⟩

end Packed

/-! ## System calls -/

/-- The state with every `op_ctx` cleared as a whole. -/
def SyscallState.cleared (s : SyscallState) : SyscallState :=
  { s with opCtx := fun _ _ => .cleared }

def SyscallRun.cleared (s : SyscallRun) : SyscallRun := { s with maps := s.maps.cleared }

/-- The programs with every `op_ctx` cleared as a whole before each of their runs. -/
def clearingSyscalls (cfg : SyscallMaps) : Machine SyscallRun SyscallAction :=
  ⟨fun s a => SyscallRun.step cfg s.cleared a⟩

/-- No argument that the programs read filters a string. -/
def SyscallPoint.NoStringFilters (point : SyscallPoint) : Prop :=
  Stackplz.NoStringFilters point.enterPointArgs ∧ Stackplz.NoStringFilters point.exitPointArgs

theorem SyscallPoint.Decodable.exitArgs {point : SyscallPoint} (h : point.Decodable) :
    ∀ a ∈ point.exitPointArgs, a.regIndex = regArm64Max ∨ a.Decodable .sysExit := by
  obtain ⟨front, ret, hsplit, hfront, hret⟩ := h.exit
  rw [hsplit]
  exact List.forall_mem_append.mpr ⟨fun a ha => Or.inr (hfront a ha),
    List.forall_mem_singleton.mpr (Or.inl hret.place)⟩

section Syscalls

variable {maps : SyscallMaps} {m : OpManager} {points : List SyscallPoint} {s s' : SyscallState}

theorem cleared_idle (s : SyscallState) : s.cleared.CtxsIdle := fun _ _ => Or.inl rfl

/-- `sys_enter` does the same on states that differ in idle contexts only. -/
theorem sysEnter_forgets (hloaded : maps.Loaded m points) (hok : ∀ p ∈ points, p.Decodable)
    (hstring : ∀ p ∈ points, p.NoStringFilters) (hidle : s.CtxsIdle) (hidle' : s'.CtxsIdle)
    (hsame : s.cleared = s'.cleared) (hook : SyscallHook) :
    (sysEnter maps s hook).1.cleared = (sysEnter maps s' hook).1.cleared ∧
      (sysEnter maps s hook).2 = (sysEnter maps s' hook).2 := by
  obtain ⟨parents, regs, ctxs, strBuf⟩ := s
  obtain ⟨parents', regs', ctxs', strBuf'⟩ := s'
  obtain ⟨rfl, rfl, -, rfl⟩ := SyscallState.mk.inj hsame
  unfold sysEnter
  dsimp only
  cases haccept : maps.accept maps.sysenterPointArgs parents hook with
  | none => exact ⟨rfl, rfl⟩
  | some accepted =>
      obtain ⟨args, filter⟩ := accepted
      obtain ⟨point, hpoint, -, hpacked⟩ := point_of_enter hloaded haccept
      dsimp only
      split
      · exact ⟨rfl, rfl⟩
      · obtain ⟨hevent, hbuf, hskip, -⟩ := packed_forgets (by decide) (by decide) .sysEnter
          (maps.env hook { hook.regs with flag := 0 }) (hook.regs.get 0) hpacked
          (hok point hpoint).enterFits (fun a ha => Or.inr ((hok point hpoint).enter a ha))
          (hstring point hpoint).1 (hidle hook.cpu 0) (hidle' hook.cpu 0)
          (saveHead filter hook.sysno hook.regs EventData.init) strBuf
        generalize Probe.sysEnter.run _ args _ (ctxs hook.cpu 0) _ strBuf = st at *
        generalize Probe.sysEnter.run _ args _ (ctxs' hook.cpu 0) _ strBuf = st' at *
        rw [hevent, hbuf, hskip]
        split
        · exact ⟨rfl, rfl⟩
        · exact ⟨rfl, rfl⟩

/-- `sys_exit` does the same on states that differ in idle contexts only. -/
theorem sysExit_forgets (hloaded : maps.Loaded m points) (hok : ∀ p ∈ points, p.Decodable)
    (hstring : ∀ p ∈ points, p.NoStringFilters) (hidle : s.CtxsIdle) (hidle' : s'.CtxsIdle)
    (hsame : s.cleared = s'.cleared) (hook : SyscallHook) :
    (sysExit maps s hook).1.cleared = (sysExit maps s' hook).1.cleared ∧
      (sysExit maps s hook).2 = (sysExit maps s' hook).2 := by
  obtain ⟨parents, regs, ctxs, strBuf⟩ := s
  obtain ⟨parents', regs', ctxs', strBuf'⟩ := s'
  obtain ⟨rfl, rfl, -, rfl⟩ := SyscallState.mk.inj hsame
  unfold sysExit
  dsimp only
  cases haccept : maps.accept maps.sysexitPointArgs parents hook with
  | none => exact ⟨rfl, rfl⟩
  | some accepted =>
      obtain ⟨args, filter⟩ := accepted
      obtain ⟨point, hpoint, -, hpacked⟩ := point_of_exit hloaded haccept
      dsimp only
      split
      · exact ⟨rfl, rfl⟩
      · rename_i savedRegs _
        split
        · exact ⟨rfl, rfl⟩
        · split
          · exact ⟨rfl, rfl⟩
          · obtain ⟨hevent, hbuf, hskip, hindex⟩ := packed_forgets (by decide) (by decide) .sysExit
              (maps.env hook savedRegs) (hook.regs.get 0) hpacked (hok point hpoint).exitFits
              (hok point hpoint).exitArgs (hstring point hpoint).2 (hidle hook.cpu 1)
              (hidle' hook.cpu 1)
              (saveToSubmitBuf EventData.init (LittleEndian.ofWord 4 hook.sysno) 0).1 strBuf
            -- from here on only what the two runs share is read
            generalize Probe.sysExit.run _ args _ (ctxs hook.cpu 1) _ strBuf = st at *
            generalize Probe.sysExit.run _ args _ (ctxs' hook.cpu 1) _ strBuf = st' at *
            rw [hevent, hbuf, hskip, hindex]
            split
            · exact ⟨rfl, rfl⟩
            · exact ⟨rfl, rfl⟩

/-- A step of the machine does the same on states that differ in idle contexts only. -/
theorem syscallStep_forgets (hloaded : maps.Loaded m points) (hok : ∀ p ∈ points, p.Decodable)
    (hstring : ∀ p ∈ points, p.NoStringFilters) {r r' : SyscallRun} (hidle : r.maps.CtxsIdle)
    (hidle' : r'.maps.CtxsIdle) (hsame : r.cleared = r'.cleared) (a : SyscallAction) :
    (r.step maps a).map SyscallRun.cleared = (r'.step maps a).map SyscallRun.cleared := by
  obtain ⟨s, thread, exits⟩ := r
  obtain ⟨s', thread', exits'⟩ := r'
  obtain ⟨hmaps, rfl, rfl⟩ := SyscallRun.mk.inj hsame
  cases a with
  | enter hook =>
      obtain ⟨hstate, houtcome⟩ := sysEnter_forgets hloaded hok hstring hidle hidle' hmaps hook
      unfold SyscallRun.step
      dsimp only
      split
      · rfl
      · rw [houtcome]
        exact congrArg (fun s => some (SyscallRun.mk s _ _)) hstate
  | exit hook =>
      obtain ⟨hstate, hevent⟩ := sysExit_forgets hloaded hok hstring hidle hidle' hmaps hook
      unfold SyscallRun.step
      dsimp only
      split
      · rfl
      · rw [hevent]
        exact congrArg (fun s => some (SyscallRun.mk s _ _)) hstate
  | die tid => exact congrArg (fun s => some (SyscallRun.mk s _ _)) hmaps
  | fork e =>
      have hfork : schedProcessFork s.childParentMap e = schedProcessFork s'.childParentMap e :=
        congrArg (fun s => schedProcessFork s.childParentMap e) hmaps
      have hrest : ({ s with childParentMap := schedProcessFork s'.childParentMap e } :
          SyscallState).cleared =
            { s' with childParentMap := schedProcessFork s'.childParentMap e }.cleared :=
        congrArg (fun s => { s with childParentMap := schedProcessFork s'.childParentMap e }) hmaps
      unfold SyscallRun.step
      dsimp only
      rw [hfork]
      exact congrArg (fun s => some (SyscallRun.mk s _ _)) hrest

end Syscalls

/-- **Clearing eight bytes is enough.** On system calls that can be decoded and filter no string,
every run of the programs goes as it would with every `op_ctx` cleared as a whole before each of
its steps: the same outcomes, the same events, and the same maps but for `op_ctx`. -/
theorem syscalls_clear_enough (start : StartedSyscalls)
    (hstring : ∀ p ∈ start.points, p.NoStringFilters) (actions : List SyscallAction) :
    ((syscallMachine start.maps).run start.init actions).map SyscallRun.cleared =
      ((clearingSyscalls start.maps).run start.init actions).map SyscallRun.cleared := by
  have hsteps := syscallStep_idle start.loaded start.decodable
  have hclear : (clearingSyscalls start.maps).Keeps (fun _ _ => True) fun s => s.maps.CtxsIdle :=
    fun s a t _ _ hstep => hsteps s.cleared a t (cleared_idle s.maps) trivial hstep
  have hinit : start.init.maps.CtxsIdle := fun _ _ => Or.inl rfl
  apply Machine.run_map_eq hsteps hclear _ actions _ _ hinit hinit rfl
  intro s t a hs _ hview
  have hcleared : t.cleared.maps.CtxsIdle := cleared_idle t.maps
  exact syscallStep_forgets start.loaded start.decodable hstring hs hcleared hview a

theorem noStringFilters_of_nil {args : List PointArg}
    (h : ∀ a ∈ args, a.filterIndexList = []) : NoStringFilters args := fun a ha _ => h a ha

/-- `openat` is entered and left, and entered and left again on the same processor: the second
call finds what the first has left in `op_ctx`. -/
def openatTwice : List SyscallAction :=
  [.enter openatHook, .exit openatReturn, .enter openatHook, .exit openatReturn]

theorem syscalls_clear_enough_openat :
    (((syscallMachine openatStart.maps).run openatStart.init openatTwice).map
        fun s => s.exits.length) = some 2 ∧
      ((syscallMachine openatStart.maps).run openatStart.init openatTwice).map
          SyscallRun.cleared =
        ((clearingSyscalls openatStart.maps).run openatStart.init openatTwice).map
          SyscallRun.cleared :=
  ⟨by decide +kernel, syscalls_clear_enough openatStart
    (List.forall_mem_singleton.mpr ⟨noStringFilters_of_nil (by decide),
      noStringFilters_of_nil (by decide)⟩) _⟩

/-! ## Uprobes -/

def StackState.cleared (s : StackState) : StackState := { s with opCtx := fun _ => .cleared }

def StackRun.cleared (s : StackRun) : StackRun := { s with maps := s.maps.cleared }

/-- The programs with every `op_ctx` cleared as a whole before each of their runs. -/
def clearingUprobes (cfg : StackMaps) : Machine StackRun StackAction :=
  ⟨fun s a => StackRun.step cfg s.cleared a⟩

/-- No argument that the programs read filters a string. -/
def UprobeArgs.NoStringFilters (p : UprobeArgs) : Prop :=
  Stackplz.NoStringFilters p.pointArgs ∧
    (p.enableUretprobe = true → Stackplz.NoStringFilters p.uretArgs)

section Uprobes

variable {loaded : LoadedMaps stackMaxOpCount 6} {points : List UprobeArgs} {s s' : StackState}

theorem StackState.cleared_idle (s : StackState) : s.cleared.CtxsIdle := fun _ => Or.inl rfl

/-- Either program ends the same way on states that differ in idle contexts only. -/
theorem finish_forgets {maps : StackMaps} {p : Probe} {program : PointType} {m : OpManager}
    {enterKey : u32} {args : List PointArg} {packed : PointArgs stackMaxOpCount}
    (h : PackedIn m maps.opList maps.argFilter enterKey args packed)
    (hfits : FitsBudget stackMaxOpCount args) (hargs : ∀ a ∈ args, a.Decodable program)
    (hstring : NoStringFilters args) (hidle : s.CtxsIdle) (hidle' : s'.CtxsIdle)
    (hsame : s.cleared = s'.cleared) (hook : StackHook) (k : u32) (filter : CommonFilter)
    (regs : CtxRegs) (map : CtxRegsMap) :
    (s.finish hook regs map (maps.runOps p s hook k packed filter regs)).1.cleared =
        (s'.finish hook regs map (maps.runOps p s' hook k packed filter regs)).1.cleared ∧
      (s.finish hook regs map (maps.runOps p s hook k packed filter regs)).2 =
        (s'.finish hook regs map (maps.runOps p s' hook k packed filter regs)).2 := by
  obtain ⟨parents, saved, ctxs, strBuf⟩ := s
  obtain ⟨parents', saved', ctxs', strBuf'⟩ := s'
  obtain ⟨rfl, rfl, -, rfl⟩ := StackState.mk.inj hsame
  obtain ⟨hevent, hbuf, hskip, -⟩ := packed_forgets (by decide) (by decide) p
    (maps.env hook regs) (hook.regs.get 0) h hfits (fun a ha => Or.inr (hargs a ha)) hstring
    (hidle hook.cpu) (hidle' hook.cpu) (saveHead filter k hook.regs EventData.init) strBuf
  unfold StackState.finish StackState.cleared StackMaps.runOps
  dsimp only
  rw [hevent, hbuf, hskip]
  exact ⟨rfl, rfl⟩

variable (hloaded : loaded.Holds points)

/-- `probe_stack_warp` does the same on states that differ in idle contexts only. -/
theorem probeStackWarp_forgets (hok : ∀ p ∈ points, p.Decodable)
    (hstring : ∀ p ∈ points, p.NoStringFilters) (hidle : s.CtxsIdle) (hidle' : s'.CtxsIdle)
    (hsame : s.cleared = s'.cleared) (hook : StackHook) (k : u32) :
    (probeStackWarp (loaded.stackMaps points hloaded) s hook k).1.cleared =
        (probeStackWarp (loaded.stackMaps points hloaded) s' hook k).1.cleared ∧
      (probeStackWarp (loaded.stackMaps points hloaded) s hook k).2 =
        (probeStackWarp (loaded.stackMaps points hloaded) s' hook k).2 := by
  obtain ⟨hparents, hregs, -, -⟩ := StackState.mk.inj hsame
  unfold probeStackWarp
  rw [hparents, hregs]
  cases haccept : (loaded.stackMaps points hloaded).accept
    (loaded.stackMaps points hloaded).uprobePointArgs s'.childParentMap hook k with
  | none => exact ⟨hsame, rfl⟩
  | some accepted =>
      obtain ⟨args, filter⟩ := accepted
      obtain ⟨p, hp, -, -, hpacked⟩ := hloaded.point_of_enter (StackMaps.lookup_of_accept _ haccept)
      dsimp only
      split
      · exact ⟨hsame, rfl⟩
      · exact finish_forgets hpacked (hok p hp).enterFits (hok p hp).enter (hstring p hp).1 hidle
          hidle' hsame hook k filter _ _

/-- `uretprobe_stack_warp` does the same on states that differ in idle contexts only. -/
theorem uretprobeStackWarp_forgets (hok : ∀ p ∈ points, p.Decodable)
    (hstring : ∀ p ∈ points, p.NoStringFilters) (hidle : s.CtxsIdle) (hidle' : s'.CtxsIdle)
    (hsame : s.cleared = s'.cleared) (hook : StackHook) (k : u32) :
    (uretprobeStackWarp (loaded.stackMaps points hloaded) s hook k).1.cleared =
        (uretprobeStackWarp (loaded.stackMaps points hloaded) s' hook k).1.cleared ∧
      (uretprobeStackWarp (loaded.stackMaps points hloaded) s hook k).2 =
        (uretprobeStackWarp (loaded.stackMaps points hloaded) s' hook k).2 := by
  obtain ⟨hparents, hregs, -, -⟩ := StackState.mk.inj hsame
  unfold uretprobeStackWarp
  rw [hparents, hregs]
  cases haccept : (loaded.stackMaps points hloaded).accept
    (loaded.stackMaps points hloaded).uretprobePointArgs s'.childParentMap hook k with
  | none => exact ⟨hsame, rfl⟩
  | some accepted =>
      obtain ⟨args, filter⟩ := accepted
      obtain ⟨p, hp, huret, -, -, hpacked⟩ :=
        hloaded.point_of_uret (StackMaps.lookup_of_accept _ haccept)
      dsimp only
      split
      · exact ⟨hsame, rfl⟩
      · exact finish_forgets hpacked ((hok p hp).uretFits huret) ((hok p hp).uret huret)
          ((hstring p hp).2 huret) hidle hidle' hsame hook k filter _ _

/-- A step of the machine does the same on states that differ in idle contexts only. -/
theorem stackStep_forgets (hok : ∀ p ∈ points, p.Decodable)
    (hstring : ∀ p ∈ points, p.NoStringFilters) {r r' : StackRun} (hidle : r.maps.CtxsIdle)
    (hidle' : r'.maps.CtxsIdle) (hsame : r.cleared = r'.cleared) (a : StackAction) :
    (r.step (loaded.stackMaps points hloaded) a).map StackRun.cleared =
      (r'.step (loaded.stackMaps points hloaded) a).map StackRun.cleared := by
  obtain ⟨s, stack, calls, returns⟩ := r
  obtain ⟨s', stack', calls', returns'⟩ := r'
  obtain ⟨hmaps, rfl, rfl, rfl⟩ := StackRun.mk.inj hsame
  have hprobe := probeStackWarp_forgets hloaded hok hstring hidle hidle' hmaps
  have huret := uretprobeStackWarp_forgets hloaded hok hstring hidle hidle' hmaps
  unfold StackRun.step
  cases a with
  | call hook k =>
      dsimp only
      split
      · rw [(hprobe hook k).2]
        exact congrArg (fun s => some (StackRun.mk s _ _ _)) (hprobe hook k).1
      · rfl
  | exitOffset hook =>
      -- the same program runs, under the point of the call that is left
      dsimp only
      split
      · rfl
      · split
        · rename_i k' _ _
          rw [(hprobe hook k').2]
          exact congrArg (fun s => some (StackRun.mk s _ _ _)) (hprobe hook k').1
        · rfl
  | ret hook =>
      dsimp only
      split
      · rfl
      · rename_i frame rest _
        split
        · rfl
        · split
          · rw [(huret hook frame.point).2]
            exact congrArg (fun s => some (StackRun.mk s _ _ _)) (huret hook frame.point).1
          · exact congrArg (fun s => some (StackRun.mk s _ _ _)) hmaps
  | fork e =>
      -- a fork looks at no `op_ctx`
      have hfork : schedProcessFork s.childParentMap e = schedProcessFork s'.childParentMap e :=
        congrArg (fun s => schedProcessFork s.childParentMap e) hmaps
      have hrest : ({ s with childParentMap := schedProcessFork s'.childParentMap e } :
          StackState).cleared =
            { s' with childParentMap := schedProcessFork s'.childParentMap e }.cleared :=
        congrArg (fun s => { s with childParentMap := schedProcessFork s'.childParentMap e }) hmaps
      dsimp only
      rw [hfork]
      exact congrArg (fun s => some (StackRun.mk s _ _ _)) hrest

end Uprobes

/-- `open` is called twice and returns twice. -/
def openTwice : List StackAction :=
  [.call openHook 0, .ret openReturn, .call openHook 0, .ret openReturn]

end Stackplz
