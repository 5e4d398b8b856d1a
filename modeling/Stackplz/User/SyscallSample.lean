import Stackplz.User.PointRun
import Stackplz.User.Startup

/-!
# System call events, from start-up to the decoder

The system call programs and the decoder share the points: start-up packs their arguments for the
programs, and `ParseContext` reads a sample by the same list. Over every run of the machine of
`Syscall`:

* `syscallRun_idle` — no run of a program leaves an op pending in any `op_ctx`;
* `sysEnter_readBack`, `sysExit_readBack` — an event that either program submits in a state of
  the run is parsed into the number of the call and the words of its arguments, with the data
  behind them.
-/

set_option autoImplicit false

namespace Stackplz

/-! ## What the programs submit -/

/-- The event that `sys_enter` submits. -/
def SyscallMaps.enterEvent (maps : SyscallMaps) (s : SyscallState) (hook : SyscallHook) :
    Option EventData :=
  (maps.accept maps.sysenterPointArgs s.childParentMap hook).bind fun accepted =>
    if !maps.acceptSysno accepted.2 hook.sysno then none
    else
      let st := Probe.sysEnter.run (maps.env hook hook.saved) accepted.1 (hook.regs.get 0)
        (s.enterCtx hook.cpu) (saveHead accepted.2 hook.sysno hook.regs EventData.init) s.strBuf
      if st.ctx.skipFlag then none else some st.event

/-- The event that `sys_exit` submits, with the registers its arguments were evaluated on. -/
def SyscallMaps.exitEvent (maps : SyscallMaps) (s : SyscallState) (hook : SyscallHook) :
    Option (CtxRegs × EventData) :=
  (maps.accept maps.sysexitPointArgs s.childParentMap hook).bind fun accepted =>
    (loadRegs s.ctxRegsMap syscallEnter hook.task.hostTid).bind fun savedRegs =>
      if savedRegs.flag = 1 then none
      else if !maps.acceptSysno accepted.2 hook.sysno then none
      else
        let event := (saveToSubmitBuf EventData.init (LittleEndian.ofWord 4 hook.sysno) 0).1
        let st := Probe.sysExit.run (maps.env hook savedRegs) accepted.1 (hook.regs.get 0)
          (s.exitCtx hook.cpu) event s.strBuf
        if st.ctx.skipFlag then none
        else
          some (savedRegs, (saveToSubmitBuf st.event
            (LittleEndian.ofWord 8 (hook.regs.get 0)) st.ctx.saveIndex).1)

section Events

variable {maps : SyscallMaps} {s : SyscallState} {hook : SyscallHook}

/-- The bytes of `sys_enter` are those of its event. -/
theorem sysEnter_submitted_iff {bytes : List u8} :
    (sysEnter maps s hook).2 = .submitted bytes ↔
      ∃ event, maps.enterEvent s hook = some event ∧ event.args = bytes := by
  unfold sysEnter SyscallMaps.enterEvent
  cases maps.accept maps.sysenterPointArgs s.childParentMap hook with
  | none => simp
  | some accepted =>
      obtain ⟨pointArgs, filter⟩ := accepted
      rw [Option.bind_some]
      dsimp only [SyscallHook.saved]
      split
      · simp
      · split
        · simp
        · simp

/-- The bytes of `sys_exit` are those of its event. -/
theorem sysExit_eq_some_iff {e : ExitEvent} :
    (sysExit maps s hook).2 = some e ↔
      ∃ event, maps.exitEvent s hook = some (e.savedRegs, event) ∧ event.args = e.bytes := by
  obtain ⟨regs, bytes⟩ := e
  unfold sysExit SyscallMaps.exitEvent
  cases maps.accept maps.sysexitPointArgs s.childParentMap hook with
  | none => simp
  | some accepted =>
      obtain ⟨pointArgs, filter⟩ := accepted
      cases loadRegs s.ctxRegsMap syscallEnter hook.task.hostTid with
      | none => simp
      | some savedRegs =>
          rw [Option.bind_some, Option.bind_some]
          dsimp only
          split
          · simp
          · split
            · simp
            · split
              · simp
              · simp

end Events

/-! ## Points that can be decoded -/

/-- A type without data behind its word. -/
def ArgType.IsWord : ArgType → Prop
  | .num _ _ | .pointer _ => True
  | _ => False

theorem ArgType.IsWord.spec {ty : ArgType} (h : ty.IsWord) :
    ty.hasData = false ∧ ∀ env w, ty.Readable env w := by
  cases ty with
  | num | pointer => exact ⟨rfl, fun _ _ => trivial⟩
  | _ => exact h.elim

/-- The return value of a system call, which the program saves itself. -/
structure PointArg.IsExitRet (a : PointArg) : Prop where
  place : a.regIndex = regArm64Max
  type : a.ty.IsWord

/-- A system call whose arguments can be decoded, on the entry and on the exit. -/
structure SyscallPoint.Decodable (point : SyscallPoint) : Prop where
  enter : ∀ a ∈ point.enterPointArgs, a.Decodable .sysEnter
  exit : ∃ front ret, point.exitPointArgs = front ++ [ret] ∧
    (∀ a ∈ front, a.Decodable .sysExit) ∧ ret.IsExitRet
  enterFits : FitsBudget syscallMaxOpCount point.enterPointArgs
  exitFits : FitsBudget syscallMaxOpCount point.exitPointArgs

/-! ## The contexts of the programs -/

/-- No op is pending on any processor. -/
def SyscallState.CtxsIdle (s : SyscallState) : Prop := ∀ cpu i, (s.opCtx cpu i).Idle

section Run

variable {maps : SyscallMaps} {m : OpManager} {points : List SyscallPoint} {s : SyscallState}
  {hook : SyscallHook}

theorem setOpCtx_idle (hidle : s.CtxsIdle) {cpu : Nat} {index : Fin 2} {ctx : OpCtx}
    (hctx : ctx.Idle) : ∀ c i, (s.setOpCtx cpu index ctx c i).Idle := by
  intro c i
  unfold SyscallState.setOpCtx
  split
  · exact hctx
  · exact hidle c i

theorem lookup_of_accept {pointArgs : BoundedMap u32 (PointArgs syscallMaxOpCount) 512}
    {childParentMap : ChildParentMap} {args : PointArgs syscallMaxOpCount} {filter : CommonFilter}
    (h : maps.accept pointArgs childParentMap hook = some (args, filter)) :
    pointArgs.lookup hook.sysno = some args ∧ maps.filter.commonFilter = some filter := by
  unfold SyscallMaps.accept at h
  split at h
  · cases h
  · split at h
    · cases h
    · obtain ⟨args', hlookup, hrest⟩ := Option.bind_eq_some_iff.mp h
      obtain ⟨filter', hfilter, heq⟩ := Option.bind_eq_some_iff.mp hrest
      obtain ⟨rfl, rfl⟩ := Prod.mk.inj (Option.some.inj heq)
      exact ⟨hlookup, hfilter⟩

/-- The point that an accepted `sys_enter` runs. -/
theorem point_of_enter (hloaded : maps.Loaded m points) {childParentMap : ChildParentMap}
    {args : PointArgs syscallMaxOpCount} {filter : CommonFilter}
    (h : maps.accept maps.sysenterPointArgs childParentMap hook = some (args, filter)) :
    ∃ point ∈ points, point.nr = hook.sysno ∧
      PackedIn m maps.opList maps.argFilter 0 point.enterPointArgs args := by
  obtain ⟨load, hmem, hkey, hpacked⟩ := hloaded.enter.packed _ _ (lookup_of_accept h).1
  obtain ⟨point, hpoint, rfl⟩ := List.mem_map.mp hmem
  exact ⟨point, hpoint, hkey, hpacked⟩

/-- The point that an accepted `sys_exit` runs. -/
theorem point_of_exit (hloaded : maps.Loaded m points) {childParentMap : ChildParentMap}
    {args : PointArgs syscallMaxOpCount} {filter : CommonFilter}
    (h : maps.accept maps.sysexitPointArgs childParentMap hook = some (args, filter)) :
    ∃ point ∈ points, point.nr = hook.sysno ∧
      PackedIn m maps.opList maps.argFilter 0 point.exitPointArgs args := by
  obtain ⟨load, hmem, hkey, hpacked⟩ := hloaded.exit.packed _ _ (lookup_of_accept h).1
  obtain ⟨point, hpoint, rfl⟩ := List.mem_map.mp hmem
  exact ⟨point, hpoint, hkey, hpacked⟩

/-- `sys_enter` leaves every context idle. -/
theorem sysEnter_idle (hloaded : maps.Loaded m points) (hok : ∀ p ∈ points, p.Decodable)
    (hidle : s.CtxsIdle) (hook : SyscallHook) : (sysEnter maps s hook).1.CtxsIdle := by
  unfold sysEnter
  cases haccept : maps.accept maps.sysenterPointArgs s.childParentMap hook with
  | none => exact hidle
  | some accepted =>
      obtain ⟨args, filter⟩ := accepted
      obtain ⟨point, hpoint, -, hpacked⟩ := point_of_enter hloaded haccept
      dsimp only
      split
      · exact hidle
      · have hrun : (Probe.sysEnter.run (maps.env hook hook.saved) args (hook.regs.get 0)
            (s.opCtx hook.cpu 0) (saveHead filter hook.sysno hook.regs EventData.init)
            s.strBuf).ctx.Idle :=
          run_idle (by decide) (by decide) _ _ hpacked (hok point hpoint).enterFits
            (hidle hook.cpu 0) _ _
        split
        · exact setOpCtx_idle hidle hrun
        · exact setOpCtx_idle hidle hrun

/-- `sys_exit` leaves every context idle. -/
theorem sysExit_idle (hloaded : maps.Loaded m points) (hok : ∀ p ∈ points, p.Decodable)
    (hidle : s.CtxsIdle) (hook : SyscallHook) : (sysExit maps s hook).1.CtxsIdle := by
  unfold sysExit
  cases haccept : maps.accept maps.sysexitPointArgs s.childParentMap hook with
  | none => exact hidle
  | some accepted =>
      obtain ⟨args, filter⟩ := accepted
      obtain ⟨point, hpoint, -, hpacked⟩ := point_of_exit hloaded haccept
      dsimp only
      split
      · exact hidle
      · rename_i savedRegs _
        split
        · exact hidle
        · split
          · exact hidle
          · have hrun : (Probe.sysExit.run (maps.env hook savedRegs) args (hook.regs.get 0)
                (s.opCtx hook.cpu 1)
                (saveToSubmitBuf EventData.init (LittleEndian.ofWord 4 hook.sysno) 0).1
                s.strBuf).ctx.Idle :=
              run_idle (by decide) (by decide) _ _ hpacked (hok point hpoint).exitFits
                (hidle hook.cpu 1) _ _
            split
            · exact setOpCtx_idle hidle hrun
            · exact setOpCtx_idle hidle hrun

/-- A step of the machine leaves every context idle. -/
theorem syscallStep_idle (hloaded : maps.Loaded m points) (hok : ∀ p ∈ points, p.Decodable) :
    (syscallMachine maps).Keeps (fun _ _ => True) fun s => s.maps.CtxsIdle := by
  intro s a t hidle _ hstep
  unfold syscallMachine SyscallRun.step at hstep
  dsimp only at hstep
  split at hstep
  · -- an entry
    split at hstep
    · cases hstep
    · obtain rfl := Option.some.inj hstep
      exact sysEnter_idle hloaded hok hidle _
  · -- an exit
    split at hstep
    · cases hstep
    · obtain rfl := Option.some.inj hstep
      exact sysExit_idle hloaded hok hidle _
  · -- a thread dies
    obtain rfl := Option.some.inj hstep
    exact hidle
  · -- a fork
    obtain rfl := Option.some.inj hstep
    exact hidle

/-- **No op is left pending.** In every state of every run no context has one. -/
theorem syscallRun_idle (hloaded : maps.Loaded m points) (hok : ∀ p ∈ points, p.Decodable)
    {start t : SyscallRun} (hstart : start.maps.CtxsIdle) {actions : List SyscallAction}
    (hrun : (syscallMachine maps).run start actions = some t) : t.maps.CtxsIdle :=
  Machine.run_invariant (syscallStep_idle hloaded hok) actions start t hstart
    (Machine.guarded_true _ actions start) hrun

end Run

/-! ## Reading the events -/

section ReadBack

variable {maps : SyscallMaps} {m : OpManager} {points : List SyscallPoint} {s : SyscallState}
  {hook : SyscallHook} {event : EventData}

/-- The decoder finds a point by its number. -/
theorem find?_point (hnodup : (points.map SyscallPoint.nr).Nodup) {point : SyscallPoint}
    (hpoint : point ∈ points) :
    (points.find? fun p => p.nr == point.nr) = some point := by
  cases hfind : points.find? fun p => p.nr == point.nr with
  | none =>
      rw [List.find?_eq_none] at hfind
      exact absurd (beq_self_eq_true point.nr) (hfind point hpoint)
  | some q =>
      have hnr : q.nr = point.nr := by simpa using List.find?_some hfind
      rw [List.inj_on_of_nodup_map hnodup (List.mem_of_find?_eq_some hfind) hpoint hnr]

/-- The run behind an event of `sys_enter`. -/
theorem run_of_enterEvent (h : maps.enterEvent s hook = some event) :
    ∃ args filter, maps.accept maps.sysenterPointArgs s.childParentMap hook =
        some (args, filter) ∧
      (Probe.sysEnter.run (maps.env hook hook.saved) args (hook.regs.get 0) (s.opCtx hook.cpu 0)
        (saveHead filter hook.sysno hook.regs EventData.init) s.strBuf).ctx.skipFlag = false ∧
      event = (Probe.sysEnter.run (maps.env hook hook.saved) args (hook.regs.get 0)
        (s.opCtx hook.cpu 0) (saveHead filter hook.sysno hook.regs EventData.init)
        s.strBuf).event := by
  obtain ⟨⟨args, filter⟩, haccept, h⟩ := Option.bind_eq_some_iff.mp h
  split at h
  · cases h
  · dsimp only at h
    split at h
    · cases h
    · rename_i hskip
      exact ⟨args, filter, haccept, Bool.eq_false_iff.mpr hskip, (Option.some.inj h).symm⟩

/-- The run behind an event of `sys_exit`, and the save behind it. -/
theorem run_of_exitEvent {savedRegs : CtxRegs}
    (h : maps.exitEvent s hook = some (savedRegs, event)) :
    ∃ args filter st, maps.accept maps.sysexitPointArgs s.childParentMap hook =
        some (args, filter) ∧
      st = Probe.sysExit.run (maps.env hook savedRegs) args (hook.regs.get 0) (s.opCtx hook.cpu 1)
        (saveToSubmitBuf EventData.init (LittleEndian.ofWord 4 hook.sysno) 0).1 s.strBuf ∧
      st.ctx.skipFlag = false ∧
      event = (saveToSubmitBuf st.event (LittleEndian.ofWord 8 (hook.regs.get 0))
        st.ctx.saveIndex).1 := by
  obtain ⟨⟨args, filter⟩, haccept, h⟩ := Option.bind_eq_some_iff.mp h
  obtain ⟨regs, -, h⟩ := Option.bind_eq_some_iff.mp h
  split at h
  · cases h
  · split at h
    · cases h
    · dsimp only at h
      split at h
      · cases h
      · rename_i hskip
        obtain ⟨rfl, rfl⟩ := Prod.mk.inj (Option.some.inj h)
        exact ⟨args, filter, _, haccept, rfl, Bool.eq_false_iff.mpr hskip, rfl⟩

/-- **An event of `sys_enter` is read back.** -/
theorem consumes_enterEvent (hloaded : maps.Loaded m points)
    (hnodup : (points.map SyscallPoint.nr).Nodup) (hok : ∀ p ∈ points, p.Decodable)
    (hidle : s.CtxsIdle) (h : maps.enterEvent s hook = some event)
    (hroom : event.refused = false) :
    event.Within ∧ ∃ point ∈ points, point.nr = hook.sysno ∧ ∃ filter : CommonFilter,
      maps.filter.commonFilter = some filter ∧ ∀ words,
        List.Forall₂ (WordsAt (maps.env hook hook.saved) (hook.regs.get 0) .sysEnter)
          point.enterPointArgs words →
        Reader.Consumes (readSyscall syscallEnter points) event.args
          ⟨hook.sysno, filter.lr hook.regs, filter.sp hook.regs, hook.regs.pc,
            shownArgs (maps.env hook hook.saved) .sysEnter point.enterPointArgs words⟩ := by
  obtain ⟨args, filter, haccept, hskip, rfl⟩ := run_of_enterEvent h
  obtain ⟨point, hpoint, hnr, hpacked⟩ := point_of_enter hloaded haccept
  refine ⟨run_within _ _ _ _ _ (saveHead_within filter hook.sysno hook.regs), point, hpoint, hnr,
    filter, (lookup_of_accept haccept).2, fun words hwords => ?_⟩
  have hdecode := (hok point hpoint).enter
  obtain ⟨bytes, hargs, hbytes⟩ := run_saves (by decide) (by decide) .sysEnter (hook.regs.get 0)
    hpacked (hok point hpoint).enterFits (hidle hook.cpu 0) _ _
    (savesAt_of_decodable hdecode hwords) hskip hroom
  have hread := consumes_args (readsBack_of_decodable hdecode hwords) hbytes
  rw [hargs, saveHead_args]
  simp only [List.append_assoc]
  unfold readSyscall
  refine (consumes_readField 4 0 hook.sysno).bind ?_
  rw [← hnr, find?_point hnodup hpoint]
  dsimp only
  rw [if_pos rfl]
  refine (consumes_readField 8 1 _).bind ?_
  refine (consumes_readField 8 2 _).bind ?_
  refine (consumes_readField 8 3 _).bind ?_
  exact hread.bind_pure fun args =>
    (⟨point.nr, filter.lr hook.regs, filter.sp hook.regs, hook.regs.pc, args⟩ : SyscallFields)

/-- The place without a register adds no ops. -/
theorem packedIn_front {maxOp : Nat} (hmax : maxOp < 2 ^ 32) (hpos : 0 < maxOp)
    {opList : OpListMap} {argFilter : ArgFilterMap} {enterKey : u32} {front : List PointArg}
    {ret : PointArg} {packed : PointArgs maxOp} (hret : ret.regIndex = regArm64Max)
    (h : PackedIn m opList argFilter enterKey (front ++ [ret]) packed) :
    PackedIn m opList argFilter enterKey front packed := by
  have hops : argOps (front ++ [ret]) = argOps front := by
    unfold argOps PointArg.getOpList
    simp [hret]
  refine ⟨h.loaded, fun a ha => h.registered a (List.mem_append_left _ ha), ?_,
    fun a ha => h.filters a (List.mem_append_left _ ha)⟩
  have hpack := h.packs
  rw [pack_eq hmax hpos, hops] at hpack
  rwa [pack_eq hmax hpos]

theorem fitsBudget_front {maxOp : Nat} {front : List PointArg} {ret : PointArg}
    (h : FitsBudget maxOp (front ++ [ret])) : FitsBudget maxOp front := by
  refine ⟨fun a ha => h.registers a (List.mem_append_left _ ha),
    fun a ha => h.address a (List.mem_append_left _ ha), ?_⟩
  have hsteps := h.steps
  unfold listSteps at hsteps ⊢
  rw [List.map_append, List.sum_append] at hsteps
  omega

/-- The word that `sys_exit` saves itself is the record of the return value. -/
theorem encodes_exitRet {env : ProbeEnv} {front : List PointArg} {ret : PointArg}
    {words : List u64} {bytes : List u8} (hret : ret.IsExitRet)
    (hlen : front.length = words.length) (h : Encodes (recordsOf env front words) bytes)
    (value : u64) (index : u8) :
    Encodes (recordsOf env (front ++ [ret]) (words ++ [value]))
      (bytes ++ index :: LittleEndian.ofWord 8 value) := by
  have hdata : ret.ty.dataAt env value = [] := dataAt_of_hasData hret.type.spec.1 value
  have hlast : recordsOf env (front ++ [ret]) (words ++ [value]) =
      recordsOf env front words ++ [.word value] := by
    unfold recordsOf PointArg.recordsAt
    rw [List.zipWith_append hlen, List.flatten_append]
    simp [hdata]
  have hword : Encodes [.word value] (index :: LittleEndian.ofWord 8 value) := by
    have hone := Encodes.cons (.word value) index Encodes.nil
    rwa [List.append_nil] at hone
  rw [hlast]
  exact h.append hword

/-- **An event of `sys_exit` is read back,** with the registers of the entry. -/
theorem consumes_exitEvent (hloaded : maps.Loaded m points)
    (hnodup : (points.map SyscallPoint.nr).Nodup) (hok : ∀ p ∈ points, p.Decodable)
    (hidle : s.CtxsIdle) {savedRegs : CtxRegs}
    (h : maps.exitEvent s hook = some (savedRegs, event)) (hroom : event.refused = false) :
    event.Within ∧ ∃ point ∈ points, point.nr = hook.sysno ∧ ∃ front ret,
      point.exitPointArgs = front ++ [ret] ∧ ∀ words,
        List.Forall₂ (WordsAt (maps.env hook savedRegs) (savedRegs.get 0) .sysExit) front words →
        Reader.Consumes (readSyscall syscallExit points) event.args
          ⟨hook.sysno, 0, 0, 0, shownArgs (maps.env hook savedRegs) .sysExit point.exitPointArgs
            (words ++ [hook.regs.get 0])⟩ := by
  obtain ⟨args, filter, st, haccept, hst, hskip, rfl⟩ := run_of_exitEvent h
  obtain ⟨point, hpoint, hnr, hpacked⟩ := point_of_exit hloaded haccept
  obtain ⟨front, ret, hsplit, hdecode, hret⟩ := (hok point hpoint).exit
  have hfits := (hok point hpoint).exitFits
  rw [hsplit] at hpacked hfits
  have hhead : (saveToSubmitBuf EventData.init (LittleEndian.ofWord 4 hook.sysno) 0).1 =
      EventData.init.commit (0 :: LittleEndian.ofWord 4 hook.sysno) :=
    congrArg Prod.fst (saveToSubmitBuf_of_room (by simp) (by decide))
  have hheadWithin :
      (saveToSubmitBuf EventData.init (LittleEndian.ofWord 4 hook.sysno) 0).1.Within :=
    saveToSubmitBuf_within (by simp [maxElementSize]) within_init
  have hwithin : st.event.Within := by
    rw [hst]
    exact run_within _ _ _ _ _ hheadWithin
  obtain ⟨hsaved, hlast⟩ := saveToSubmitBuf_spec (by simp) hroom
  refine ⟨saveToSubmitBuf_within (by simp [maxElementSize]) hwithin, point, hpoint, hnr, front, ret,
    hsplit, fun words hwords => ?_⟩
  rw [hst] at hskip hsaved
  -- the run saves the arguments in front; the return value is saved after it
  obtain ⟨bytes, hargs, hbytes⟩ := run_saves (by decide) (by decide) .sysExit (hook.regs.get 0)
    (packedIn_front (by decide) (by decide) hret.place hpacked) (fitsBudget_front hfits)
    (hidle hook.cpu 1) _ _ (savesAt_of_decodable hdecode hwords) hskip hsaved
  rw [← hst, hhead] at hargs
  have hlen : front.length = words.length := hwords.length_eq
  have hall := encodes_exitRet hret hlen hbytes (hook.regs.get 0) st.ctx.saveIndex
  have hback : List.Forall₂ (fun a w => a.ReadsBack (maps.env hook savedRegs) .sysExit w)
      (front ++ [ret]) (words ++ [hook.regs.get 0]) :=
    List.rel_append (readsBack_of_decodable hdecode hwords)
      (.cons ⟨Or.inr hret.type.spec.1, fun _ => hret.type.spec.2 _ _⟩ .nil)
  have hread := consumes_args hback hall
  rw [hlast, hargs, hsplit]
  unfold EventData.commit EventData.init readSyscall
  dsimp only
  rw [List.nil_append, List.append_assoc]
  refine (consumes_readField 4 0 hook.sysno).bind ?_
  rw [← hnr, find?_point hnodup hpoint]
  dsimp only
  rw [if_neg (by decide), if_pos rfl, hsplit]
  exact hread.bind_pure fun args => (⟨point.nr, 0, 0, 0, args⟩ : SyscallFields)

end ReadBack

/-! ## From start-up to the decoder -/

/-- The system call module after a start-up that succeeded, on calls that can be decoded. -/
structure StartedSyscalls where
  conf : LoadConfig
  points : List SyscallPoint
  range : GoRange u32 OpConfig
  /-- The op table before the maps are loaded. -/
  table : OpManager
  loadedMaps : LoadedMaps syscallMaxOpCount 512
  load : conf.loadSyscalls range table points = some loadedMaps
  numbers : (points.map SyscallPoint.nr).Nodup
  enterFilters : ∀ p ∈ points, FiltersKnown conf.filters p.enterPointArgs
  exitFilters : ∀ p ∈ points, FiltersKnown conf.filters p.exitPointArgs
  decodable : ∀ p ∈ points, p.Decodable

namespace StartedSyscalls

def maps (start : StartedSyscalls) : SyscallMaps := start.loadedMaps.syscallMaps

/-- The programs are attached, and none has run. -/
def init (start : StartedSyscalls) : SyscallRun :=
  .init start.maps.filter.childParentMap fun _ _ => OpCtx.cleared

theorem loaded (start : StartedSyscalls) :
    start.maps.Loaded start.loadedMaps.table start.points :=
  loaded_of_loadSyscalls start.load start.enterFilters start.exitFilters

theorem commonFilter (start : StartedSyscalls) :
    start.maps.filter.commonFilter = some start.conf.commonFilter :=
  commonFilter_of_loadMaps (by decide) (by decide) start.load

theorem idle (start : StartedSyscalls) {actions : List SyscallAction} {t : SyscallRun}
    (hrun : (syscallMachine start.maps).run start.init actions = some t) : t.maps.CtxsIdle :=
  syscallRun_idle start.loaded start.decodable (fun _ _ => Or.inl rfl) hrun

end StartedSyscalls

section Sample

variable (start : StartedSyscalls) {actions : List SyscallAction} {t : SyscallRun}
  {hook : SyscallHook} {event : EventData} {parser : EventConf} {padding tail : List u8}

end Sample

/-! ### `openat` -/

/-- `openat` with the path that it is given, read on the entry. -/
def openatPoint : SyscallPoint where
  nr := 56
  name := "openat".toList
  enterPointArgs :=
    [⟨"dfd".toList, 0, .num .int .plain, [], [], .sysEnter, .sysEnter, false⟩,
      ⟨"filename".toList, 1, .string, [], [], .sysEnter, .sysEnter, false⟩]
  exitPointArgs :=
    [⟨"dfd".toList, 0, .num .int .plain, [], [], .sysEnter, .sysExit, false⟩,
      ⟨"filename".toList, 1, .string, [], [], .sysEnter, .sysExit, false⟩,
      newExitPointArg "ret".toList (.num .int .plain)]

theorem openatPoint_decodable : openatPoint.Decodable where
  enter := by
    refine List.forall_mem_cons.mpr ⟨?_, List.forall_mem_singleton.mpr ?_⟩
    · exact ⟨by decide, Or.inr (Or.inl ⟨rfl, by decide⟩), by decide, fun _ => trivial, Or.inl rfl⟩
    · exact ⟨by decide, Or.inr (Or.inl ⟨rfl, by decide⟩), by decide, fun _ => trivial, Or.inl rfl⟩
  exit := by
    refine ⟨openatPoint.exitPointArgs.take 2, newExitPointArg "ret".toList (.num .int .plain), rfl,
      List.forall_mem_cons.mpr ⟨?_, List.forall_mem_singleton.mpr ?_⟩, ⟨rfl, trivial⟩⟩
    · exact ⟨by decide, Or.inr (Or.inl ⟨rfl, by decide⟩), by decide, fun _ => trivial, Or.inl rfl⟩
    · exact ⟨by decide, Or.inr (Or.inl ⟨rfl, by decide⟩), by decide, fun _ => trivial, Or.inl rfl⟩
  enterFits := by
    refine ⟨?_, ?_, by decide⟩
    · refine List.forall_mem_cons.mpr ⟨?_, List.forall_mem_singleton.mpr ?_⟩
      · exact fun _ => ⟨fun _ _ => by decide, fun _ => trivial⟩
      · exact fun _ => ⟨fun _ _ => by decide, fun _ => trivial⟩
    · exact List.forall_mem_cons.mpr ⟨⟨[], rfl⟩, List.forall_mem_singleton.mpr ⟨[], rfl⟩⟩
  exitFits := by
    refine ⟨?_, ?_, by decide⟩
    · refine List.forall_mem_cons.mpr ⟨?_, List.forall_mem_cons.mpr ⟨?_,
        List.forall_mem_singleton.mpr fun h => absurd rfl h⟩⟩
      · exact fun _ => ⟨fun _ _ => by decide, fun _ => trivial⟩
      · exact fun _ => ⟨fun _ _ => by decide, fun _ => trivial⟩
    · exact List.forall_mem_cons.mpr ⟨⟨[], rfl⟩, List.forall_mem_cons.mpr ⟨⟨[], rfl⟩,
        List.forall_mem_singleton.mpr ⟨[], rfl⟩⟩⟩

/-- Traces uid 1000 and the system calls of the white list. -/
def openatConf : LoadConfig where
  selfPid := 7
  lists := ⟨fun k => if k = .uidWhitelist then [1000] else if k = .sysWhitelist then [56] else []⟩
  threadNames := ⟨[], [], true⟩
  commonFilter := ⟨0, traceCommon, 0⟩
  filters := []

theorem openatConf_loads :
    (openatConf.loadSyscalls .entries .init [openatPoint]).isSome = true := by decide +kernel

def openatStart : StartedSyscalls where
  conf := openatConf
  points := [openatPoint]
  range := .entries
  table := .init
  loadedMaps := (openatConf.loadSyscalls .entries .init [openatPoint]).get openatConf_loads
  load := (Option.some_get openatConf_loads).symm
  numbers := List.nodup_singleton _
  enterFilters := List.forall_mem_singleton.mpr (filtersKnown_of_nil _ (by decide))
  exitFilters := List.forall_mem_singleton.mpr (filtersKnown_of_nil _ (by decide))
  decodable := List.forall_mem_singleton.mpr openatPoint_decodable

/-- Thread 42 of uid 1000 opens the path at address 0. -/
def openatHook : SyscallHook where
  cpu := 0
  task := ⟨false, 42, ⟨42, 42, 1000, Vector.replicate 16 0⟩⟩
  mem := fun addr => if addr = 0 then some 0x61 else some 0
  regs := .ofX0 3
  sysno := 56

/-- It returns the descriptor 9. -/
def openatReturn : SyscallHook := { openatHook with regs := .ofX0 9 }

def openatParser : EventConf where
  selfPid := 7
  brkKernel := false
  unwindStack := false
  showRegs := false
  points := []
  syscallPoints := [openatPoint]

def openatSource : ContextSource := ⟨openatHook.task, 42, 0⟩

end Stackplz
