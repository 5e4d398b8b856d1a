import Stackplz.Basic.Machine
import Stackplz.Probe.Arguments
import Stackplz.Probe.Filtering
import Stackplz.Probe.Fork

/-!
# Function entry and return

`probe_stack_warp` and `uretprobe_stack_warp` (`stack.c`). The entry probe of a point that is
read again on return saves the registers under one key for each thread and point; the first
program that runs on return, at the exit offset or as a uretprobe, loads and deletes them.
The machine below lets any threads call and return in any well-nested way, and
`returns_report_own_entry` says when every return reports its own call.
-/

set_option autoImplicit false

namespace Stackplz

/-! ## The programs -/

/-- The read-only maps of the uprobe object, and where its programs are attached: `entry`
says which point keys are function entries, `exitPoint` gives the point attached at the exit
offset of a function, `uretprobe` whether its uretprobe is attached. The last fields are what
`Parse_HookPoint`, `GetExitPoint` and `GetUretConfig` write into the entry keys. -/
structure StackMaps where
  filter : FilterMaps
  uprobePointArgs : BoundedMap u32 (PointArgs stackMaxOpCount) 6
  uretprobePointArgs : BoundedMap u32 (PointArgs stackMaxOpCount) 6
  opList : OpListMap
  argFilter : ArgFilterMap
  entry : u32 → Bool
  exitPoint : u32 → Option u32
  uretprobe : u32 → Bool
  /-- There are six compiled programs. -/
  entry_lt : ∀ k, entry k = true → k < 6
  /-- The entry of a point read on return saves under its own key; others save nothing. -/
  enterKey_entry : ∀ k args, entry k = true → uprobePointArgs.lookup k = some args →
    args.enterKey = if (exitPoint k).isSome ∨ uretprobe k then k + 1 else 0
  enterKey_exit : ∀ k k' args, exitPoint k = some k' → uprobePointArgs.lookup k' = some args →
    k' ≠ k ∧ args.enterKey = k + 1
  enterKey_uret : ∀ k args, uretprobe k = true → uretprobePointArgs.lookup k = some args →
    args.enterKey = k + 1

/-- The maps the programs write; they use entry 0 of the per-CPU `op_ctx_map`. -/
structure StackState where
  childParentMap : ChildParentMap
  ctxRegsMap : CtxRegsMap
  opCtx : Nat → OpCtx
  strBuf : StrBufMap

/-- What a probe sees. -/
structure StackHook where
  cpu : Nat
  task : Task
  mem : UserMem
  regs : CtxRegs

/-- The registers of a hook as `save_regs` stores them. -/
def StackHook.saved (hook : StackHook) : CtxRegs := { hook.regs with flag := 0 }

/-- The checks both programs start with. -/
def StackMaps.accept (maps : StackMaps) (pointArgs : BoundedMap u32 (PointArgs stackMaxOpCount) 6)
    (childParentMap : ChildParentMap) (hook : StackHook) (pointKey : u32) :
    Option (PointArgs stackMaxOpCount × CommonFilter) :=
  if !shouldTrace { maps.filter with childParentMap := childParentMap } hook.task.context
  then none
  else do
    let args ← pointArgs.lookup pointKey
    let filter ← maps.filter.commonFilter
    return (args, filter)

def StackMaps.env (maps : StackMaps) (hook : StackHook) (regs : CtxRegs) : ProbeEnv :=
  ⟨hook.mem, regs, maps.opList, maps.argFilter⟩

/-- A submitted uprobe event: its bytes and the registers its arguments were evaluated on. -/
structure ProbeEvent where
  savedRegs : CtxRegs
  bytes : List u8
deriving DecidableEq

theorem StackMaps.lookup_of_accept (maps : StackMaps)
    {pointArgs : BoundedMap u32 (PointArgs stackMaxOpCount) 6} {childParentMap : ChildParentMap}
    {hook : StackHook} {pointKey : u32} {args : PointArgs stackMaxOpCount}
    {filter : CommonFilter}
    (h : maps.accept pointArgs childParentMap hook pointKey = some (args, filter)) :
    pointArgs.lookup pointKey = some args := by
  unfold StackMaps.accept at h
  split at h
  · exact absurd h (by simp)
  · obtain ⟨args', hlookup, filter', _, heq⟩ : ∃ args', pointArgs.lookup pointKey = some args' ∧
        ∃ filter', maps.filter.commonFilter = some filter' ∧ (args', filter') = (args, filter) := by
      simpa [Option.bind_eq_some_iff] using h
    exact (Prod.mk.inj heq).1 ▸ hlookup

/-- The registers `probe_stack_warp` evaluates on, and the map after it, by the entry key:
none, the point's own, or another point's. -/
def probeRegs (m : CtxRegsMap) (hook : StackHook) (pointKey enterKey : u32) :
    Option (CtxRegs × CtxRegsMap) :=
  if enterKey = 0 then some (hook.saved, m)
  else if enterKey = pointKey + 1 then
    some (hook.saved, saveRegs m hook.saved (uprobeEnter + pointKey + 1) hook.task.hostTid)
  else
    (loadRegs m (uprobeEnter + enterKey) hook.task.hostTid).map fun savedRegs =>
      (savedRegs, delRegs m (uprobeEnter + enterKey) hook.task.hostTid)

/-- The registers `uretprobe_stack_warp` evaluates on, and the map after it. -/
def uretprobeRegs (m : CtxRegsMap) (hook : StackHook) (enterKey : u32) :
    Option (CtxRegs × CtxRegsMap) :=
  if enterKey ≠ 0 then
    (loadRegs m (uprobeEnter + enterKey) hook.task.hostTid).map fun savedRegs =>
      (savedRegs, delRegs m (uprobeEnter + enterKey) hook.task.hostTid)
  else some (hook.saved, m)

/-- The interpreter run of one of the two programs on the registers `regs`. -/
def StackMaps.runOps (maps : StackMaps) (p : Probe) (s : StackState) (hook : StackHook)
    (pointKey : u32) (pointArgs : PointArgs stackMaxOpCount) (filter : CommonFilter)
    (regs : CtxRegs) : LoopState :=
  p.run (maps.env hook regs) pointArgs (hook.regs.get 0) (s.opCtx hook.cpu)
    (saveHead filter pointKey hook.regs EventData.init) s.strBuf

/-- The end of both programs: submit the event unless the filters skip it. -/
def StackState.finish (s : StackState) (hook : StackHook) (regs : CtxRegs)
    (ctxRegsMap : CtxRegsMap) (st : LoopState) : StackState × Option ProbeEvent :=
  let opCtx := if st.ctx.skipFlag then { st.ctx with skipFlag := false } else st.ctx
  ({ s with
      ctxRegsMap := ctxRegsMap
      opCtx := fun c => if c = hook.cpu then opCtx else s.opCtx c
      strBuf := st.strBuf },
    if st.ctx.skipFlag then none else some ⟨regs, st.event.args⟩)

/-- `probe_stack_warp`. -/
def probeStackWarp (maps : StackMaps) (s : StackState) (hook : StackHook) (pointKey : u32) :
    StackState × Option ProbeEvent :=
  match maps.accept maps.uprobePointArgs s.childParentMap hook pointKey with
  | none => (s, none)
  | some (pointArgs, filter) =>
      match probeRegs s.ctxRegsMap hook pointKey pointArgs.enterKey with
      | none => (s, none)
      | some (regs, ctxRegsMap) =>
          s.finish hook regs ctxRegsMap
            (maps.runOps .probeStack s hook pointKey pointArgs filter regs)

/-- `uretprobe_stack_warp`: `reg_0` is the return value, the first register now. -/
def uretprobeStackWarp (maps : StackMaps) (s : StackState) (hook : StackHook) (pointKey : u32) :
    StackState × Option ProbeEvent :=
  match maps.accept maps.uretprobePointArgs s.childParentMap hook pointKey with
  | none => (s, none)
  | some (pointArgs, filter) =>
      match uretprobeRegs s.ctxRegsMap hook pointArgs.enterKey with
      | none => (s, none)
      | some (regs, ctxRegsMap) =>
          s.finish hook regs ctxRegsMap
            (maps.runOps .uretprobeStack s hook pointKey pointArgs filter regs)

/-! ### What the programs do to the saved registers -/

@[simp] theorem finish_ctxRegsMap (s : StackState) (hook : StackHook) (regs : CtxRegs)
    (m : CtxRegsMap) (st : LoopState) : (s.finish hook regs m st).1.ctxRegsMap = m := rfl

/-- The slot of a point's saved registers. -/
def pointSlot (m : CtxRegsMap) (tid pointKey : u32) : Option CtxRegs :=
  loadRegs m (uprobeEnter + pointKey + 1) tid

theorem pointSlot_saveRegs_ne (m : CtxRegsMap) (regs : CtxRegs) {tid tid' k k' : u32}
    (h : k' ≠ k ∨ tid' ≠ tid) :
    pointSlot (saveRegs m regs (uprobeEnter + k + 1) tid) tid' k' = pointSlot m tid' k' := by
  refine loadRegs_saveRegs_ne m regs (h.imp_left fun hne heq => hne ?_)
  exact (BitVec.add_right_inj (uprobeEnter)).mp ((BitVec.add_left_inj 1).mp heq)

theorem pointSlot_delRegs_ne (m : CtxRegsMap) {tid tid' k k' : u32} (h : k' ≠ k ∨ tid' ≠ tid) :
    pointSlot (delRegs m (uprobeEnter + k + 1) tid) tid' k' = pointSlot m tid' k' := by
  refine loadRegs_delRegs_ne m (h.imp_left fun hne heq => hne ?_)
  exact (BitVec.add_right_inj (uprobeEnter)).mp ((BitVec.add_left_inj 1).mp heq)

/-- A point that is read again on return. -/
def StackMaps.Tracked (maps : StackMaps) (k : u32) : Prop :=
  (maps.exitPoint k).isSome ∨ maps.uretprobe k

/-- The key of an entry point plus one is not the key zero, which means "no registers". -/
theorem StackMaps.succ_ne_zero (maps : StackMaps) {k : u32} (h : maps.entry k = true) :
    k + 1 ≠ 0 := by
  have := maps.entry_lt k h
  bv_omega

/-- The entry program saves the registers of a tracked point that is not filtered out. -/
theorem probeStackWarp_tracked {maps : StackMaps} {s : StackState} {hook : StackHook} {k : u32}
    (hentry : maps.entry k = true) (htracked : maps.Tracked k)
    (haccept : (maps.accept maps.uprobePointArgs s.childParentMap hook k).isSome) :
    (probeStackWarp maps s hook k).1.ctxRegsMap =
      saveRegs s.ctxRegsMap hook.saved (uprobeEnter + k + 1) hook.task.hostTid := by
  obtain ⟨⟨pointArgs, filter⟩, haccept⟩ := Option.isSome_iff_exists.mp haccept
  have henter : pointArgs.enterKey = k + 1 := by
    rw [maps.enterKey_entry k pointArgs hentry (maps.lookup_of_accept haccept)]
    exact if_pos htracked
  simp only [probeStackWarp, haccept, probeRegs, henter, if_neg (maps.succ_ne_zero hentry),
    if_true, finish_ctxRegsMap]

/-- The entry program of any other point leaves the saved registers alone. -/
theorem probeStackWarp_untracked {maps : StackMaps} (s : StackState) (hook : StackHook)
    {k : u32} (hentry : maps.entry k = true) (htracked : ¬ maps.Tracked k) :
    (probeStackWarp maps s hook k).1.ctxRegsMap = s.ctxRegsMap := by
  cases haccept : maps.accept maps.uprobePointArgs s.childParentMap hook k with
  | none => simp [probeStackWarp, haccept]
  | some accepted =>
      obtain ⟨pointArgs, filter⟩ := accepted
      have henter : pointArgs.enterKey = 0 := by
        rw [maps.enterKey_entry k pointArgs hentry (maps.lookup_of_accept haccept)]
        exact if_neg htracked
      simp [probeStackWarp, haccept, probeRegs, henter]

/-- The outcome of a program on return: it submits an event on the registers `regs`, and
empties the slot of point `k`. -/
def ReportsAndClears (s : StackState) (tid k : u32) (regs : CtxRegs)
    (out : StackState × Option ProbeEvent) : Prop :=
  out.1.ctxRegsMap = delRegs s.ctxRegsMap (uprobeEnter + k + 1) tid ∧
    ∃ e, out.2 = some e ∧ e.savedRegs = regs

private theorem finish_reports {s : StackState} {hook : StackHook} {k : u32} {regs : CtxRegs}
    {st : LoopState} (hskip : st.ctx.skipFlag = false) :
    ReportsAndClears s hook.task.hostTid k regs
      (s.finish hook regs (delRegs s.ctxRegsMap (uprobeEnter + k + 1) hook.task.hostTid) st) := by
  refine ⟨rfl, ⟨regs, st.event.args⟩, ?_, rfl⟩
  simp [StackState.finish, hskip]

/-- The program at the exit offset of point `k`, when the slot of `k` holds `regs`. -/
theorem probeStackWarp_exit {maps : StackMaps} {s : StackState} {hook : StackHook}
    {k k' : u32} {pointArgs : PointArgs stackMaxOpCount} {filter : CommonFilter}
    {regs : CtxRegs} (hentry : maps.entry k = true) (hexit : maps.exitPoint k = some k')
    (haccept : maps.accept maps.uprobePointArgs s.childParentMap hook k' = some (pointArgs, filter))
    (hslot : pointSlot s.ctxRegsMap hook.task.hostTid k = some regs)
    (hskip : (maps.runOps .probeStack s hook k' pointArgs filter regs).ctx.skipFlag = false) :
    ReportsAndClears s hook.task.hostTid k regs (probeStackWarp maps s hook k') := by
  obtain ⟨hne, henter⟩ := maps.enterKey_exit k k' pointArgs hexit (maps.lookup_of_accept haccept)
  have hother : ¬ k + 1 = k' + 1 := fun h => hne ((BitVec.add_left_inj 1).mp h).symm
  have hload : loadRegs s.ctxRegsMap (uprobeEnter + (k + 1)) hook.task.hostTid = some regs := by
    rw [← BitVec.add_assoc]
    exact hslot
  have hregs : probeRegs s.ctxRegsMap hook k' pointArgs.enterKey =
      some (regs, delRegs s.ctxRegsMap (uprobeEnter + k + 1) hook.task.hostTid) := by
    rw [probeRegs, henter, if_neg (maps.succ_ne_zero hentry), if_neg hother, hload,
      ← BitVec.add_assoc]
    rfl
  simp only [probeStackWarp, haccept, hregs]
  exact finish_reports hskip

/-- The uretprobe of point `k`, when the slot of `k` holds `regs`. -/
theorem uretprobeStackWarp_exit {maps : StackMaps} {s : StackState} {hook : StackHook}
    {k : u32} {pointArgs : PointArgs stackMaxOpCount} {filter : CommonFilter}
    {regs : CtxRegs} (hentry : maps.entry k = true) (huret : maps.uretprobe k = true)
    (haccept : maps.accept maps.uretprobePointArgs s.childParentMap hook k =
      some (pointArgs, filter))
    (hslot : pointSlot s.ctxRegsMap hook.task.hostTid k = some regs)
    (hskip : (maps.runOps .uretprobeStack s hook k pointArgs filter regs).ctx.skipFlag =
      false) :
    ReportsAndClears s hook.task.hostTid k regs (uretprobeStackWarp maps s hook k) := by
  have henter := maps.enterKey_uret k pointArgs huret (maps.lookup_of_accept haccept)
  have hload : loadRegs s.ctxRegsMap (uprobeEnter + (k + 1)) hook.task.hostTid = some regs := by
    rw [← BitVec.add_assoc]
    exact hslot
  have hregs : uretprobeRegs s.ctxRegsMap hook pointArgs.enterKey =
      some (regs, delRegs s.ctxRegsMap (uprobeEnter + k + 1) hook.task.hostTid) := by
    rw [uretprobeRegs, henter, if_pos (maps.succ_ne_zero hentry), hload, ← BitVec.add_assoc]
    rfl
  simp only [uretprobeStackWarp, haccept, hregs]
  exact finish_reports hskip

/-! ## Calls and returns -/

/-- An open call of a probed function: its entry point, the registers at the entry as they
would be saved, and whether the exit offset has been passed. -/
structure Frame where
  point : u32
  regs : CtxRegs
  exited : Bool
deriving DecidableEq

/-- The maps, the open calls of every thread, the innermost first, and for every program run
at the entry of a call and on the way out of one the event it submitted, if any. -/
structure StackRun where
  maps : StackState
  stack : u32 → List Frame
  calls : List (Frame × Option ProbeEvent)
  returns : List (Frame × Option ProbeEvent)

/-- A thread calls a probed function, passes the exit offset of the innermost open call, or
returns from it; a process forks. -/
inductive StackAction where
  | call (hook : StackHook) (point : u32)
  | exitOffset (hook : StackHook)
  | ret (hook : StackHook)
  | fork (e : ForkEvent)

def StackRun.setStack (s : StackRun) (tid : u32) (frames : List Frame) : u32 → List Frame :=
  fun t => if t = tid then frames else s.stack t

def StackRun.step (cfg : StackMaps) (s : StackRun) : StackAction → Option StackRun
  | .call hook k =>
      if cfg.entry k then
        let (maps, event) := probeStackWarp cfg s.maps hook k
        let frame := ⟨k, hook.saved, false⟩
        some ⟨maps, s.setStack hook.task.hostTid (frame :: s.stack hook.task.hostTid),
          (frame, event) :: s.calls, s.returns⟩
      else none
  | .exitOffset hook =>
      match s.stack hook.task.hostTid with
      | [] => none
      | frame :: rest =>
          match frame.exited, cfg.exitPoint frame.point with
          | false, some k' =>
              let (maps, event) := probeStackWarp cfg s.maps hook k'
              some ⟨maps, s.setStack hook.task.hostTid ({ frame with exited := true } :: rest),
                s.calls, (frame, event) :: s.returns⟩
          | _, _ => none
  | .ret hook =>
      match s.stack hook.task.hostTid with
      | [] => none
      | frame :: rest =>
          -- a function with an exit offset returns past it
          if (cfg.exitPoint frame.point).isSome && !frame.exited then none
          else if cfg.uretprobe frame.point then
            let (maps, event) := uretprobeStackWarp cfg s.maps hook frame.point
            some ⟨maps, s.setStack hook.task.hostTid rest, s.calls, (frame, event) :: s.returns⟩
          else some { s with stack := s.setStack hook.task.hostTid rest }
  | .fork e => some { s with
      maps := { s.maps with childParentMap := schedProcessFork s.maps.childParentMap e } }

def stackMachine (cfg : StackMaps) : Machine StackRun StackAction := ⟨StackRun.step cfg⟩

/-- No open calls and no saved registers. -/
def StackRun.init (childParentMap : ChildParentMap) (opCtx : Nat → OpCtx) : StackRun :=
  ⟨⟨childParentMap, BoundedMap.empty, opCtx, BoundedMap.empty⟩, fun _ => [], [], []⟩

/-- Every program run on the way out of a call submitted an event on the registers saved at
the entry of that call. -/
def StackRun.ReturnsReportOwnEntry (s : StackRun) : Prop :=
  ∀ x ∈ s.returns, ∃ e, x.2 = some e ∧ e.savedRegs = x.1.regs

/-- The steps that keep one slot for each open call. A call of a tracked point is not
recursive, finds room for its registers, passes the filters, and is not of a point that is
read both at an exit offset and by a uretprobe. On the way out the filters let the event
pass, on the registers of the call itself. -/
def StackRun.OneSlotPerCall (cfg : StackMaps) (s : StackRun) : StackAction → Prop
  | .call hook k => cfg.Tracked k →
      (∀ frame ∈ s.stack hook.task.hostTid, frame.point ≠ k) ∧
      RegsRoom s.maps.ctxRegsMap (uprobeEnter + k + 1) hook.task.hostTid ∧
      (cfg.accept cfg.uprobePointArgs s.maps.childParentMap hook k).isSome ∧
      ¬ ((cfg.exitPoint k).isSome ∧ cfg.uretprobe k)
  | .exitOffset hook => ∀ frame rest k', s.stack hook.task.hostTid = frame :: rest →
      cfg.exitPoint frame.point = some k' →
      ∃ pointArgs filter,
        cfg.accept cfg.uprobePointArgs s.maps.childParentMap hook k' = some (pointArgs, filter) ∧
        (cfg.runOps .probeStack s.maps hook k' pointArgs filter frame.regs).ctx.skipFlag = false
  | .ret hook => ∀ frame rest, s.stack hook.task.hostTid = frame :: rest →
      cfg.uretprobe frame.point →
      ∃ pointArgs filter,
        cfg.accept cfg.uretprobePointArgs s.maps.childParentMap hook frame.point =
          some (pointArgs, filter) ∧
        (cfg.runOps .uretprobeStack s.maps hook frame.point pointArgs filter
          frame.regs).ctx.skipFlag = false
  | .fork _ => True

/-! ### The invariant -/

/-- What holds of an open call by itself. -/
structure Frame.Ok (cfg : StackMaps) (frame : Frame) : Prop where
  entry : cfg.entry frame.point = true
  single : ¬ ((cfg.exitPoint frame.point).isSome ∧ cfg.uretprobe frame.point)
  exited : frame.exited = true → (cfg.exitPoint frame.point).isSome

/-- The open calls of one thread against the slots of this thread: tracked points occur once,
and each call that has not been read yet finds its registers. -/
structure FramesOk (cfg : StackMaps) (slot : u32 → Option CtxRegs) (frames : List Frame) :
    Prop where
  ok : ∀ frame ∈ frames, frame.Ok cfg
  distinct : frames.Pairwise fun a b => cfg.Tracked a.point → a.point ≠ b.point
  slots : ∀ frame ∈ frames, cfg.Tracked frame.point → frame.exited = false →
    slot frame.point = some frame.regs

structure StackRun.Inv (cfg : StackMaps) (s : StackRun) : Prop where
  frames : ∀ tid, FramesOk cfg (pointSlot s.maps.ctxRegsMap tid) (s.stack tid)
  returns : s.ReturnsReportOwnEntry

theorem framesOk_nil (cfg : StackMaps) (slot : u32 → Option CtxRegs) : FramesOk cfg slot [] :=
  ⟨fun _ h => absurd h (by simp), List.Pairwise.nil, fun _ h => absurd h (by simp)⟩

/-- Only the slots of tracked open calls matter. -/
theorem FramesOk.congr {cfg : StackMaps} {slot slot' : u32 → Option CtxRegs}
    {frames : List Frame} (h : FramesOk cfg slot frames)
    (heq : ∀ frame ∈ frames, cfg.Tracked frame.point → slot' frame.point = slot frame.point) :
    FramesOk cfg slot' frames where
  ok := h.ok
  distinct := h.distinct
  slots := fun frame hin ht hex => (heq frame hin ht).trans (h.slots frame hin ht hex)

theorem FramesOk.tail {cfg : StackMaps} {slot : u32 → Option CtxRegs} {frame : Frame}
    {rest : List Frame} (h : FramesOk cfg slot (frame :: rest)) : FramesOk cfg slot rest where
  ok := fun f hin => h.ok f (List.mem_cons_of_mem _ hin)
  distinct := (List.pairwise_cons.mp h.distinct).2
  slots := fun f hin => h.slots f (List.mem_cons_of_mem _ hin)

/-- Below a tracked call there is no call of the same point. -/
theorem FramesOk.ne_of_tail {cfg : StackMaps} {slot : u32 → Option CtxRegs} {frame : Frame}
    {rest : List Frame} (h : FramesOk cfg slot (frame :: rest)) (ht : cfg.Tracked frame.point) :
    ∀ f ∈ rest, f.point ≠ frame.point :=
  fun f hin => ((List.pairwise_cons.mp h.distinct).1 f hin ht).symm

theorem setStack_cases (s : StackRun) (tid t : u32) (frames : List Frame) :
    (t = tid ∧ s.setStack tid frames t = frames) ∨
      (t ≠ tid ∧ s.setStack tid frames t = s.stack t) := by
  by_cases h : t = tid
  · exact Or.inl ⟨h, if_pos h⟩
  · exact Or.inr ⟨h, if_neg h⟩

/-! ### The steps -/

/-- One thread changes its open calls and at most its slot of point `k`: what is left to show
is about this thread. -/
private theorem stackInv_move {cfg : StackMaps} {s : StackRun} (hs : s.Inv cfg) {tid : u32}
    {maps : StackState} {frames : List Frame} {calls returns : List (Frame × Option ProbeEvent)}
    (hother : ∀ t ≠ tid, ∀ k,
      pointSlot maps.ctxRegsMap t k = pointSlot s.maps.ctxRegsMap t k)
    (hself : FramesOk cfg (pointSlot maps.ctxRegsMap tid) frames)
    (hreturns : ∀ x ∈ returns, ∃ e, x.2 = some e ∧ e.savedRegs = x.1.regs) :
    (⟨maps, s.setStack tid frames, calls, returns⟩ : StackRun).Inv cfg := by
  refine ⟨fun t => ?_, hreturns⟩
  show FramesOk cfg (pointSlot maps.ctxRegsMap t) (s.setStack tid frames t)
  rcases setStack_cases s tid t frames with ⟨rfl, heq⟩ | ⟨hne, heq⟩
  · rw [heq]
    exact hself
  · rw [heq]
    exact (hs.frames t).congr fun _ _ _ => hother t hne _

private theorem stackInv_call {cfg : StackMaps} {s t : StackRun} {hook : StackHook} {k : u32}
    (hs : s.Inv cfg) (hguard : s.OneSlotPerCall cfg (.call hook k))
    (hstep : s.step cfg (.call hook k) = some t) : t.Inv cfg := by
  by_cases hentry : cfg.entry k = true
  · obtain rfl : (⟨(probeStackWarp cfg s.maps hook k).1, s.setStack hook.task.hostTid
        (⟨k, hook.saved, false⟩ :: s.stack hook.task.hostTid),
        (⟨k, hook.saved, false⟩, (probeStackWarp cfg s.maps hook k).2) :: s.calls,
        s.returns⟩ : StackRun) = t := by
      simpa [StackRun.step, hentry] using hstep
    have hthread := hs.frames hook.task.hostTid
    by_cases htracked : cfg.Tracked k
    · obtain ⟨hfresh, hroom, haccept, hsingle⟩ := hguard htracked
      have hmap := probeStackWarp_tracked hentry htracked haccept
      refine stackInv_move hs ?_ ⟨?_, ?_, ?_⟩ hs.returns
      · intro tid hne j
        rw [hmap, pointSlot_saveRegs_ne _ _ (Or.inr hne)]
      · intro frame hin
        rcases List.mem_cons.mp hin with rfl | hold
        · exact ⟨hentry, hsingle, fun h => by simp at h⟩
        · exact hthread.ok frame hold
      · exact List.pairwise_cons.mpr ⟨fun frame hin _ => (hfresh frame hin).symm,
          hthread.distinct⟩
      · intro frame hin ht hex
        rw [hmap]
        rcases List.mem_cons.mp hin with rfl | hold
        · exact loadRegs_saveRegs_self _ hroom
        · rw [pointSlot_saveRegs_ne _ _ (Or.inl (hfresh frame hold))]
          exact hthread.slots frame hold ht hex
    · have hmap := probeStackWarp_untracked s.maps hook hentry htracked
      refine stackInv_move hs ?_ ⟨?_, ?_, ?_⟩ hs.returns
      · intro tid _ j
        rw [hmap]
      · intro frame hin
        rcases List.mem_cons.mp hin with rfl | hold
        · exact ⟨hentry, fun hboth => htracked (Or.inl hboth.1), fun h => by simp at h⟩
        · exact hthread.ok frame hold
      · exact List.pairwise_cons.mpr ⟨fun _ _ ht => absurd ht htracked, hthread.distinct⟩
      · intro frame hin ht hex
        rw [hmap]
        rcases List.mem_cons.mp hin with rfl | hold
        · exact absurd ht htracked
        · exact hthread.slots frame hold ht hex
  · simp [StackRun.step, hentry] at hstep

/-- After a program on the way out of the innermost call has emptied its slot, the calls
below keep theirs. -/
private theorem framesOk_cleared {cfg : StackMaps} {m : CtxRegsMap} {tid : u32} {frame : Frame}
    {rest : List Frame} (h : FramesOk cfg (pointSlot m tid) (frame :: rest))
    (ht : cfg.Tracked frame.point) :
    FramesOk cfg (pointSlot (delRegs m (uprobeEnter + frame.point + 1) tid) tid) rest :=
  h.tail.congr fun f hin _ => pointSlot_delRegs_ne m (Or.inl (h.ne_of_tail ht f hin))

private theorem stackInv_exitOffset {cfg : StackMaps} {s t : StackRun} {hook : StackHook}
    (hs : s.Inv cfg) (hguard : s.OneSlotPerCall cfg (.exitOffset hook))
    (hstep : s.step cfg (.exitOffset hook) = some t) : t.Inv cfg := by
  have hthread := hs.frames hook.task.hostTid
  cases hstack : s.stack hook.task.hostTid with
  | nil => simp [StackRun.step, hstack] at hstep
  | cons frame rest =>
      rw [hstack] at hthread
      cases hexited : frame.exited with
      | true => simp [StackRun.step, hstack, hexited] at hstep
      | false =>
          cases hexit : cfg.exitPoint frame.point with
          | none => simp [StackRun.step, hstack, hexited, hexit] at hstep
          | some k' =>
              obtain rfl : (⟨(probeStackWarp cfg s.maps hook k').1,
                  s.setStack hook.task.hostTid ({ frame with exited := true } :: rest), s.calls,
                  (frame, (probeStackWarp cfg s.maps hook k').2) :: s.returns⟩ : StackRun) = t := by
                simpa [StackRun.step, hstack, hexited, hexit] using hstep
              have hok : frame.Ok cfg := hthread.ok frame List.mem_cons_self
              have htracked : cfg.Tracked frame.point := Or.inl (by rw [hexit]; rfl)
              obtain ⟨pointArgs, filter, haccept, hskip⟩ := hguard frame rest k' hstack hexit
              obtain ⟨hmap, hreport⟩ := probeStackWarp_exit hok.entry hexit haccept
                (hthread.slots frame List.mem_cons_self htracked hexited) hskip
              have hrest := framesOk_cleared hthread htracked
              refine stackInv_move hs ?_ ⟨?_, ?_, ?_⟩ ?_
              · intro tid hne j
                rw [hmap, pointSlot_delRegs_ne _ (Or.inr hne)]
              · intro f hin
                rcases List.mem_cons.mp hin with rfl | hold
                · exact ⟨hok.entry, hok.single, fun _ => by rw [hexit]; rfl⟩
                · exact hrest.ok f hold
              · exact List.pairwise_cons.mpr
                  ⟨(List.pairwise_cons.mp hthread.distinct).1, hrest.distinct⟩
              · intro f hin ht hex
                rcases List.mem_cons.mp hin with rfl | hold
                · simp at hex
                · rw [hmap]
                  exact hrest.slots f hold ht hex
              · intro x hx
                rcases List.mem_cons.mp hx with rfl | hold
                · exact hreport
                · exact hs.returns x hold

private theorem stackInv_ret {cfg : StackMaps} {s t : StackRun} {hook : StackHook}
    (hs : s.Inv cfg) (hguard : s.OneSlotPerCall cfg (.ret hook))
    (hstep : s.step cfg (.ret hook) = some t) : t.Inv cfg := by
  have hthread := hs.frames hook.task.hostTid
  cases hstack : s.stack hook.task.hostTid with
  | nil => simp [StackRun.step, hstack] at hstep
  | cons frame rest =>
      rw [hstack] at hthread
      have hok : frame.Ok cfg := hthread.ok frame List.mem_cons_self
      simp only [StackRun.step, hstack] at hstep
      split at hstep
      · exact absurd hstep (by simp)
      · cases huret : cfg.uretprobe frame.point with
        | false =>
            obtain rfl :
                ({ s with stack := s.setStack hook.task.hostTid rest } : StackRun) = t := by
              simpa [huret] using hstep
            exact stackInv_move hs (fun _ _ _ => rfl) hthread.tail hs.returns
        | true =>
            obtain rfl : (⟨(uretprobeStackWarp cfg s.maps hook frame.point).1,
                s.setStack hook.task.hostTid rest, s.calls,
                (frame, (uretprobeStackWarp cfg s.maps hook frame.point).2) :: s.returns⟩ :
                  StackRun) = t := by
              simpa [huret] using hstep
            have htracked : cfg.Tracked frame.point := Or.inr huret
            -- the exit offset has not emptied the slot: the point has none
            have hexited : frame.exited = false := by
              by_contra hne
              exact hok.single ⟨hok.exited (by simpa using hne), huret⟩
            obtain ⟨pointArgs, filter, haccept, hskip⟩ := hguard frame rest hstack huret
            obtain ⟨hmap, hreport⟩ := uretprobeStackWarp_exit hok.entry huret haccept
              (hthread.slots frame List.mem_cons_self htracked hexited) hskip
            refine stackInv_move hs ?_ ?_ ?_
            · intro tid hne j
              rw [hmap, pointSlot_delRegs_ne _ (Or.inr hne)]
            · rw [hmap]
              exact framesOk_cleared hthread htracked
            · intro x hx
              rcases List.mem_cons.mp hx with rfl | hold
              · exact hreport
              · exact hs.returns x hold

theorem stackInv_keeps (cfg : StackMaps) :
    (stackMachine cfg).Keeps (StackRun.OneSlotPerCall cfg) (StackRun.Inv cfg) := by
  intro s a t hs hguard hstep
  cases a with
  | call hook k => exact stackInv_call hs hguard hstep
  | exitOffset hook => exact stackInv_exitOffset hs hguard hstep
  | ret hook => exact stackInv_ret hs hguard hstep
  | fork e =>
      obtain rfl := Option.some.inj hstep
      exact ⟨hs.frames, hs.returns⟩

/-- **Returns report their own entry.** In every well-nested run of any threads, every return
of a point with a uretprobe and every pass of an exit offset submits an event on the
registers saved at the entry of that same call, as long as every step keeps one slot for each
open call. -/
theorem returns_report_own_entry (cfg : StackMaps) (childParentMap : ChildParentMap)
    (opCtx : Nat → OpCtx) (actions : List StackAction) (s : StackRun)
    (hguard : (stackMachine cfg).Guarded (StackRun.OneSlotPerCall cfg)
      (StackRun.init childParentMap opCtx) actions)
    (hrun : (stackMachine cfg).run (StackRun.init childParentMap opCtx) actions = some s) :
    s.ReturnsReportOwnEntry := by
  refine (Machine.run_invariant (stackInv_keeps cfg) actions _ s ⟨?_, ?_⟩ hguard hrun).returns
  · exact fun tid => framesOk_nil cfg _
  · intro x hx
    exact absurd hx (by simp [StackRun.init])

/-! ### Functions with a uretprobe -/

/-- The list without ops of the point with this entry key. -/
def noOps (enterKey : u32) : PointArgs stackMaxOpCount := ⟨enterKey, 0, Vector.replicate _ 0⟩

/-- Points 0 and 1, each with the `r` suffix and no arguments; uid 1000 is traced. -/
def uretMaps : StackMaps where
  filter := (IdLists.single .uidWhitelist [1000]).toMaps
  uprobePointArgs := (BoundedMap.empty.put 0 (noOps 1)).put 1 (noOps 2)
  uretprobePointArgs := (BoundedMap.empty.put 0 (noOps 1)).put 1 (noOps 2)
  opList := BoundedMap.empty.put 0 ⟨.skip, .skip, .skip, 0⟩
  argFilter := BoundedMap.empty
  entry := fun k => k == 0 || k == 1
  exitPoint := fun _ => none
  uretprobe := fun k => k == 0 || k == 1
  entry_lt := by
    intro k hk
    obtain rfl | rfl : k = 0 ∨ k = 1 := by simpa using hk
    · decide
    · decide
  enterKey_entry := by
    intro k args hk hargs
    obtain rfl | rfl : k = 0 ∨ k = 1 := by simpa using hk
    · obtain rfl := Option.some.inj hargs
      rfl
    · obtain rfl := Option.some.inj hargs
      rfl
  enterKey_exit := fun k k' args h => by simp at h
  enterKey_uret := by
    intro k args hk hargs
    obtain rfl | rfl : k = 0 ∨ k = 1 := by simpa using hk
    · obtain rfl := Option.some.inj hargs
      rfl
    · obtain rfl := Option.some.inj hargs
      rfl

/-- Thread 42 at a probe, with `x0` in the first register. -/
def thread42 (x0 : u64) : StackHook where
  cpu := 0
  task := ⟨false, 42, ⟨42, 42, 1000, Vector.replicate 16 0⟩⟩
  mem := fun _ => none
  regs := .ofX0 x0

/-- The state before any probe has run. -/
def freshStack : StackRun := StackRun.init BoundedMap.empty fun _ => OpCtx.cleared

/-- The function calls itself once; the inner call returns first. -/
def recursiveCall : List StackAction :=
  [.call (thread42 1) 0, .call (thread42 2) 0, .ret (thread42 20), .ret (thread42 10)]

/-- The inner return uses up the only slot, and the outer return submits nothing. -/
theorem recursiveCall_loses_return :
    ∃ s, (stackMachine uretMaps).run freshStack recursiveCall = some s ∧
      (⟨0, (thread42 1).saved, false⟩, none) ∈ s.returns := by
  refine ⟨_, rfl, ?_⟩
  decide +kernel

/-- The first function calls the second one, which returns first. -/
def nestedCall : List StackAction :=
  [.call (thread42 1) 0, .call (thread42 2) 1, .ret (thread42 20), .ret (thread42 10)]

theorem nestedCall_oneSlot :
    (stackMachine uretMaps).Guarded (StackRun.OneSlotPerCall uretMaps) freshStack
      nestedCall := by
  refine (Machine.guarded_cons_iff rfl).mpr ⟨fun _ => ⟨List.forall_mem_nil _, ?_, ?_, ?_⟩, ?_⟩
  · exact Or.inr (by decide)
  · decide +kernel
  · simp [uretMaps]
  -- the call inside is of another point, and so it has a slot of its own
  refine (Machine.guarded_cons_iff rfl).mpr
    ⟨fun _ => ⟨List.forall_mem_singleton.mpr (by decide), ?_, ?_, ?_⟩, ?_⟩
  · exact Or.inr (by decide +kernel)
  · decide +kernel
  · simp [uretMaps]
  refine (Machine.guarded_cons_iff rfl).mpr ⟨?_, ?_⟩
  · rintro frame rest hstack _
    obtain ⟨rfl, rfl⟩ := List.cons.inj hstack
    exact ⟨noOps 2, ⟨0, 0, 1⟩, rfl, rfl⟩
  refine (Machine.guarded_cons_iff rfl).mpr ⟨?_, trivial⟩
  rintro frame rest hstack _
  obtain ⟨rfl, rfl⟩ := List.cons.inj hstack
  exact ⟨noOps 1, ⟨0, 0, 1⟩, rfl, rfl⟩

/-- Each of the two calls reports its own registers. -/
theorem nestedCall_reports_own_entry :
    ∃ s, (stackMachine uretMaps).run freshStack nestedCall = some s ∧
      s.returns.map (fun x => x.1.regs) = [(thread42 1).saved, (thread42 2).saved] ∧
      s.ReturnsReportOwnEntry :=
  ⟨_, rfl, rfl, returns_report_own_entry uretMaps BoundedMap.empty (fun _ => OpCtx.cleared)
    nestedCall _ nestedCall_oneSlot rfl⟩

end Stackplz
