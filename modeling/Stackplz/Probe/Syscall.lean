import Stackplz.Basic.Machine
import Stackplz.Probe.Arguments
import Stackplz.Probe.Filtering
import Stackplz.Probe.Fork

/-!
# System call entry and exit

`raw_syscalls_sys_enter` and `raw_syscalls_sys_exit` (`syscall.c`). The entry saves the
registers of the thread, the exit loads and deletes them and evaluates the arguments of the
exit event on them. The filters run on both sides, on what the thread is at that moment.
`exits_report_own_enter` says when every exit event reports its own invocation.
-/

set_option autoImplicit false

namespace Stackplz

/-! ## The handlers -/

/-- The read-only maps of the system call object. -/
structure SyscallMaps where
  filter : FilterMaps
  sysenterPointArgs : BoundedMap u32 (PointArgs syscallMaxOpCount) 512
  sysexitPointArgs : BoundedMap u32 (PointArgs syscallMaxOpCount) 512
  opList : OpListMap
  argFilter : ArgFilterMap

/-- The maps the handlers write. `op_ctx_map` is per CPU and has two entries. -/
structure SyscallState where
  childParentMap : ChildParentMap
  ctxRegsMap : CtxRegsMap
  opCtx : Nat → Fin 2 → OpCtx
  strBuf : StrBufMap

/-- What a system call hook sees. -/
structure SyscallHook where
  cpu : Nat
  task : Task
  mem : UserMem
  regs : CtxRegs
  sysno : u32

/-- The checks both hooks start with, in their order: 64-bit task, `should_trace`, an op list
for the system call, and the common filter. -/
def SyscallMaps.accept (maps : SyscallMaps)
    (pointArgs : BoundedMap u32 (PointArgs syscallMaxOpCount) 512)
    (childParentMap : ChildParentMap) (hook : SyscallHook) :
    Option (PointArgs syscallMaxOpCount × CommonFilter) :=
  if hook.task.is32 then none
  else if !shouldTrace { maps.filter with childParentMap := childParentMap } hook.task.context
  then none
  else do
    let args ← pointArgs.lookup hook.sysno
    let filter ← maps.filter.commonFilter
    return (args, filter)

/-- The white and black list of system call numbers. -/
def SyscallMaps.acceptSysno (maps : SyscallMaps) (filter : CommonFilter) (sysno : u32) : Bool :=
  !(filter.traceMode == traceCommon && !sysnoWhitelisted maps.filter sysno) &&
    !sysnoBlacklisted maps.filter sysno

def SyscallMaps.env (maps : SyscallMaps) (hook : SyscallHook) (regs : CtxRegs) : ProbeEnv :=
  ⟨hook.mem, regs, maps.opList, maps.argFilter⟩

def SyscallState.setOpCtx (s : SyscallState) (cpu : Nat) (index : Fin 2) (ctx : OpCtx) :
    Nat → Fin 2 → OpCtx :=
  fun c i => if c = cpu ∧ i = index then ctx else s.opCtx c i

/-- The record of `op_ctx` that the `sys_enter` hook of a cpu works on. -/
abbrev SyscallState.enterCtx (s : SyscallState) (cpu : Nat) : OpCtx := s.opCtx cpu 0

/-- The record of the `sys_exit` hook. -/
abbrev SyscallState.exitCtx (s : SyscallState) (cpu : Nat) : OpCtx := s.opCtx cpu 1

/-- How a `sys_enter` hook ends: turned away before the registers are saved, skipped by an
argument filter, or with a submitted event. -/
inductive EnterOutcome where
  | filtered
  | skipped
  | submitted (bytes : List u8)
deriving DecidableEq

/-- `raw_syscalls_sys_enter`. -/
def sysEnter (maps : SyscallMaps) (s : SyscallState) (hook : SyscallHook) :
    SyscallState × EnterOutcome :=
  match maps.accept maps.sysenterPointArgs s.childParentMap hook with
  | none => (s, .filtered)
  | some (pointArgs, filter) =>
      if !maps.acceptSysno filter hook.sysno then (s, .filtered)
      else
        let savedRegs : CtxRegs := { hook.regs with flag := 0 }
        let ctxRegsMap := saveRegs s.ctxRegsMap savedRegs syscallEnter hook.task.hostTid
        let event := saveHead filter hook.sysno hook.regs EventData.init
        let st := Probe.sysEnter.run (maps.env hook savedRegs) pointArgs (hook.regs.get 0)
          (s.opCtx hook.cpu 0) event s.strBuf
        if st.ctx.skipFlag then
          let flagged : CtxRegs := { savedRegs with flag := 1 }
          ({ s with
              ctxRegsMap := saveRegs ctxRegsMap flagged syscallEnter hook.task.hostTid
              opCtx := s.setOpCtx hook.cpu 0 { st.ctx with skipFlag := false }
              strBuf := st.strBuf }, .skipped)
        else
          ({ s with
              ctxRegsMap := ctxRegsMap
              opCtx := s.setOpCtx hook.cpu 0 st.ctx
              strBuf := st.strBuf }, .submitted st.event.args)

/-- A submitted `SYSCALL_EXIT` event: its bytes, and the registers its arguments were
evaluated on. -/
structure ExitEvent where
  savedRegs : CtxRegs
  bytes : List u8
deriving DecidableEq

/-- `raw_syscalls_sys_exit`. -/
def sysExit (maps : SyscallMaps) (s : SyscallState) (hook : SyscallHook) :
    SyscallState × Option ExitEvent :=
  match maps.accept maps.sysexitPointArgs s.childParentMap hook with
  | none => (s, none)
  | some (pointArgs, filter) =>
      match loadRegs s.ctxRegsMap syscallEnter hook.task.hostTid with
      | none => (s, none)
      | some savedRegs =>
          let s := { s with ctxRegsMap := delRegs s.ctxRegsMap syscallEnter hook.task.hostTid }
          if savedRegs.flag = 1 then (s, none)
          else if !maps.acceptSysno filter hook.sysno then (s, none)
          else
            let event :=
              (saveToSubmitBuf EventData.init (LittleEndian.ofWord 4 hook.sysno) 0).1
            let st := Probe.sysExit.run (maps.env hook savedRegs) pointArgs (hook.regs.get 0)
              (s.opCtx hook.cpu 1) event s.strBuf
            if st.ctx.skipFlag then
              ({ s with
                  opCtx := s.setOpCtx hook.cpu 1 { st.ctx with skipFlag := false }
                  strBuf := st.strBuf }, none)
            else
              let ret := LittleEndian.ofWord 8 (hook.regs.get 0)
              let event := (saveToSubmitBuf st.event ret st.ctx.saveIndex).1
              ({ s with opCtx := s.setOpCtx hook.cpu 1 st.ctx, strBuf := st.strBuf },
                some ⟨savedRegs, event.args⟩)

/-! ### What the handlers do to the saved registers -/

/-- The registers of a hook as `save_regs` stores them. -/
def SyscallHook.saved (hook : SyscallHook) : CtxRegs := { hook.regs with flag := 0 }

/-- What `sys_enter` leaves in `ctx_regs_map`, by its outcome. -/
theorem sysEnter_ctxRegsMap (maps : SyscallMaps) (s : SyscallState) (hook : SyscallHook) :
    (sysEnter maps s hook).1.ctxRegsMap =
      match (sysEnter maps s hook).2 with
      | .filtered => s.ctxRegsMap
      | .submitted _ => saveRegs s.ctxRegsMap hook.saved syscallEnter hook.task.hostTid
      | .skipped => saveRegs (saveRegs s.ctxRegsMap hook.saved syscallEnter hook.task.hostTid)
          { hook.saved with flag := 1 } syscallEnter hook.task.hostTid := by
  unfold sysEnter
  cases maps.accept maps.sysenterPointArgs s.childParentMap hook with
  | none => rfl
  | some accepted =>
      obtain ⟨pointArgs, filter⟩ := accepted
      by_cases hsys : maps.acceptSysno filter hook.sysno
      · simp only [hsys, Bool.not_true, Bool.false_eq_true, if_false]
        split
        · rfl
        · rfl
      · simp [hsys]

/-- `sys_enter` of a call that passes the filters and is not skipped. -/
theorem sysEnter_of_accept {maps : SyscallMaps} {s : SyscallState} {hook : SyscallHook}
    {pointArgs : PointArgs syscallMaxOpCount} {filter : CommonFilter}
    (haccept : maps.accept maps.sysenterPointArgs s.childParentMap hook =
      some (pointArgs, filter))
    (hsys : maps.acceptSysno filter hook.sysno = true)
    (hskip : (Probe.sysEnter.run (maps.env hook hook.saved) pointArgs (hook.regs.get 0)
      (s.opCtx hook.cpu 0) (saveHead filter hook.sysno hook.regs EventData.init)
      s.strBuf).ctx.skipFlag = false) :
    let st := Probe.sysEnter.run (maps.env hook hook.saved) pointArgs (hook.regs.get 0)
      (s.opCtx hook.cpu 0) (saveHead filter hook.sysno hook.regs EventData.init) s.strBuf
    sysEnter maps s hook =
      ({ s with
          ctxRegsMap := saveRegs s.ctxRegsMap hook.saved syscallEnter hook.task.hostTid
          opCtx := s.setOpCtx hook.cpu 0 st.ctx
          strBuf := st.strBuf }, .submitted st.event.args) := by
  intro st
  unfold sysEnter
  rw [haccept]
  simp only [hsys, Bool.not_true, Bool.false_eq_true, if_false]
  exact if_neg (Bool.eq_false_iff.mp hskip)

/-- The slot of the exiting thread after `sys_exit`: as before, or empty. Other slots stay. -/
theorem sysExit_ctxRegsMap (maps : SyscallMaps) (s : SyscallState) (hook : SyscallHook) :
    (sysExit maps s hook).1.ctxRegsMap = s.ctxRegsMap ∨
      (sysExit maps s hook).1.ctxRegsMap =
        delRegs s.ctxRegsMap syscallEnter hook.task.hostTid := by
  unfold sysExit
  cases maps.accept maps.sysexitPointArgs s.childParentMap hook with
  | none => exact Or.inl rfl
  | some accepted =>
      obtain ⟨pointArgs, filter⟩ := accepted
      cases loadRegs s.ctxRegsMap syscallEnter hook.task.hostTid with
      | none => exact Or.inl rfl
      | some savedRegs =>
          refine Or.inr ?_
          by_cases hflag : savedRegs.flag = 1
          · simp [hflag]
          · by_cases hsys : maps.acceptSysno filter hook.sysno
            · simp only [hflag, hsys, Bool.not_true, Bool.false_eq_true, if_false]
              split
              · rfl
              · rfl
            · simp [hsys]

/-- The exit hook is not turned away by any filter that comes before the arguments. -/
def SyscallMaps.acceptsExit (maps : SyscallMaps) (s : SyscallState) (hook : SyscallHook) : Bool :=
  match maps.accept maps.sysexitPointArgs s.childParentMap hook with
  | none => false
  | some (_, filter) => maps.acceptSysno filter hook.sysno

/-- An exit event is submitted only past all filters, on registers found in the slot of the
thread, and these are not flagged. -/
theorem sysExit_eq_some {maps : SyscallMaps} {s : SyscallState} {hook : SyscallHook}
    {e : ExitEvent} (h : (sysExit maps s hook).2 = some e) :
    maps.acceptsExit s hook = true ∧
      loadRegs s.ctxRegsMap syscallEnter hook.task.hostTid = some e.savedRegs ∧
      e.savedRegs.flag ≠ 1 := by
  unfold sysExit at h
  unfold SyscallMaps.acceptsExit
  cases haccept : maps.accept maps.sysexitPointArgs s.childParentMap hook with
  | none => simp [haccept] at h
  | some accepted =>
      obtain ⟨pointArgs, filter⟩ := accepted
      cases hload : loadRegs s.ctxRegsMap syscallEnter hook.task.hostTid with
      | none => simp [haccept, hload] at h
      | some savedRegs =>
          by_cases hflag : savedRegs.flag = 1
          · simp [haccept, hload, hflag] at h
          · by_cases hsys : maps.acceptSysno filter hook.sysno
            · simp only [haccept, hload, hflag, hsys, Bool.not_true, Bool.false_eq_true,
                if_false] at h
              split at h
              · exact absurd h (by simp)
              · obtain rfl := Option.some.inj h
                exact ⟨hsys, rfl, hflag⟩
            · simp [haccept, hload, hsys] at h

/-! ## Runs of many threads -/

/-- A system call a thread is inside of: the registers at its entry as they would be saved,
and how its `sys_enter` ended. -/
structure Invocation where
  regs : CtxRegs
  outcome : EnterOutcome
deriving DecidableEq

/-- The maps, the invocation each thread is inside of, and every exit event submitted so
far with the invocation it ended. -/
structure SyscallRun where
  maps : SyscallState
  thread : u32 → Option Invocation
  exits : List (Invocation × ExitEvent)

/-- One step: a thread enters or leaves a system call, with whatever name, uid and mode it
has then, dies inside one, or forks. -/
inductive SyscallAction where
  | enter (hook : SyscallHook)
  | exit (hook : SyscallHook)
  | die (tid : u32)
  | fork (e : ForkEvent)

def SyscallRun.setThread (s : SyscallRun) (tid : u32) (inv : Option Invocation) :
    u32 → Option Invocation :=
  fun t => if t = tid then inv else s.thread t

/-- A thread alternates between entering and leaving. -/
def SyscallRun.step (cfg : SyscallMaps) (s : SyscallRun) : SyscallAction → Option SyscallRun
  | .enter hook =>
      match s.thread hook.task.hostTid with
      | some _ => none
      | none =>
          let (maps, outcome) := sysEnter cfg s.maps hook
          some { s with
            maps := maps, thread := s.setThread hook.task.hostTid (some ⟨hook.saved, outcome⟩) }
  | .exit hook =>
      match s.thread hook.task.hostTid with
      | none => none
      | some inv =>
          let (maps, event) := sysExit cfg s.maps hook
          some ⟨maps, s.setThread hook.task.hostTid none,
            (event.toList.map fun e => (inv, e)) ++ s.exits⟩
  | .die tid => some { s with thread := s.setThread tid none }
  | .fork e => some { s with
      maps := { s.maps with childParentMap := schedProcessFork s.maps.childParentMap e } }

def syscallMachine (cfg : SyscallMaps) : Machine SyscallRun SyscallAction := ⟨SyscallRun.step cfg⟩

/-- Empty maps but for the followed pids, and every thread outside of system calls. -/
def SyscallRun.init (childParentMap : ChildParentMap) (opCtx : Nat → Fin 2 → OpCtx) :
    SyscallRun :=
  ⟨⟨childParentMap, BoundedMap.empty, opCtx, BoundedMap.empty⟩, fun _ => none, []⟩

/-- Every exit event belongs to an invocation whose own entry was submitted, and reports the
registers saved there. -/
def SyscallRun.ExitsReportOwnEnter (s : SyscallRun) : Prop :=
  ∀ x ∈ s.exits, (∃ bytes, x.1.outcome = .submitted bytes) ∧ x.2.savedRegs = x.1.regs

/-- An exit that passes the filters although its entry was turned away finds no registers in
the slot of its thread, or flagged ones. -/
def SyscallRun.NoStaleExit (cfg : SyscallMaps) (s : SyscallRun) : SyscallAction → Prop
  | .exit hook => ∀ inv, s.thread hook.task.hostTid = some inv → inv.outcome = .filtered →
      cfg.acceptsExit s.maps hook = true →
      ∀ saved, loadRegs s.maps.ctxRegsMap syscallEnter hook.task.hostTid = some saved →
        saved.flag = 1
  | _ => True

/-- What the slot of a thread holds for the invocation the thread is inside of. -/
def Invocation.SlotOk (inv : Invocation) (slot : Option CtxRegs) : Prop :=
  match inv.outcome with
  | .filtered => True
  | .submitted _ => slot = none ∨ slot = some inv.regs
  | .skipped => slot = none ∨ ∃ r, slot = some r ∧ r.flag = 1

structure SyscallRun.Inv (s : SyscallRun) : Prop where
  slots : ∀ tid inv, s.thread tid = some inv →
    inv.SlotOk (loadRegs s.maps.ctxRegsMap syscallEnter tid)
  exits : s.ExitsReportOwnEnter

/-! ### The steps -/

theorem setThread_cases (s : SyscallRun) (tid t : u32) (inv : Option Invocation) :
    (t = tid ∧ s.setThread tid inv t = inv) ∨
      (t ≠ tid ∧ s.setThread tid inv t = s.thread t) := by
  by_cases h : t = tid
  · exact Or.inl ⟨h, if_pos h⟩
  · exact Or.inr ⟨h, if_neg h⟩

/-- `sys_enter` leaves the slots of other threads alone. -/
theorem sysEnter_other_slot (maps : SyscallMaps) (s : SyscallState) (hook : SyscallHook)
    {tid : u32} (h : tid ≠ hook.task.hostTid) :
    loadRegs (sysEnter maps s hook).1.ctxRegsMap syscallEnter tid =
      loadRegs s.ctxRegsMap syscallEnter tid := by
  rw [sysEnter_ctxRegsMap]
  cases (sysEnter maps s hook).2 with
  | filtered => rfl
  | submitted bytes => exact loadRegs_saveRegs_ne _ _ (Or.inr h)
  | skipped =>
      rw [loadRegs_saveRegs_ne _ _ (Or.inr h), loadRegs_saveRegs_ne _ _ (Or.inr h)]

/-- `sys_enter` leaves its own slot right for the invocation it opens. -/
theorem sysEnter_own_slot (maps : SyscallMaps) (s : SyscallState) (hook : SyscallHook) :
    (Invocation.mk hook.saved (sysEnter maps s hook).2).SlotOk
      (loadRegs (sysEnter maps s hook).1.ctxRegsMap syscallEnter hook.task.hostTid) := by
  rw [sysEnter_ctxRegsMap]
  cases (sysEnter maps s hook).2 with
  | filtered => trivial
  | submitted bytes => exact (loadRegs_saveRegs _ _ _ _).symm
  | skipped =>
      rcases loadRegs_saveRegs (saveRegs s.ctxRegsMap hook.saved syscallEnter hook.task.hostTid)
        { hook.saved with flag := 1 } syscallEnter hook.task.hostTid with hsome | hnone
      · exact Or.inr ⟨_, hsome, rfl⟩
      · exact Or.inl hnone

/-- `sys_exit` leaves the slots of other threads alone. -/
theorem sysExit_other_slot (maps : SyscallMaps) (s : SyscallState) (hook : SyscallHook)
    {tid : u32} (h : tid ≠ hook.task.hostTid) :
    loadRegs (sysExit maps s hook).1.ctxRegsMap syscallEnter tid =
      loadRegs s.ctxRegsMap syscallEnter tid := by
  rcases sysExit_ctxRegsMap maps s hook with hsame | hdel
  · rw [hsame]
  · rw [hdel, loadRegs_delRegs_ne _ (Or.inr h)]

private theorem syscallInv_enter {cfg : SyscallMaps} {s t : SyscallRun} {hook : SyscallHook}
    (hs : s.Inv) (hstep : s.step cfg (.enter hook) = some t) : t.Inv := by
  cases hthread : s.thread hook.task.hostTid with
  | some inv => simp [SyscallRun.step, hthread] at hstep
  | none =>
      obtain rfl : (⟨(sysEnter cfg s.maps hook).1,
          s.setThread hook.task.hostTid (some ⟨hook.saved, (sysEnter cfg s.maps hook).2⟩),
          s.exits⟩ : SyscallRun) = t := by
        simpa [SyscallRun.step, hthread] using hstep
      refine ⟨?_, hs.exits⟩
      intro tid inv hinv
      rcases setThread_cases s hook.task.hostTid tid
        (some ⟨hook.saved, (sysEnter cfg s.maps hook).2⟩) with ⟨rfl, hself⟩ | ⟨hne, hother⟩
      · obtain rfl := Option.some.inj (hself.symm.trans hinv)
        exact sysEnter_own_slot cfg s.maps hook
      · rw [sysEnter_other_slot cfg s.maps hook hne]
        exact hs.slots tid inv (hother.symm.trans hinv)

private theorem syscallInv_exit {cfg : SyscallMaps} {s t : SyscallRun} {hook : SyscallHook}
    (hs : s.Inv) (hguard : s.NoStaleExit cfg (.exit hook))
    (hstep : s.step cfg (.exit hook) = some t) : t.Inv := by
  cases hthread : s.thread hook.task.hostTid with
  | none => simp [SyscallRun.step, hthread] at hstep
  | some inv =>
      obtain rfl : (⟨(sysExit cfg s.maps hook).1, s.setThread hook.task.hostTid none,
          ((sysExit cfg s.maps hook).2.toList.map fun e => (inv, e)) ++ s.exits⟩ :
            SyscallRun) = t := by
        simpa [SyscallRun.step, hthread] using hstep
      constructor
      · intro tid other hother
        rcases setThread_cases s hook.task.hostTid tid none with ⟨_, hself⟩ | ⟨hne, hsame⟩
        · exact absurd (hself.symm.trans hother) (by simp)
        · rw [sysExit_other_slot cfg s.maps hook hne]
          exact hs.slots tid other (hsame.symm.trans hother)
      · intro x hx
        rcases List.mem_append.mp hx with hnew | hold
        · obtain ⟨e, he, rfl⟩ := List.mem_map.mp hnew
          obtain ⟨haccept, hload, hflag⟩ := sysExit_eq_some (Option.mem_toList.mp he)
          have hslot := hs.slots _ inv hthread
          rw [hload] at hslot
          -- only a submitted entry leaves unflagged registers behind
          cases hout : inv.outcome with
          | filtered => exact absurd (hguard inv hthread hout haccept _ hload) hflag
          | skipped =>
              obtain ⟨r, hr, hrflag⟩ : ∃ r, some e.savedRegs = some r ∧ r.flag = 1 := by
                simpa [Invocation.SlotOk, hout] using hslot
              exact absurd (Option.some.inj hr ▸ hrflag) hflag
          | submitted bytes =>
              have hown : e.savedRegs = inv.regs := by
                simpa [Invocation.SlotOk, hout] using hslot
              exact ⟨⟨bytes, rfl⟩, hown⟩
        · exact hs.exits x hold

theorem syscallInv_keeps (cfg : SyscallMaps) :
    (syscallMachine cfg).Keeps (SyscallRun.NoStaleExit cfg) SyscallRun.Inv := by
  intro s a t hs hguard hstep
  cases a with
  | enter hook => exact syscallInv_enter hs hstep
  | exit hook => exact syscallInv_exit hs hguard hstep
  | die tid =>
      obtain rfl := Option.some.inj hstep
      refine ⟨?_, hs.exits⟩
      intro t inv hinv
      rcases setThread_cases s tid t none with ⟨_, hself⟩ | ⟨_, hsame⟩
      · exact absurd (hself.symm.trans hinv) (by simp)
      · exact hs.slots t inv (hsame.symm.trans hinv)
  | fork e =>
      obtain rfl := Option.some.inj hstep
      exact ⟨hs.slots, hs.exits⟩

/-- **Exit events report their own entry.** In every run of any threads, every submitted exit
event reports the registers saved at the entry of its own invocation, and that entry was
submitted, as long as no exit passes the filters on registers left over from an earlier
invocation while its own entry was turned away. -/
theorem exits_report_own_enter (cfg : SyscallMaps) (childParentMap : ChildParentMap)
    (opCtx : Nat → Fin 2 → OpCtx) (actions : List SyscallAction) (s : SyscallRun)
    (hguard : (syscallMachine cfg).Guarded (SyscallRun.NoStaleExit cfg)
      (SyscallRun.init childParentMap opCtx) actions)
    (hrun : (syscallMachine cfg).run (SyscallRun.init childParentMap opCtx) actions = some s) :
    s.ExitsReportOwnEnter := by
  refine (Machine.run_invariant (syscallInv_keeps cfg) actions _ s ⟨?_, ?_⟩ hguard hrun).exits
  · intro tid inv hinv
    exact absurd hinv (by simp [SyscallRun.init])
  · intro x hx
    exact absurd hx (by simp [SyscallRun.init])

/-! ### A thread that changes its uid inside system calls -/

/-- Trace every system call of uid 1000; `setuid` has empty op lists. -/
def traceUid1000 : SyscallMaps where
  filter := { (IdLists.single .uidWhitelist [1000]).toMaps with commonFilter := some ⟨0, 1, 1⟩ }
  sysenterPointArgs := BoundedMap.empty.put 146 ⟨0, 0, Vector.replicate _ 0⟩
  sysexitPointArgs := BoundedMap.empty.put 146 ⟨0, 0, Vector.replicate _ 0⟩
  opList := BoundedMap.empty.put 0 ⟨.skip, .skip, .skip, 0⟩
  argFilter := BoundedMap.empty

/-- Thread 42 under the given uid at a `setuid` hook, with `x0` in the first register. -/
def setuidHook (uid : u32) (x0 : u64) : SyscallHook where
  cpu := 0
  task := ⟨false, 42, ⟨42, 42, uid, Vector.replicate 16 0⟩⟩
  mem := fun _ => none
  regs := .ofX0 x0
  sysno := 146

/-- The state before any hook has run. -/
def freshRun : SyscallRun := SyscallRun.init BoundedMap.empty fun _ _ => OpCtx.cleared

/-- The uid changes from 1000 to 0 inside one call and back inside the next. -/
def uidFlips : List SyscallAction :=
  [.enter (setuidHook 1000 0), .exit (setuidHook 0 0), .enter (setuidHook 0 1000),
    .exit (setuidHook 1000 0)]

/-- The second exit is submitted with the registers of the first entry, although its own
entry was turned away. -/
theorem uidFlips_report_stale_regs :
    ∃ s inv e, (syscallMachine traceUid1000).run freshRun uidFlips = some s ∧
      (inv, e) ∈ s.exits ∧ inv.outcome = .filtered ∧ inv.regs.get 0 = 1000 ∧
      e.savedRegs.get 0 = 0 := by
  refine ⟨_, ⟨(setuidHook 0 1000).saved, .filtered⟩, _, rfl, List.mem_cons_self, rfl, ?_, ?_⟩
  · decide +kernel
  · decide +kernel

/-- The uid is 1000 at both ends of the first call, and only at the exit of the second. -/
def uidReturns : List SyscallAction :=
  [.enter (setuidHook 1000 5), .exit (setuidHook 1000 0), .enter (setuidHook 0 7),
    .exit (setuidHook 1000 0)]

/-- The exit of the second call passes the filters and finds the slot empty. -/
theorem uidReturns_noStaleExit :
    (syscallMachine traceUid1000).Guarded (SyscallRun.NoStaleExit traceUid1000) freshRun
      uidReturns := by
  refine (Machine.guarded_cons_iff rfl).mpr ⟨trivial, ?_⟩
  refine (Machine.guarded_cons_iff rfl).mpr ⟨fun inv hinv hout => ?_, ?_⟩
  · obtain rfl := Option.some.inj hinv
    exact absurd hout (by decide +kernel)
  refine (Machine.guarded_cons_iff rfl).mpr ⟨trivial, ?_⟩
  refine (Machine.guarded_cons_iff rfl).mpr ⟨fun _ _ _ _ saved hsaved => ?_, trivial⟩
  have hsome : Option.isSome _ = true := congrArg Option.isSome hsaved
  exact absurd hsome (by decide +kernel)

/-- The first call is reported with its own registers, and the second one is not. -/
theorem uidReturns_report_own_enter :
    ∃ s, (syscallMachine traceUid1000).run freshRun uidReturns = some s ∧
      s.exits.map (fun x => x.2.savedRegs) = [(setuidHook 1000 5).saved] ∧
      s.ExitsReportOwnEnter :=
  ⟨_, rfl, by decide +kernel, exits_report_own_enter traceUid1000 BoundedMap.empty
    (fun _ _ => OpCtx.cleared) uidReturns _ uidReturns_noStaleExit rfl⟩

end Stackplz
