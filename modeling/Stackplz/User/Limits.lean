import Stackplz.User.SyscallSample
import Stackplz.User.UprobeSample

/-!
# Limits of the maps and of the events

The BPF maps and the buffer of an event have fixed sizes. Start-up gives up when a map is full or
a point has too many ops, so `syscalls_start_iff` and `uprobes_start_iff` say exactly which
configurations start. The buffer is never the limit of what is submitted: a value that does not
fit is left out, and `submitted_whole` shows that `events_perf_submit` cuts nothing off.
-/

set_option autoImplicit false

namespace Stackplz

/-! ## Which configurations start -/

/-- The limits for the points of the system call module. -/
structure SyscallsFit (m : OpManager) (points : List SyscallPoint) : Prop where
  numbers : (points.map SyscallPoint.nr).dedup.length ≤ 512
  enterOps : ∀ p ∈ points, (argOps p.enterPointArgs).length < syscallMaxOpCount
  exitOps : ∀ p ∈ points, (argOps p.exitPointArgs).length < syscallMaxOpCount
  table : ((m.withPoints (points.map SyscallPoint.enterLoad)).withPoints
    (points.map SyscallPoint.exitLoad)).opList.length ≤ 256

/-- The limits for the points of the uprobe module. Parsing has limited their number. -/
structure UprobesFit (m : OpManager) (points : List UprobeArgs) : Prop where
  enterOps : ∀ p ∈ points, (argOps p.pointArgs).length < stackMaxOpCount
  uretOps : ∀ p ∈ points, p.enableUretprobe = true →
    (argOps p.uretArgs).length < stackMaxOpCount
  table : ((m.withPoints (points.map UprobeArgs.enterLoad)).withPoints
    ((uretPoints points).map UprobeArgs.uretLoad)).opList.length ≤ 256

section Points

variable {m : OpManager}

theorem pointsFit_syscalls {points : List SyscallPoint} :
    PointsFit syscallMaxOpCount 512 m (points.map SyscallPoint.enterLoad)
        (points.map SyscallPoint.exitLoad) ↔
      SyscallsFit m points := by
  constructor
  · intro h
    have hkeys := h.firstKeys
    rw [List.map_map] at hkeys
    exact ⟨hkeys, List.forall_mem_map.mp h.firstOps, List.forall_mem_map.mp h.secondOps, h.table⟩
  · intro h
    refine ⟨List.forall_mem_map.mpr h.enterOps, List.forall_mem_map.mpr h.exitOps, ?_, ?_, h.table⟩
    · rw [List.map_map]
      exact h.numbers
    · rw [List.map_map]
      exact h.numbers

/-- A list of at most six points needs at most six keys. -/
theorem keys_le_six {points : List UprobeArgs} {load : UprobeArgs → PointLoad}
    (hcount : points.length ≤ 6) :
    (((points.map load).map PointLoad.key).dedup).length ≤ 6 := by
  calc (((points.map load).map PointLoad.key).dedup).length
      ≤ ((points.map load).map PointLoad.key).length := (List.dedup_sublist _).length_le
    _ = points.length := by simp
    _ ≤ 6 := hcount

theorem pointsFit_uprobes {points : List UprobeArgs} (hcount : points.length ≤ 6) :
    PointsFit stackMaxOpCount 6 m (points.map UprobeArgs.enterLoad)
        ((uretPoints points).map UprobeArgs.uretLoad) ↔
      UprobesFit m points := by
  have huret : (uretPoints points).length ≤ 6 := (List.length_filter_le _ points).trans hcount
  constructor
  · intro h
    refine ⟨List.forall_mem_map.mp h.firstOps, fun p hp hon => ?_, h.table⟩
    exact List.forall_mem_map.mp h.secondOps p (List.mem_filter.mpr ⟨hp, hon⟩)
  · intro h
    refine ⟨List.forall_mem_map.mpr h.enterOps, List.forall_mem_map.mpr fun p hp => ?_,
      keys_le_six hcount, keys_le_six huret, h.table⟩
    obtain ⟨hp, hon⟩ := List.mem_filter.mp hp
    exact h.uretOps p hp hon

end Points

/-- **Which configurations start the system call module.** -/
theorem syscalls_start_iff {conf : LoadConfig} (hnul : conf.threadNames.NulFree)
    (range : GoRange u32 OpConfig) (m : OpManager) (points : List SyscallPoint) :
    (conf.loadSyscalls range m points).isSome ↔ conf.Fits conf.lists ∧ SyscallsFit m points := by
  unfold LoadConfig.loadSyscalls
  rw [loadMaps_isSome_iff (by decide) (by decide) hnul, pointsFit_syscalls]

theorem syscalls_start_iff_openat :
    openatConf.Fits openatConf.lists ∧ SyscallsFit .init [openatPoint] := by
  have hnul : openatConf.threadNames.NulFree := fun _ he => absurd he List.not_mem_nil
  exact (syscalls_start_iff hnul .entries .init [openatPoint]).mp openatConf_loads

/-- **Which configurations start the uprobe module,** for the points of every start-up that
numbers them by position. -/
theorem uprobes_start_iff {env : ParseEnv} {files : List FileStep} {lib : LibInfo}
    {hooks : List Text} {syscalls syscalls' : List SyscallPoint} {points : List UprobeArgs}
    (hparse : startup env files lib hooks syscalls = .ok (points, syscalls'))
    (hnum : Numbered files hooks) {conf : LoadConfig} (hnul : conf.threadNames.NulFree)
    (range : GoRange u32 OpConfig) (m : OpManager) :
    (conf.loadUprobes range m points).isSome ↔
      conf.Fits conf.lists.withoutSyscalls ∧ UprobesFit m points := by
  have hok := pointsOk_of_numbered hparse hnum
  unfold LoadConfig.loadUprobes
  rw [loadMaps_isSome_iff (by decide) (by decide) hnul, pointsFit_uprobes hok.count]

theorem uprobes_start_iff_open :
    openConf.Fits openConf.lists.withoutSyscalls ∧ UprobesFit .init [openPoint] := by
  have hnul : openConf.threadNames.NulFree := fun _ he => absurd he List.not_mem_nil
  exact (uprobes_start_iff openPoint_parse openPoint_numbered hnul .entries .init).mp
    openConf_loads

/-! ## What is submitted -/

/-- The perf buffer gets the context of the event and all that the program has saved. -/
def SubmittedWhole (id : u32) (event : EventData) (saved : List u8) : Prop :=
  event.args = saved ∧ ∀ c : ContextSource,
    c.eventsPerfSubmit id event = (c.initContext id event).bytes ++ saved

theorem submittedWhole_of_within {id : u32} {event : EventData} {saved : List u8}
    (hargs : event.args = saved) (h : event.Within) : SubmittedWhole id event saved :=
  ⟨hargs, fun c => hargs ▸ eventsPerfSubmit_eq c id h⟩

section Events

variable {maps : SyscallMaps} {s : SyscallState} {hook : SyscallHook} {event : EventData}

theorem enterEvent_within (h : maps.enterEvent s hook = some event) : event.Within := by
  obtain ⟨args, filter, -, -, rfl⟩ := run_of_enterEvent h
  apply run_within
  exact saveHead_within filter hook.sysno hook.regs

theorem exitEvent_within {regs : CtxRegs} (h : maps.exitEvent s hook = some (regs, event)) :
    event.Within := by
  obtain ⟨args, filter, st, -, hrun, -, rfl⟩ := run_of_exitEvent h
  have hnumber : (LittleEndian.ofWord 4 hook.sysno).length ≤ maxElementSize := by
    simp [maxElementSize]
  have hret : (LittleEndian.ofWord 8 (hook.regs.get 0)).length ≤ maxElementSize := by
    simp [maxElementSize]
  -- the number in front, the arguments of the run, and the return value behind them
  apply saveToSubmitBuf_within hret
  rw [hrun]
  apply run_within
  exact saveToSubmitBuf_within hnumber within_init

theorem runEvent_within {maps : StackMaps} {s : StackState} {hook : StackHook} {k : u32}
    {p : Probe} {accepted : Option (PointArgs stackMaxOpCount × CommonFilter)}
    {regsOf : u32 → Option (CtxRegs × CtxRegsMap)} {regs : CtxRegs}
    (h : maps.runEvent p s hook k accepted regsOf = some (regs, event)) : event.Within := by
  obtain ⟨args, filter, -, -, rfl⟩ := run_of_runEvent h
  apply run_within
  exact saveHead_within filter k hook.regs

end Events

/-- **Events are submitted whole.** In every state, whatever the maps hold, each of the four
programs submits all that it has saved. -/
theorem submitted_whole :
    (∀ (maps : SyscallMaps) (s : SyscallState) (hook : SyscallHook),
      (∀ bytes, (sysEnter maps s hook).2 = .submitted bytes →
        ∃ event, maps.enterEvent s hook = some event ∧
          SubmittedWhole syscallEnter event bytes) ∧
      ∀ e, (sysExit maps s hook).2 = some e →
        ∃ event, maps.exitEvent s hook = some (e.savedRegs, event) ∧
          SubmittedWhole syscallExit event e.bytes) ∧
    ∀ (maps : StackMaps) (s : StackState) (hook : StackHook) (k : u32),
      (∀ e, (probeStackWarp maps s hook k).2 = some e →
        ∃ event, maps.probeEvent s hook k = some (e.savedRegs, event) ∧
          SubmittedWhole uprobeEnter event e.bytes) ∧
      ∀ e, (uretprobeStackWarp maps s hook k).2 = some e →
        ∃ event, maps.uretprobeEvent s hook k = some (e.savedRegs, event) ∧
          SubmittedWhole uprobeExit event e.bytes := by
  refine ⟨fun maps s hook => ⟨fun bytes h => ?_, fun e h => ?_⟩,
    fun maps s hook k => ⟨fun e h => ?_, fun e h => ?_⟩⟩
  · obtain ⟨event, hevent, hargs⟩ := sysEnter_submitted_iff.mp h
    exact ⟨event, hevent, submittedWhole_of_within hargs (enterEvent_within hevent)⟩
  · obtain ⟨event, hevent, hargs⟩ := sysExit_eq_some_iff.mp h
    exact ⟨event, hevent, submittedWhole_of_within hargs (exitEvent_within hevent)⟩
  · obtain ⟨event, hevent, hargs⟩ := probeStackWarp_eq_some_iff.mp h
    exact ⟨event, hevent, submittedWhole_of_within hargs (runEvent_within hevent)⟩
  · obtain ⟨event, hevent, hargs⟩ := uretprobeStackWarp_eq_some_iff.mp h
    exact ⟨event, hevent, submittedWhole_of_within hargs (runEvent_within hevent)⟩

end Stackplz
