import Stackplz.Probe.Syscall

/-!
# Entries and exits of the saved registers

`raw_syscalls_sys_enter` stores the registers of a traced call in `ctx_regs_map`, and only a
traced exit of the same thread takes them out. A thread that dies inside a call, as all do that
call `exit`, leaves its entry behind, and the map has room for 1024. `exit_finds_regs_iff` says
of which calls the exit finds the registers; `run_onlyInside` says that entries are left
behind in no other way.
-/

set_option autoImplicit false

namespace Stackplz

/-! ## Calls that return -/

/-- The thread that takes a step. A fork is no step of a thread in a call of interest. -/
def SyscallAction.tid? : SyscallAction → Option u32
  | .enter hook | .exit hook => some hook.task.hostTid
  | .die tid => some tid
  | .fork _ => none

/-- A call in a run: the thread enters it after the steps `front`, other threads take the steps
`inside`, and the thread returns. Both of its hooks pass the filters. -/
structure ReturnedCall (cfg : SyscallMaps) (start before after : SyscallRun)
    (front inside : List SyscallAction) (enter exit : SyscallHook) : Prop where
  reached : (syscallMachine cfg).run start front = some before
  ran : (syscallMachine cfg).run before (.enter enter :: inside) = some after
  others : ∀ a ∈ inside, a.tid? ≠ some enter.task.hostTid
  sameThread : exit.task.hostTid = enter.task.hostTid
  submitted : ∃ bytes, (sysEnter cfg before.maps enter).2 = .submitted bytes
  accepted : cfg.acceptsExit after.maps exit = true

section Step

variable {cfg : SyscallMaps} {s t : SyscallRun}

theorem syscallStep_enter {hook : SyscallHook} (h : s.step cfg (.enter hook) = some t) :
    s.thread hook.task.hostTid = none ∧
      t = ⟨(sysEnter cfg s.maps hook).1,
        s.setThread hook.task.hostTid (some ⟨hook.saved, (sysEnter cfg s.maps hook).2⟩),
        s.exits⟩ := by
  simp only [SyscallRun.step] at h
  split at h
  · cases h
  · rename_i hthread
    exact ⟨hthread, (Option.some.inj h).symm⟩

theorem syscallStep_exit {hook : SyscallHook} (h : s.step cfg (.exit hook) = some t) :
    ∃ inv, s.thread hook.task.hostTid = some inv ∧
      t = ⟨(sysExit cfg s.maps hook).1, s.setThread hook.task.hostTid none,
        ((sysExit cfg s.maps hook).2.toList.map fun e => (inv, e)) ++ s.exits⟩ := by
  simp only [SyscallRun.step] at h
  split at h
  · cases h
  · rename_i inv hthread
    exact ⟨inv, hthread, (Option.some.inj h).symm⟩

/-- A step of another thread leaves the slot of a thread alone. -/
theorem syscallStep_other_slot {a : SyscallAction} {tid : u32} (ha : a.tid? ≠ some tid)
    (h : s.step cfg a = some t) :
    loadRegs t.maps.ctxRegsMap syscallEnter tid =
      loadRegs s.maps.ctxRegsMap syscallEnter tid := by
  have hne {tid' : u32} (htid : some tid' ≠ some tid) : tid ≠ tid' := by
    rintro rfl
    exact htid rfl
  cases a with
  | enter hook =>
      obtain ⟨-, rfl⟩ := syscallStep_enter h
      exact sysEnter_other_slot cfg s.maps hook (hne ha)
  | exit hook =>
      obtain ⟨inv, -, rfl⟩ := syscallStep_exit h
      exact sysExit_other_slot cfg s.maps hook (hne ha)
  | die tid' =>
      obtain rfl := Option.some.inj h
      rfl
  | fork e =>
      obtain rfl := Option.some.inj h
      rfl

/-- Steps of other threads leave the slot of a thread alone. -/
theorem syscallRun_other_slot {tid : u32} {as : List SyscallAction}
    (has : ∀ a ∈ as, a.tid? ≠ some tid) (h : (syscallMachine cfg).run s as = some t) :
    loadRegs t.maps.ctxRegsMap syscallEnter tid =
      loadRegs s.maps.ctxRegsMap syscallEnter tid := by
  induction as generalizing s with
  | nil =>
      obtain rfl := Option.some.inj h
      rfl
  | cons a as ih =>
      obtain ⟨mid, hstep, hrest⟩ := Machine.run_cons_eq_some.mp h
      have hfirst := syscallStep_other_slot (has a (List.mem_cons_self ..)) hstep
      exact (ih (fun b hb => has b (List.mem_cons_of_mem a hb)) hrest).trans hfirst

end Step

/-- Saved registers are found if the map had room for them, and only then. -/
theorem loadRegs_saveRegs_iff (m : CtxRegsMap) (regs : CtxRegs) (eventId tid : u32) :
    loadRegs (saveRegs m regs eventId tid) eventId tid = some regs ↔ RegsRoom m eventId tid := by
  constructor
  · intro hfound
    by_contra hfull
    rw [saveRegs, BoundedMap.put_of_full regs hfull] at hfound
    have hkey : m.HasKey (ctxRegsKey eventId tid) :=
      (BoundedMap.hasKey_iff m _).mpr ⟨regs, hfound⟩
    exact hfull (BoundedMap.hasRoom_of_hasKey hkey)
  · exact loadRegs_saveRegs_self regs

/-- **Which exits find their registers.** In every run of any threads, the exit of a call whose
entry was submitted finds the registers saved there if and only if the map had room for them at
the entry. -/
theorem exit_finds_regs_iff {cfg : SyscallMaps} {childParentMap : ChildParentMap}
    {opCtx : Nat → Fin 2 → OpCtx} {before after : SyscallRun}
    {front inside : List SyscallAction} {enter exit : SyscallHook}
    (call : ReturnedCall cfg (SyscallRun.init childParentMap opCtx) before after front inside
      enter exit) :
    loadRegs after.maps.ctxRegsMap syscallEnter exit.task.hostTid = some enter.saved ↔
      RegsRoom before.maps.ctxRegsMap syscallEnter enter.task.hostTid := by
  obtain ⟨opened, hstep, hrest⟩ := Machine.run_cons_eq_some.mp call.ran
  obtain ⟨bytes, hsubmitted⟩ := call.submitted
  obtain ⟨-, hopened⟩ := syscallStep_enter hstep
  have hsaved : opened.maps.ctxRegsMap =
      saveRegs before.maps.ctxRegsMap enter.saved syscallEnter enter.task.hostTid := by
    rw [hopened, sysEnter_ctxRegsMap, hsubmitted]
  rw [call.sameThread, syscallRun_other_slot call.others hrest, hsaved]
  exact loadRegs_saveRegs_iff before.maps.ctxRegsMap enter.saved syscallEnter enter.task.hostTid

/-! ## What is left behind -/

/-- Every entry belongs to a thread that is inside a call whose entry was traced. -/
def SyscallRun.OnlyInside (s : SyscallRun) : Prop :=
  ∀ key, s.maps.ctxRegsMap.HasKey key → ∃ tid inv, key = ctxRegsKey syscallEnter tid ∧
    s.thread tid = some inv ∧ inv.outcome ≠ .filtered

/-- No thread dies inside a traced call, and no exit of one is turned away. -/
def SyscallRun.LeavesNone (cfg : SyscallMaps) (s : SyscallRun) : SyscallAction → Prop
  | .die tid => ∀ inv, s.thread tid = some inv → inv.outcome = .filtered
  | .exit hook => ∀ inv, s.thread hook.task.hostTid = some inv → inv.outcome ≠ .filtered →
      (cfg.accept cfg.sysexitPointArgs s.maps.childParentMap hook).isSome
  | _ => True

/-- The keys after an entry: the key of the thread is new, if anything is. -/
theorem hasKey_sysEnter {maps : SyscallMaps} {s : SyscallState} {hook : SyscallHook} {key : u64}
    (h : (sysEnter maps s hook).1.ctxRegsMap.HasKey key) : s.ctxRegsMap.HasKey key ∨
      (key = ctxRegsKey syscallEnter hook.task.hostTid ∧
        (sysEnter maps s hook).2 ≠ .filtered) := by
  rw [sysEnter_ctxRegsMap] at h
  cases hout : (sysEnter maps s hook).2 with
  | filtered =>
      rw [hout] at h
      exact Or.inl h
  | submitted bytes =>
      rw [hout] at h
      rcases BoundedMap.hasKey_of_hasKey_put h with hkey | hold
      · exact Or.inr ⟨hkey, by simp⟩
      · exact Or.inl hold
  | skipped =>
      rw [hout] at h
      rcases BoundedMap.hasKey_of_hasKey_put h with hkey | hflag
      · exact Or.inr ⟨hkey, by simp⟩
      · rcases BoundedMap.hasKey_of_hasKey_put hflag with hkey | hold
        · exact Or.inr ⟨hkey, by simp⟩
        · exact Or.inl hold

theorem hasKey_sysExit {maps : SyscallMaps} {s : SyscallState} {hook : SyscallHook} {key : u64}
    (h : (sysExit maps s hook).1.ctxRegsMap.HasKey key) : s.ctxRegsMap.HasKey key := by
  rcases sysExit_ctxRegsMap maps s hook with hsame | hdel
  · rwa [hsame] at h
  · rw [hdel] at h
    exact ((BoundedMap.hasKey_erase s.ctxRegsMap _ key).mp h).2

/-- An exit that is not turned away leaves no entry of its thread. -/
theorem sysExit_own_slot {maps : SyscallMaps} {s : SyscallState} {hook : SyscallHook}
    (h : (maps.accept maps.sysexitPointArgs s.childParentMap hook).isSome) :
    loadRegs (sysExit maps s hook).1.ctxRegsMap syscallEnter hook.task.hostTid = none := by
  obtain ⟨⟨pointArgs, filter⟩, haccept⟩ := Option.isSome_iff_exists.mp h
  unfold sysExit
  rw [haccept]
  cases hload : loadRegs s.ctxRegsMap syscallEnter hook.task.hostTid with
  | none => simp [hload]
  | some savedRegs =>
      by_cases hflag : savedRegs.flag = 1
      · simp [hflag]
      · by_cases hsys : maps.acceptSysno filter hook.sysno
        · simp only [hflag, hsys, Bool.not_true, Bool.false_eq_true, if_false]
          split
          · exact loadRegs_delRegs_self _ _ _
          · exact loadRegs_delRegs_self _ _ _
        · simp [hsys]

theorem onlyInside_keeps (cfg : SyscallMaps) :
    (syscallMachine cfg).Keeps (SyscallRun.LeavesNone cfg) SyscallRun.OnlyInside := by
  intro s a t hs hguard hstep
  cases a with
  | enter hook =>
      obtain ⟨hnone, rfl⟩ := syscallStep_enter hstep
      intro key hkey
      rcases hasKey_sysEnter hkey with hold | ⟨rfl, hout⟩
      · obtain ⟨tid, inv, rfl, hinv, hout⟩ := hs key hold
        have hne : tid ≠ hook.task.hostTid := by
          rintro rfl
          rw [hnone] at hinv
          cases hinv
        exact ⟨tid, inv, rfl, (if_neg hne).trans hinv, hout⟩
      · exact ⟨_, _, rfl, if_pos rfl, hout⟩
  | exit hook =>
      obtain ⟨own, hown, rfl⟩ := syscallStep_exit hstep
      intro key hkey
      obtain ⟨tid, inv, rfl, hinv, hout⟩ := hs key (hasKey_sysExit hkey)
      -- the entry of the exiting thread is gone
      have hne : tid ≠ hook.task.hostTid := by
        rintro rfl
        have hslot := sysExit_own_slot (hguard inv hinv hout)
        exact (BoundedMap.lookup_eq_none _ _).mp hslot hkey
      exact ⟨tid, inv, rfl, (if_neg hne).trans hinv, hout⟩
  | die tid' =>
      obtain rfl := Option.some.inj hstep
      intro key hkey
      obtain ⟨tid, inv, rfl, hinv, hout⟩ := hs key hkey
      have hne : tid ≠ tid' := by
        rintro rfl
        exact hout (hguard inv hinv)
      exact ⟨tid, inv, rfl, (if_neg hne).trans hinv, hout⟩
  | fork e =>
      obtain rfl := Option.some.inj hstep
      exact hs

/-- **No other leak.** In a run in which no thread dies inside a traced call and no exit of one
is turned away, every entry belongs to a thread that is inside a traced call. -/
theorem run_onlyInside {cfg : SyscallMaps} {childParentMap : ChildParentMap}
    {opCtx : Nat → Fin 2 → OpCtx} {as : List SyscallAction} {s : SyscallRun}
    (hguard : (syscallMachine cfg).Guarded (SyscallRun.LeavesNone cfg)
      (SyscallRun.init childParentMap opCtx) as)
    (hrun : (syscallMachine cfg).run (SyscallRun.init childParentMap opCtx) as = some s) :
    s.OnlyInside := by
  refine Machine.run_invariant (onlyInside_keeps cfg) as _ s ?_ hguard hrun
  intro key hkey
  exact absurd hkey (BoundedMap.hasKey_empty key)

/-- Then there is room while fewer than 1024 threads are inside traced calls. -/
theorem SyscallRun.OnlyInside.room {s : SyscallRun} (hs : s.OnlyInside) {tids : List u32}
    (hinside : ∀ tid inv, s.thread tid = some inv → inv.outcome ≠ .filtered → tid ∈ tids)
    (hfew : tids.length < 1024) (tid : u32) : RegsRoom s.maps.ctxRegsMap syscallEnter tid := by
  have hsubset : s.maps.ctxRegsMap.entries.keys ⊆ tids.map (ctxRegsKey syscallEnter) := by
    intro key hkey
    obtain ⟨tid', inv, rfl, hinv, hout⟩ := hs key (AList.mem_keys.mpr hkey)
    exact List.mem_map_of_mem (hinside tid' inv hinv hout)
  have hlen : s.maps.ctxRegsMap.entries.keys.length ≤ tids.length := by
    have hsub := List.subperm_of_subset s.maps.ctxRegsMap.entries.keys_nodup hsubset
    simpa using hsub.length_le
  exact Or.inr (by omega)

/-! ## A thousand threads that exit -/

/-- Trace `exit` and `gettid` of uid 1000; both have empty op lists. -/
def traceExit : SyscallMaps where
  filter := traceUid1000.filter
  sysenterPointArgs := traceUid1000.sysenterPointArgs.put 93 ⟨0, 0, Vector.replicate _ 0⟩ |>.put
    178 ⟨0, 0, Vector.replicate _ 0⟩
  sysexitPointArgs := BoundedMap.empty.put 178 ⟨0, 0, Vector.replicate _ 0⟩
  opList := traceUid1000.opList
  argFilter := traceUid1000.argFilter

/-- A thread of process 1000, at a hook of the given system call. -/
def threadHook (tid sysno : u32) : SyscallHook where
  cpu := 0
  task := ⟨false, tid, ⟨tid, 1000, 1000, Vector.replicate 16 0⟩⟩
  mem := fun _ => none
  regs := .ofX0 0
  sysno := sysno

/-- The threads of process 1000. -/
def nthTid (n : Nat) : u32 := BitVec.ofNat 32 (1000 + n)

/-- The first `n` threads call `exit`, one after the other. -/
def exitingThreads : Nat → List SyscallAction
  | 0 => []
  | n + 1 => exitingThreads n ++
      [.enter (threadHook (nthTid n) 93), .die (nthTid n)]

/-- `op_ctx` after an event without arguments. -/
def spentCtx : OpCtx :=
  { OpCtx.cleared with saveIndex := 4, opKeyIndex := 1, opCode := .skip, postCode := .skip }

/-- The state after the first `n` threads have gone. -/
structure ExitedThreads (n : Nat) (s : SyscallRun) : Prop where
  childParentMap : s.maps.childParentMap = BoundedMap.empty
  strBuf : s.maps.strBuf = BoundedMap.empty
  opCtx : s.maps.opCtx 0 0 = OpCtx.cleared ∨ s.maps.opCtx 0 0 = spentCtx
  thread : ∀ tid, s.thread tid = none
  size : s.maps.ctxRegsMap.size = n
  keys : ∀ tid : u32, s.maps.ctxRegsMap.HasKey (ctxRegsKey syscallEnter tid) → tid.toNat < 1000 + n

/-- An event without arguments is submitted, whatever the leftover of the last one was. -/
theorem run_noArgs {ctx : OpCtx} (hctx : ctx = OpCtx.cleared ∨ ctx = spentCtx) (tid sysno : u32)
    (event : EventData) :
    let st := Probe.sysEnter.run
      (traceExit.env (threadHook tid sysno) (threadHook tid sysno).saved)
      (⟨0, 0, Vector.replicate _ 0⟩ : PointArgs syscallMaxOpCount) 0 ctx event BoundedMap.empty
    st.ctx = spentCtx ∧ st.strBuf = BoundedMap.empty := by
  rcases hctx with rfl | rfl
  · exact ⟨rfl, rfl⟩
  · exact ⟨rfl, rfl⟩

/-- The filters let the first threads pass. -/
theorem accept_threadHook {n : Nat} (hn : n < 1025) {sysno : u32}
    {pointArgs : BoundedMap u32 (PointArgs syscallMaxOpCount) 512}
    {args : PointArgs syscallMaxOpCount} (hargs : pointArgs.lookup sysno = some args) :
    traceExit.accept pointArgs BoundedMap.empty (threadHook (nthTid n) sysno) =
      some (args, ⟨0, 1, 1⟩) := by
  have htrace : ∀ n : Fin 1025, shouldTrace traceExit.filter
      ⟨nthTid n, 1000, 1000, Vector.replicate 16 0⟩ = true := by
    decide +kernel
  have haccept : shouldTrace { traceExit.filter with childParentMap := BoundedMap.empty }
      (threadHook (nthTid n) sysno).task.context = true := htrace ⟨n, hn⟩
  have hlookup : pointArgs.lookup (threadHook (nthTid n) sysno).sysno = some args := hargs
  unfold SyscallMaps.accept
  rw [haccept, hlookup]
  rfl

/-- The exit of `gettid` is not turned away. -/
theorem acceptsExit_threadHook {n : Nat} (hn : n < 1025) {s : SyscallState}
    (hs : s.childParentMap = BoundedMap.empty) :
    traceExit.acceptsExit s (threadHook (nthTid n) 178) = true := by
  have hargs : traceExit.sysexitPointArgs.lookup 178 = some ⟨0, 0, Vector.replicate _ 0⟩ := rfl
  unfold SyscallMaps.acceptsExit
  rw [hs, accept_threadHook hn hargs]
  have hsys : traceExit.acceptSysno ⟨0, 1, 1⟩ 178 = true := by decide +kernel
  exact hsys

/-- The entry of a thread is submitted. -/
theorem ExitedThreads.entry {n m : Nat} {s : SyscallRun} (hs : ExitedThreads n s)
    (hm : m < 1025) {sysno : u32} (hsysno : sysno = 93 ∨ sysno = 178) :
    ∃ bytes, sysEnter traceExit s.maps (threadHook (nthTid m) sysno) =
      ({ s.maps with
          ctxRegsMap := saveRegs s.maps.ctxRegsMap (threadHook (nthTid m) sysno).saved
            syscallEnter (nthTid m)
          opCtx := s.maps.setOpCtx 0 0 spentCtx
          strBuf := BoundedMap.empty }, .submitted bytes) := by
  have hargs : traceExit.sysenterPointArgs.lookup sysno = some ⟨0, 0, Vector.replicate _ 0⟩ := by
    rcases hsysno with rfl | rfl
    · rfl
    · rfl
  have haccept := accept_threadHook hm hargs
  have hsys : traceExit.acceptSysno ⟨0, 1, 1⟩ sysno = true := by
    rcases hsysno with rfl | rfl
    · decide +kernel
    · decide +kernel
  obtain ⟨hctx, hstrBuf⟩ := run_noArgs hs.opCtx (nthTid m) sysno
    (saveHead ⟨0, 1, 1⟩ sysno (.ofX0 0) EventData.init)
  rw [← hs.childParentMap] at haccept
  rw [← hs.strBuf] at hctx hstrBuf
  have hskip := congrArg (fun ctx : OpCtx => ctx.skipFlag) hctx
  refine ⟨_, (sysEnter_of_accept haccept hsys hskip).trans (Prod.ext ?_ rfl)⟩
  exact congrArg₂ (fun ctx strBuf => ({ s.maps with
    ctxRegsMap := saveRegs s.maps.ctxRegsMap (threadHook (nthTid m) sysno).saved
      syscallEnter (nthTid m)
    opCtx := s.maps.setOpCtx 0 0 ctx
    strBuf := strBuf } : SyscallState)) hctx (hstrBuf.trans hs.strBuf)

/-- The step of the entry. -/
theorem ExitedThreads.enter {n m : Nat} {s : SyscallRun} (hs : ExitedThreads n s) {sysno : u32}
    {maps : SyscallState} {outcome : EnterOutcome}
    (hentry : sysEnter traceExit s.maps (threadHook (nthTid m) sysno) =
      (maps, outcome)) :
    (syscallMachine traceExit).step s (.enter (threadHook (nthTid m) sysno)) =
      some ⟨maps, s.setThread (nthTid m)
        (some ⟨(threadHook (nthTid m) sysno).saved, outcome⟩), s.exits⟩ := by
  show SyscallRun.step traceExit s (.enter (threadHook (nthTid m) sysno)) = _
  simp only [SyscallRun.step]
  rw [show s.thread (threadHook (nthTid m) sysno).task.hostTid = none from hs.thread _]
  dsimp only
  rw [hentry]
  rfl

/-- One more thread enters `exit`, and is gone. -/
theorem ExitedThreads.step {n : Nat} {s : SyscallRun} (hs : ExitedThreads n s) (hn : n < 1024) :
    ∃ t, (syscallMachine traceExit).run s
        [.enter (threadHook (nthTid n) 93), .die (nthTid n)] = some t ∧
      ExitedThreads (n + 1) t := by
  obtain ⟨bytes, hentry⟩ := hs.entry (m := n) (by omega) (Or.inl rfl)
  have htid : (nthTid n).toNat = 1000 + n := by
    rw [nthTid, BitVec.toNat_ofNat]
    omega
  have hnew : ¬ s.maps.ctxRegsMap.HasKey (ctxRegsKey syscallEnter (nthTid n)) := by
    intro hkey
    have hlt := hs.keys _ hkey
    omega
  have hroom : s.maps.ctxRegsMap.HasRoom (ctxRegsKey syscallEnter (nthTid n)) :=
    BoundedMap.hasRoom_of_size_lt (by rw [hs.size]; omega) _
  have henter := hs.enter (m := n) hentry
  refine ⟨_, Machine.run_cons_eq_some.mpr ⟨_, henter, rfl⟩, ?_⟩
  constructor
  · exact hs.childParentMap
  · rfl
  · exact Or.inr rfl
  · intro tid
    rcases setThread_cases
      ⟨_, s.setThread (nthTid n) (some ⟨_, .submitted bytes⟩), s.exits⟩ _ tid none with
      ⟨-, hself⟩ | ⟨hne, hother⟩
    · exact hself
    · exact hother.trans ((if_neg hne).trans (hs.thread tid))
  · show (saveRegs s.maps.ctxRegsMap _ syscallEnter (nthTid n)).size = n + 1
    rw [saveRegs, BoundedMap.size_put_of_new _ hroom hnew, hs.size]
  · intro tid hkey
    rcases BoundedMap.hasKey_of_hasKey_put hkey with heq | hold
    · obtain ⟨-, rfl⟩ := ctxRegsKey_inj.mp heq
      omega
    · exact Nat.lt_succ_of_lt (hs.keys tid hold)

/-- The run of the exiting threads. -/
theorem exitedThreads_run (n : Nat) (hn : n ≤ 1024) :
    ∃ s, (syscallMachine traceExit).run freshRun (exitingThreads n) = some s ∧
      ExitedThreads n s := by
  induction n with
  | zero =>
      refine ⟨freshRun, rfl, rfl, rfl, Or.inl rfl, fun _ => rfl, rfl, fun tid hkey => ?_⟩
      exact absurd hkey (BoundedMap.hasKey_empty _)
  | succ n ih =>
      obtain ⟨s, hrun, hs⟩ := ih (by omega)
      obtain ⟨t, hstep, ht⟩ := hs.step (by omega)
      exact ⟨t, Machine.run_append_eq_some.mpr ⟨s, hrun, hstep⟩, ht⟩

/-- After 1024 threads have called `exit`, the next call that returns finds no registers. -/
theorem exitingThreads_lose_regs :
    ∃ before after hook, ReturnedCall traceExit freshRun before after (exitingThreads 1024) []
        hook hook ∧
      loadRegs after.maps.ctxRegsMap syscallEnter hook.task.hostTid = none := by
  obtain ⟨s, hrun, hs⟩ := exitedThreads_run 1024 (Nat.le_refl _)
  obtain ⟨bytes, hentry⟩ := hs.entry (m := 1024) (by omega) (Or.inr rfl)
  have hfull : ¬ RegsRoom s.maps.ctxRegsMap syscallEnter (nthTid 1024) := by
    rintro (hkey | hlt)
    · exact absurd (hs.keys _ hkey) (by decide)
    · have hsize : s.maps.ctxRegsMap.entries.keys.length = 1024 := hs.size
      omega
  have henter := hs.enter (m := 1024) hentry
  refine ⟨s, _, threadHook (nthTid 1024) 178, ⟨hrun,
    Machine.run_cons_eq_some.mpr ⟨_, henter, rfl⟩, fun _ ha => absurd ha (by simp), rfl,
    ⟨bytes, congrArg Prod.snd hentry⟩, acceptsExit_threadHook (by omega) hs.childParentMap⟩, ?_⟩
  show loadRegs (saveRegs s.maps.ctxRegsMap _ syscallEnter (nthTid 1024)) syscallEnter
    (nthTid 1024) = none
  rcases loadRegs_saveRegs s.maps.ctxRegsMap (threadHook (nthTid 1024) 178).saved
    syscallEnter (nthTid 1024) with hsome | hnone
  · exact absurd ((loadRegs_saveRegs_iff _ _ _ _).mp hsome) hfull
  · exact hnone

/-- One thread calls `gettid`, and another one calls `exit` and leaves its entry behind. -/
def earlierCalls : List SyscallAction :=
  [.enter (threadHook (nthTid 0) 178), .exit (threadHook (nthTid 0) 178),
    .enter (threadHook (nthTid 1) 93), .die (nthTid 1)]

/-- A third one calls `gettid`, and its entry stays open. -/
def callInside : List SyscallAction := [.enter (threadHook (nthTid 2) 178)]

/-- A call after and around those of other threads finds its registers. -/
theorem laterCall_finds_regs :
    ∃ before after, ReturnedCall traceExit freshRun before after earlierCalls callInside
        (threadHook (nthTid 3) 178) (threadHook (nthTid 3) 178) ∧
      before.maps.ctxRegsMap.size = 1 ∧ after.maps.ctxRegsMap.size = 3 ∧
      loadRegs after.maps.ctxRegsMap syscallEnter (threadHook (nthTid 3) 178).task.hostTid =
        some (threadHook (nthTid 3) 178).saved := by
  have hcall : ReturnedCall traceExit freshRun _ _ earlierCalls callInside
      (threadHook (nthTid 3) 178) (threadHook (nthTid 3) 178) :=
    ⟨rfl, rfl, by decide, rfl, ⟨_, rfl⟩, acceptsExit_threadHook (n := 3) (by omega) rfl⟩
  refine ⟨_, _, hcall, by decide +kernel, by decide +kernel, (exit_finds_regs_iff hcall).mpr ?_⟩
  exact Or.inr (by decide +kernel)

end Stackplz
