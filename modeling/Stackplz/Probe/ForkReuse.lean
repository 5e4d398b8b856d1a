import Stackplz.Probe.Fork

/-!
# Forks, exits and ids that are used again

`child_parent_map` is extended by the handler of `sched_process_fork`, and nothing takes an
entry out: no program looks at the exit of a task. An id whose task has exited can be given to
the next one, and a process with such an id is found in the map whoever has created it.
`forkFollowing_sound_iff` says which runs of forks and exits keep the lookup of `should_trace`
sound.
-/

set_option autoImplicit false

namespace Stackplz

/-- A task that is alive: its own id and that of its process. -/
structure LiveTask where
  tid : u32
  tgid : u32
deriving DecidableEq

/-- The map, the tasks alive and, as a ghost, the processes alive that were created by a fork
whose parent was accepted. -/
structure ForkRun where
  childParentMap : ChildParentMap
  tasks : List LiveTask
  followed : List u32

inductive ForkAction where
  | fork (e : ForkEvent)
  | exit (task : LiveTask)

/-- The lookup of `should_trace` finds the process. -/
def ForkRun.Found (s : ForkRun) (pid : u32) : Prop := (s.childParentMap.lookup pid).isSome

/-- A pid that the user has given, or a process that was created by a fork of an accepted
one. -/
def ForkRun.Meant (pidWhitelist : List u32) (s : ForkRun) (pid : u32) : Prop :=
  pid ∈ pidWhitelist ∨ pid ∈ s.followed

/-- No task and no process has the id. -/
def ForkRun.Free (s : ForkRun) (id : u32) : Prop :=
  ∀ task ∈ s.tasks, task.tid ≠ id ∧ task.tgid ≠ id

instance (s : ForkRun) (pid : u32) : Decidable (s.Found pid) := by
  unfold ForkRun.Found
  infer_instance

instance (pidWhitelist : List u32) (s : ForkRun) (pid : u32) :
    Decidable (s.Meant pidWhitelist pid) := by
  unfold ForkRun.Meant
  infer_instance

instance (s : ForkRun) (id : u32) : Decidable (s.Free id) := by
  unfold ForkRun.Free
  infer_instance

/-- The ghost after a fork. A new process is a new incarnation of its id. -/
def ForkRun.followedAfter (pidWhitelist : List u32) (s : ForkRun) (e : ForkEvent) : List u32 :=
  if e.childNsTgid = e.parentNsTgid then s.followed
  else if s.Found e.parentNsTgid ∧ s.Meant pidWhitelist e.parentNsTgid then
    e.childNsTgid :: s.followed
  else s.followed.filter fun pid => pid ≠ e.childNsTgid

/-- A task forks, and the new task gets an id that is free; or a task exits. -/
def ForkRun.step (pidWhitelist : List u32) (s : ForkRun) : ForkAction → Option ForkRun
  | .fork e =>
      if ⟨e.parentNsPid, e.parentNsTgid⟩ ∈ s.tasks ∧ s.Free e.childNsPid then
        some
          { childParentMap := schedProcessFork s.childParentMap e
            tasks := ⟨e.childNsPid, e.childNsTgid⟩ :: s.tasks
            followed := s.followedAfter pidWhitelist e }
      else none
  | .exit task =>
      if task ∈ s.tasks then some { s with tasks := s.tasks.erase task } else none

def forkRunMachine (pidWhitelist : List u32) : Machine ForkRun ForkAction :=
  ⟨ForkRun.step pidWhitelist⟩

/-- Of the processes alive, the lookup finds only those that it is meant to find. -/
def ForkRun.Sound (pidWhitelist : List u32) (s : ForkRun) : Prop :=
  ∀ task ∈ s.tasks, s.Found task.tgid → s.Meant pidWhitelist task.tgid

/-- Where a process that is not found creates another one, the new pid is a whitelisted one, or
neither is it a key that was left in the map, nor does the handler store it: the id of the
forking thread is not mapped to itself, or the map is full. -/
def ForkRun.NoLeftover (pidWhitelist : List u32) (s : ForkRun) : ForkAction → Prop
  | .fork e =>
      e.childNsTgid ≠ e.parentNsTgid → ¬ s.Found e.parentNsTgid →
        e.childNsPid ∉ pidWhitelist →
          ¬ s.childParentMap.HasKey e.childNsPid ∧
            (s.childParentMap.lookup e.parentNsPid = some e.parentNsPid →
              ¬ s.childParentMap.HasRoom e.childNsPid)
  | .exit _ => True

theorem ForkRun.found_iff {s : ForkRun} {pid : u32} :
    s.Found pid ↔ s.childParentMap.HasKey pid := by
  unfold ForkRun.Found
  rw [BoundedMap.lookup_isSome, decide_eq_true_iff]

/-- The keys after a fork, with or without room for the child. -/
theorem hasKey_schedProcessFork_iff (m : ChildParentMap) (e : ForkEvent) (key : u32) :
    (schedProcessFork m e).HasKey key ↔
      m.HasKey key ∨ (key = e.childNsPid ∧ m.lookup e.parentNsPid = some e.parentNsPid ∧
        m.HasRoom e.childNsPid) := by
  by_cases hroom : m.HasRoom e.childNsPid
  · rw [hasKey_schedProcessFork fun _ => hroom]
    simp only [hroom, and_true]
  · -- the update fails, and its status is not looked at
    have hsame : schedProcessFork m e = m := by
      unfold schedProcessFork
      split
      · rfl
      · split
        · exact BoundedMap.put_of_full _ hroom
        · rfl
    rw [hsame]
    simp only [hroom, and_false, or_false]

/-! ## One step -/

section Step

variable {pidWhitelist : List u32} {s t : ForkRun}

theorem forkRun_step_fork {e : ForkEvent} (h : s.step pidWhitelist (.fork e) = some t) :
    ⟨e.parentNsPid, e.parentNsTgid⟩ ∈ s.tasks ∧ s.Free e.childNsPid ∧
      t = ⟨schedProcessFork s.childParentMap e, ⟨e.childNsPid, e.childNsTgid⟩ :: s.tasks,
        s.followedAfter pidWhitelist e⟩ := by
  simp only [ForkRun.step] at h
  split at h
  · rename_i hguard
    exact ⟨hguard.1, hguard.2, (Option.some.inj h).symm⟩
  · cases h

/-- An exit leaves fewer processes alive, and the map as it is. -/
theorem sound_exit {task : LiveTask} (hs : s.Sound pidWhitelist)
    (h : s.step pidWhitelist (.exit task) = some t) : t.Sound pidWhitelist := by
  simp only [ForkRun.step] at h
  split at h
  · obtain rfl := Option.some.inj h
    intro other hother hfound
    exact hs other (List.mem_of_mem_erase hother) hfound
  · cases h

/-- The ids in use are found, and meant, after a fork if and only if they were before. -/
theorem fork_other {e : ForkEvent} (h : s.step pidWhitelist (.fork e) = some t) {pid : u32}
    (hpid : pid ≠ e.childNsPid) :
    (t.Found pid ↔ s.Found pid) ∧ (t.Meant pidWhitelist pid ↔ s.Meant pidWhitelist pid) := by
  obtain ⟨hparent, hfree, rfl⟩ := forkRun_step_fork h
  constructor
  · rw [ForkRun.found_iff, ForkRun.found_iff, hasKey_schedProcessFork_iff]
    simp only [hpid, false_and, or_false]
  · have hmem : pid ∈ s.followedAfter pidWhitelist e ↔ pid ∈ s.followed := by
      unfold ForkRun.followedAfter
      split
      · rfl
      · rename_i hnew
        -- the new process has the id of its first thread
        have hchild : e.childNsTgid = e.childNsPid := e.wf.resolve_left hnew
        rw [hchild]
        split
        · simp [hpid]
        · simp [hpid]
    unfold ForkRun.Meant
    rw [hmem]

/-- A new process is meant to be found if its pid is whitelisted or its parent is accepted. -/
theorem fork_child_meant {e : ForkEvent} (hs : s.Sound pidWhitelist)
    (h : s.step pidWhitelist (.fork e) = some t) (hnew : e.childNsTgid ≠ e.parentNsTgid) :
    t.Meant pidWhitelist e.childNsPid ↔
      e.childNsPid ∈ pidWhitelist ∨ s.Found e.parentNsTgid := by
  obtain ⟨hparent, hfree, rfl⟩ := forkRun_step_fork h
  have hchild : e.childNsTgid = e.childNsPid := e.wf.resolve_left hnew
  have hmem : e.childNsPid ∈ s.followedAfter pidWhitelist e ↔ s.Found e.parentNsTgid := by
    unfold ForkRun.followedAfter
    rw [if_neg hnew, hchild]
    by_cases hfound : s.Found e.parentNsTgid
    · have hmeant := hs _ hparent hfound
      rw [if_pos ⟨hfound, hmeant⟩]
      simp [hfound]
    · rw [if_neg fun hboth => hfound hboth.1]
      simp [hfound]
  unfold ForkRun.Meant
  rw [hmem]

/-- From a sound state, a step leads to a sound state exactly when no key that was left behind
is met. -/
theorem sound_step_iff {a : ForkAction} (hs : s.Sound pidWhitelist)
    (h : s.step pidWhitelist a = some t) :
    t.Sound pidWhitelist ↔ s.NoLeftover pidWhitelist a := by
  cases a with
  | exit task => exact ⟨fun _ => trivial, fun _ => sound_exit hs h⟩
  | fork e =>
      obtain ⟨hparent, hfree, ht⟩ := forkRun_step_fork h
      have hold : ∀ task ∈ s.tasks, t.Found task.tgid → t.Meant pidWhitelist task.tgid := by
        intro task htask hfound
        have hother := fork_other h (hfree task htask).2
        exact hother.2.mpr (hs task htask (hother.1.mp hfound))
      have htasks : t.tasks = ⟨e.childNsPid, e.childNsTgid⟩ :: s.tasks := by rw [ht]
      -- only the new task can be found without being meant
      have hsound : t.Sound pidWhitelist ↔
          (t.Found e.childNsTgid → t.Meant pidWhitelist e.childNsTgid) := by
        unfold ForkRun.Sound
        rw [htasks]
        simp only [List.forall_mem_cons]
        exact ⟨fun hboth => hboth.1, fun hchild => ⟨hchild, hold⟩⟩
      rw [hsound]
      by_cases hthread : e.childNsTgid = e.parentNsTgid
      · -- a thread of a process that was alive before
        refine ⟨fun _ hnew => absurd hthread hnew, fun _ hfound => ?_⟩
        rw [hthread] at hfound ⊢
        exact hold _ hparent hfound
      · have hchild : e.childNsTgid = e.childNsPid := e.wf.resolve_left hthread
        have hkey : t.Found e.childNsPid ↔ s.childParentMap.HasKey e.childNsPid ∨
            (s.childParentMap.lookup e.parentNsPid = some e.parentNsPid ∧
              s.childParentMap.HasRoom e.childNsPid) := by
          rw [ForkRun.found_iff, ht, hasKey_schedProcessFork_iff]
          simp only [true_and]
        rw [hchild, fork_child_meant hs h hthread, hkey]
        unfold ForkRun.NoLeftover
        simp only [hthread, ne_eq, not_false_eq_true, forall_const]
        tauto

end Step

/-! ## Every run -/

/-- The state tracing starts in is sound, whatever is alive. -/
theorem sound_init {pidWhitelist : List u32} {m : ChildParentMap}
    (hinit : updateChildParent pidWhitelist = some m) (tasks : List LiveTask) :
    (ForkRun.mk m tasks []).Sound pidWhitelist := by
  intro task _ hfound
  rw [ForkRun.found_iff] at hfound
  exact Or.inl ((hasKey_updateChildParent_iff hinit task.tgid).mp hfound)

/-- **Which runs are followed soundly.** Started on a pid white list, with any tasks alive, the
lookup is sound in every state visited exactly when no fork of the run meets a key that was left
behind. -/
theorem forkFollowing_sound_iff {pidWhitelist : List u32} {m : ChildParentMap}
    (hinit : updateChildParent pidWhitelist = some m) (tasks : List LiveTask)
    (actions : List ForkAction) :
    (forkRunMachine pidWhitelist).Throughout (ForkRun.Sound pidWhitelist) ⟨m, tasks, []⟩
        actions ↔
      (forkRunMachine pidWhitelist).Guarded (ForkRun.NoLeftover pidWhitelist) ⟨m, tasks, []⟩
        actions := by
  refine Machine.throughout_iff_guarded (fun _ _ => True) _ (fun _ => True) _
    (fun _ _ _ _ _ _ => trivial) (fun s a t _ hs _ hstep => sound_step_iff hs hstep) actions _
    trivial (sound_init hinit tasks) (Machine.guarded_true _ actions _)

/-! ### The white list [100] -/

/-- Process 100, which is whitelisted, and process 500, which is not. -/
def twoProcesses : List LiveTask := [⟨100, 100⟩, ⟨500, 500⟩]

/-- A child of process 100 exits, and its pid goes to a child of process 500. -/
def pidUsedAgain : List ForkAction :=
  [.fork forkChild, .exit ⟨200, 200⟩, .fork ⟨500, 500, 200, 200, Or.inr rfl⟩]

/-- The child of process 500 is found. -/
theorem forkFollowing_finds_stranger :
    ∃ m s, updateChildParent [100] = some m ∧
      (forkRunMachine [100]).run ⟨m, twoProcesses, []⟩ pidUsedAgain = some s ∧
      ⟨200, 200⟩ ∈ s.tasks ∧ s.Found 200 ∧ ¬ s.Meant [100] 200 :=
  ⟨_, _, rfl, rfl, by decide, by decide, by decide⟩

/-- With a pid that was not used before, it is not. -/
theorem forkFollowing_new_pids :
    ∃ m, updateChildParent [100] = some m ∧
      (forkRunMachine [100]).Throughout (ForkRun.Sound [100]) ⟨m, twoProcesses, []⟩
        [.fork forkChild, .fork ⟨500, 500, 201, 201, Or.inr rfl⟩] := by
  refine ⟨_, rfl, (forkFollowing_sound_iff rfl _ _).mpr ?_⟩
  rintro _ ⟨⟩
  refine ⟨fun _ hfound => absurd (by decide) hfound, ?_⟩
  rintro _ ⟨⟩
  exact ⟨fun _ _ _ => by decide, trivial⟩

end Stackplz
