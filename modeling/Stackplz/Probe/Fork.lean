import Stackplz.Basic.Machine
import Stackplz.Probe.Types

/-!
# Following forks

`tracepoint__sched__sched_process_fork` (the same text in `stack.c` and `syscall.c`) extends
`child_parent_map` when a tracked process forks; `should_trace` then finds a process there by
its pid. The handler looks the forking *thread* up and adds the child only when the entry it
finds maps that id to itself. `forkFollowing_complete_iff` says which sequences of forks are
followed completely.
-/

set_option autoImplicit false

namespace Stackplz

/-- What `sched_process_fork` reports: the thread that forks and the task it creates, as ids
in the pid namespace. -/
structure ForkEvent where
  parentNsPid : u32
  parentNsTgid : u32
  childNsPid : u32
  childNsTgid : u32
  /-- The child is a new thread of the same process or the first thread of a new one. -/
  wf : childNsTgid = parentNsTgid ∨ childNsTgid = childNsPid

/-- `update_child_parent`: every whitelisted pid is its own parent; `none` is the panic on a
full map. -/
def updateChildParent (pidWhitelist : List u32) : Option ChildParentMap :=
  pidWhitelist.foldlM (fun m v => m.update v v) BoundedMap.empty

/-- The handler of `sched_process_fork`. The status of the map update is not looked at. -/
def schedProcessFork (childParentMap : ChildParentMap) (e : ForkEvent) : ChildParentMap :=
  match childParentMap.lookup e.parentNsPid with
  | none => childParentMap
  | some pid =>
      if pid = e.parentNsPid then childParentMap.put e.childNsPid e.parentNsPid
      else childParentMap

/-! ## Runs of forks -/

/-- The map and, as a ghost, the pids of all processes that descend from a whitelisted one. -/
structure ForkState where
  childParentMap : ChildParentMap
  descended : List u32

/-- A fork: the handler runs, and the process of the child descends from a whitelisted one if
the process of its parent does. -/
def ForkState.step (s : ForkState) (e : ForkEvent) : ForkState where
  childParentMap := schedProcessFork s.childParentMap e
  descended :=
    if e.parentNsTgid ∈ s.descended then e.childNsTgid :: s.descended else s.descended

def forkMachine : Machine ForkState ForkEvent := ⟨fun s e => some (s.step e)⟩

/-- `should_trace` finds every descended process. -/
def ForkState.Complete (s : ForkState) : Prop :=
  ∀ pid ∈ s.descended, (s.childParentMap.lookup pid).isSome

/-- The map has room for the entry this fork adds, if it adds one. -/
def ForkState.RoomForChild (s : ForkState) (e : ForkEvent) : Prop :=
  s.childParentMap.lookup e.parentNsPid = some e.parentNsPid →
    s.childParentMap.HasRoom e.childNsPid

/-- The fork is followed: a fork inside a descended process creates a thread, or its child is
a key already, or the forking thread's own id is mapped to itself. -/
def ForkState.Followed (s : ForkState) (e : ForkEvent) : Prop :=
  e.parentNsTgid ∈ s.descended →
    e.childNsTgid = e.parentNsTgid ∨ s.childParentMap.HasKey e.childNsPid ∨
      s.childParentMap.lookup e.parentNsPid = some e.parentNsPid

/-! ## One fork -/

/-- The handler adds the child's id exactly when the forking thread is mapped to itself. -/
theorem hasKey_schedProcessFork {m : ChildParentMap} {e : ForkEvent}
    (hroom : m.lookup e.parentNsPid = some e.parentNsPid → m.HasRoom e.childNsPid)
    (key : u32) :
    (schedProcessFork m e).HasKey key ↔
      m.HasKey key ∨ (key = e.childNsPid ∧ m.lookup e.parentNsPid = some e.parentNsPid) := by
  unfold schedProcessFork
  cases hl : m.lookup e.parentNsPid with
  | none => simp
  | some pid =>
      by_cases hpid : pid = e.parentNsPid
      · subst hpid
        simp only [if_true, and_true, BoundedMap.hasKey_put _ (hroom hl)]
        tauto
      · simp [hpid]

/-- From a complete state, a fork leads to a complete state exactly when it is followed. -/
theorem complete_step_iff {s : ForkState} {e : ForkEvent} (hs : s.Complete)
    (hroom : s.RoomForChild e) : (s.step e).Complete ↔ s.Followed e := by
  have hkey : ∀ pid, ((s.step e).childParentMap.lookup pid).isSome ↔
      s.childParentMap.HasKey pid ∨
        (pid = e.childNsPid ∧ s.childParentMap.lookup e.parentNsPid = some e.parentNsPid) := by
    intro pid
    rw [BoundedMap.lookup_isSome, decide_eq_true_iff]
    exact hasKey_schedProcessFork hroom pid
  have hold : ∀ pid ∈ s.descended, s.childParentMap.HasKey pid := by
    intro pid hpid
    have := hs pid hpid
    rwa [BoundedMap.lookup_isSome, decide_eq_true_iff] at this
  by_cases hparent : e.parentNsTgid ∈ s.descended
  · have hdesc : (s.step e).descended = e.childNsTgid :: s.descended := by
      simp [ForkState.step, hparent]
    constructor
    · intro hcomplete _
      have hchild := (hkey e.childNsTgid).mp (hcomplete _ (by simp [hdesc]))
      rcases e.wf with hthread | hprocess
      · exact Or.inl hthread
      · rw [hprocess] at hchild
        exact Or.inr (hchild.imp_right And.right)
    · intro hfollowed pid hpid
      rw [hkey]
      rcases List.mem_cons.mp (hdesc ▸ hpid) with rfl | hin
      · rcases hfollowed hparent with hthread | hchild | hself
        · exact Or.inl (hthread ▸ hold _ hparent)
        · rcases e.wf with hthread | hprocess
          · exact Or.inl (hthread ▸ hold _ hparent)
          · exact Or.inl (hprocess ▸ hchild)
        · rcases e.wf with hthread | hprocess
          · exact Or.inl (hthread ▸ hold _ hparent)
          · exact Or.inr ⟨hprocess, hself⟩
      · exact Or.inl (hold pid hin)
  · have hdesc : (s.step e).descended = s.descended := by
      simp [ForkState.step, hparent]
    refine ⟨fun _ hin => absurd hin hparent, fun _ pid hpid => ?_⟩
    exact (hkey pid).mpr (Or.inl (hold pid (hdesc ▸ hpid)))

/-! ## Every sequence of forks -/

private theorem hasKey_updateChildParent (pids : List u32) :
    ∀ m m' : ChildParentMap, pids.foldlM (fun m v => m.update v v) m = some m' →
      ∀ key, m'.HasKey key ↔ m.HasKey key ∨ key ∈ pids := by
  induction pids with
  | nil =>
      intro m m' h key
      obtain rfl : m = m' := by simpa using h
      simp
  | cons v pids ih =>
      intro m m' h key
      obtain ⟨m₁, hv, hrest⟩ : ∃ m₁, m.update v v = some m₁ ∧
          pids.foldlM (fun m v => m.update v v) m₁ = some m' := by
        simpa [List.foldlM_cons, Option.bind_eq_some_iff] using h
      rw [ih m₁ m' hrest key, ← BoundedMap.put_of_update hv,
        BoundedMap.hasKey_put _ (BoundedMap.hasRoom_of_update hv), List.mem_cons]
      tauto

/-- The keys that tracing starts with are the whitelisted pids. -/
theorem hasKey_updateChildParent_iff {pidWhitelist : List u32} {m : ChildParentMap}
    (hinit : updateChildParent pidWhitelist = some m) (key : u32) :
    m.HasKey key ↔ key ∈ pidWhitelist := by
  rw [hasKey_updateChildParent pidWhitelist _ m hinit key]
  simp

/-- The state tracing starts in is complete. -/
theorem complete_init {pidWhitelist : List u32} {m : ChildParentMap}
    (hinit : updateChildParent pidWhitelist = some m) :
    (ForkState.mk m pidWhitelist).Complete := by
  intro pid hpid
  rw [BoundedMap.lookup_isSome, decide_eq_true_iff]
  exact (hasKey_updateChildParent_iff hinit pid).mpr hpid

/-- **Which fork sequences are followed.** Started on a pid white list, and while the map has
room for what is added, every state visited is complete exactly when every fork of the
sequence is followed. -/
theorem forkFollowing_complete_iff {pidWhitelist : List u32} {m : ChildParentMap}
    (hinit : updateChildParent pidWhitelist = some m) (forks : List ForkEvent)
    (hroom : forkMachine.Guarded ForkState.RoomForChild ⟨m, pidWhitelist⟩ forks) :
    forkMachine.Throughout ForkState.Complete ⟨m, pidWhitelist⟩ forks ↔
      forkMachine.Guarded ForkState.Followed ⟨m, pidWhitelist⟩ forks := by
  refine Machine.throughout_iff_guarded _ _ (fun _ => True) _ (fun _ _ _ _ _ _ => trivial) ?_
    forks _ trivial (complete_init hinit) hroom
  intro s e t _ hs hroom hstep
  obtain rfl : s.step e = t := Option.some.inj hstep
  exact complete_step_iff hs hroom

/-! ### Two sequences from the white list [100] -/

/-- Process 100 forks process 200. -/
def forkChild : ForkEvent := ⟨100, 100, 200, 200, Or.inr rfl⟩

/-- Process 200 forks process 300. -/
def forkGrandchild : ForkEvent := ⟨200, 200, 300, 300, Or.inr rfl⟩

/-- A grandchild of a whitelisted process is not found. -/
theorem forkFollowing_loses_grandchild :
    ∃ m s, updateChildParent [100] = some m ∧
      forkMachine.run ⟨m, [100]⟩ [forkChild, forkGrandchild] = some s ∧
      300 ∈ s.descended ∧ s.childParentMap.lookup 300 = none :=
  ⟨_, _, rfl, rfl, by decide, by decide⟩

/-- Two children of a whitelisted process are both found. -/
theorem forkFollowing_two_children :
    ∃ m, updateChildParent [100] = some m ∧
      forkMachine.Throughout ForkState.Complete ⟨m, [100]⟩
        [forkChild, ⟨100, 100, 201, 201, Or.inr rfl⟩] := by
  refine ⟨_, rfl, (forkFollowing_complete_iff rfl _ ?_).mpr ?_⟩
  · rintro _ ⟨⟩
    refine ⟨fun _ => by decide, ?_⟩
    rintro _ ⟨⟩
    exact ⟨fun _ => by decide, trivial⟩
  · rintro _ ⟨⟩
    refine ⟨fun _ => by decide, ?_⟩
    rintro _ ⟨⟩
    exact ⟨fun _ => by decide, trivial⟩

end Stackplz
