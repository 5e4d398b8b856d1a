import Mathlib.Logic.Function.Basic
import Stackplz.Basic.Machine
import Stackplz.Probe.Types

/-!
# Stopped processes

A hit can stop its process: the program submits the event and then sends the signals of `--kill`,
`--tkill` and of the point (`stack.c`). The processor notes the process in `stopped_pid_list` when
it parses the event (`event_context.go`, `event_uprobe.go`), and with `--auto` lets it run. The
line `c` on the console lets every process of the list run (`LetItRun`, `ievent.go`), here in one
step. The steps of the programs, the processor and the console come in any order, and an event can
be lost on its way to the processor:

* `noted_keeps` — a process that is stopped is in the list, or an event of it waits or was lost;
* `console_letsRun_iff` — so only processes with waiting or lost events are stopped after `c`,
  exactly when every hit that can stop a process is one that is noted.
-/

set_option autoImplicit false

namespace Stackplz

/-! ## The steps -/

def sigkill : u32 := 9
def sigcont : u32 := 18
def sigstop : u32 := 19
def sigtstp : u32 := 20
def sigttin : u32 := 21
def sigttou : u32 := 22

/-- The signals that stop a process unless it catches or ignores them. -/
def terminalStops : List u32 := [sigtstp, sigttin, sigttou]

/-- Whether a process is stopped after a signal. Neither `SIGSTOP` nor `SIGCONT` can be avoided. -/
def afterSignal (ignored : u32 → Bool) (stopped : Bool) (sig : u32) : Bool :=
  if sig = sigstop then true
  else if sig = sigcont then false
  else if sig ∈ terminalStops then stopped || !ignored sig
  else stopped

/-- The signals of the options, those of the points by their numbers, and `--auto`. A signal is
one of those that `ParseSignal` knows, or zero. -/
structure StopConf where
  killSignal : u32
  tKillSignal : u32
  pointSignal : u32 → u32
  autoResume : Bool

/-- What the programs send at a hit, in this order. -/
def StopConf.signals (conf : StopConf) (point : u32) : List u32 :=
  [conf.killSignal, conf.tKillSignal, conf.pointSignal point].filter (0 < ·)

/-- Whether a process is stopped after the signals of a hit. A signal to one thread stops all, and
a process that is killed does not stop. -/
def StopConf.stoppedAfter (conf : StopConf) (point : u32) (ignored : u32 → Bool)
    (stopped : Bool) : Bool :=
  !(conf.signals point).contains sigkill && (conf.signals point).foldl (afterSignal ignored) stopped

/-- The signals of a hit stop a process that runs, if it ignores none of them. -/
def StopConf.mayStop (conf : StopConf) (point : u32) : Bool :=
  conf.stoppedAfter point (fun _ => false) false

/-- The two `ParseContext` note the process. -/
def StopConf.notes (conf : StopConf) (pid point : u32) : Bool :=
  (conf.killSignal == sigstop || conf.pointSignal point == sigstop) && pid != 0

/-- A hit: the process and the number of the point. -/
structure StopHit where
  pid : u32
  point : u32
deriving DecidableEq

structure StopState where
  alive : u32 → Bool
  stopped : u32 → Bool
  /-- The hits whose programs have submitted the event and not yet sent the signals. -/
  sending : List StopHit
  /-- The events that wait for the processor. -/
  samples : List StopHit
  /-- An event of the process has not reached the processor. -/
  lost : u32 → Bool
  /-- The process of the event that is being parsed. -/
  resuming : Option u32
  stoppedPidList : List u32

/-- No process has started. -/
def StopState.init : StopState :=
  ⟨fun _ => false, fun _ => false, [], [], fun _ => false, none, []⟩

inductive StopAction where
  | start (pid : u32)
  | exit (pid : u32)
  /-- A process hits a point, and the program submits the event. -/
  | hit (h : StopHit)
  /-- A system call returns, and the program submits the event; it sends no signal. -/
  | report (h : StopHit)
  /-- The program sends its signals to a process that ignores some. -/
  | signal (h : StopHit) (ignored : u32 → Bool)
  /-- An event gets no room in the perf buffer, or is dropped behind it. -/
  | lose (h : StopHit)
  /-- The processor parses an event, of any processor's buffer. -/
  | parse (h : StopHit)
  /-- It lets the process of the event run. -/
  | resume
  /-- The line `c` on the console. -/
  | console

namespace StopState

/-- A process starts or ends: it is not stopped and has lost no event. -/
def setAlive (s : StopState) (pid : u32) (alive : Bool) : StopState :=
  { s with
    alive := Function.update s.alive pid alive
    stopped := Function.update s.stopped pid false
    lost := Function.update s.lost pid false }

/-- `AddStopped` -/
def addStopped (s : StopState) (pid : u32) : StopState :=
  if pid ∈ s.stoppedPidList then s else { s with stoppedPidList := pid :: s.stoppedPidList }

/-- `DelStopped` -/
def delStopped (s : StopState) (pid : u32) : StopState :=
  { s with stoppedPidList := s.stoppedPidList.filter (· ≠ pid) }

/-- `LetItResume`: a process that is gone is deleted from the list. -/
def letItResume (s : StopState) (pid : u32) : StopState :=
  if s.alive pid then { s with stopped := Function.update s.stopped pid false }
  else s.delStopped pid

/-- `LetItRun` -/
def letItRun (s : StopState) : StopState := s.stoppedPidList.foldl letItResume s

def step (conf : StopConf) (s : StopState) : StopAction → Option StopState
  | .start pid =>
      if s.alive pid then none
      else some (s.setAlive pid true)
  | .exit pid =>
      -- a process ends when no program runs in it
      if s.sending.any fun h => h.pid == pid then none
      else some (s.setAlive pid false)
  | .hit h =>
      -- the idle task has no user space
      if s.alive h.pid && h.pid != 0 then
        some { s with sending := s.sending ++ [h], samples := s.samples ++ [h] }
      else none
  | .report h =>
      if s.alive h.pid && h.pid != 0 then some { s with samples := s.samples ++ [h] } else none
  | .signal h ignored =>
      if h ∈ s.sending then
        let stops := conf.stoppedAfter h.point ignored (s.stopped h.pid)
        some { s with
          sending := s.sending.erase h
          stopped := Function.update s.stopped h.pid (s.alive h.pid && stops) }
      else none
  | .lose h =>
      if h ∈ s.samples then
        some { s with
          samples := s.samples.erase h
          lost := Function.update s.lost h.pid true }
      else none
  | .parse h =>
      if h ∈ s.samples && s.resuming.isNone then
        let s := { s with samples := s.samples.erase h }
        let s := if conf.notes h.pid h.point then s.addStopped h.pid else s
        some { s with resuming := if conf.autoResume then some h.pid else none }
      else none
  | .resume =>
      s.resuming.map fun pid => { s.letItResume pid with resuming := none }
  | .console => some s.letItRun

end StopState

def stopMachine (conf : StopConf) : Machine StopState StopAction := ⟨StopState.step conf⟩

/-! ## What resuming does -/

section Resume

variable {s : StopState}

theorem mem_addStopped {pid p : u32} :
    p ∈ (s.addStopped pid).stoppedPidList ↔ p = pid ∨ p ∈ s.stoppedPidList := by
  unfold StopState.addStopped
  split
  · constructor
    · exact Or.inr
    · rintro (rfl | hmem)
      · assumption
      · exact hmem
  · exact List.mem_cons

@[simp] theorem addStopped_alive (pid : u32) : (s.addStopped pid).alive = s.alive := by
  unfold StopState.addStopped
  split <;> rfl

@[simp] theorem addStopped_stopped (pid : u32) : (s.addStopped pid).stopped = s.stopped := by
  unfold StopState.addStopped
  split <;> rfl

@[simp] theorem addStopped_sending (pid : u32) : (s.addStopped pid).sending = s.sending := by
  unfold StopState.addStopped
  split <;> rfl

@[simp] theorem addStopped_samples (pid : u32) : (s.addStopped pid).samples = s.samples := by
  unfold StopState.addStopped
  split <;> rfl

@[simp] theorem addStopped_lost (pid : u32) : (s.addStopped pid).lost = s.lost := by
  unfold StopState.addStopped
  split <;> rfl

/-- What letting some processes run changes. -/
structure LetRun (s t : StopState) (pids : List u32) : Prop where
  alive : t.alive = s.alive
  sending : t.sending = s.sending
  samples : t.samples = s.samples
  lost : t.lost = s.lost
  resuming : t.resuming = s.resuming
  stopped : ∀ p, t.stopped p = true ↔ s.stopped p = true ∧ ¬ (s.alive p = true ∧ p ∈ pids)
  listed : ∀ p, p ∈ t.stoppedPidList ↔ p ∈ s.stoppedPidList ∧ (s.alive p = true ∨ p ∉ pids)

theorem letRun_nil (s : StopState) : LetRun s s [] := by
  refine ⟨rfl, rfl, rfl, rfl, rfl, fun p => ?_, fun p => ?_⟩
  · simp
  · simp

theorem letRun_letItResume (s : StopState) (pid : u32) :
    LetRun s (s.letItResume pid) [pid] := by
  unfold StopState.letItResume
  cases halive : s.alive pid with
  | true =>
      rw [if_pos rfl]
      refine ⟨rfl, rfl, rfl, rfl, rfl, fun p => ?_, fun p => ?_⟩
      · dsimp only
        by_cases hp : p = pid
        · subst hp
          simp [halive]
        · simp [hp]
      · by_cases hp : p = pid
        · subst hp
          simp [halive]
        · simp [hp]
  | false =>
      rw [if_neg Bool.false_ne_true]
      unfold StopState.delStopped
      refine ⟨rfl, rfl, rfl, rfl, rfl, fun p => ?_, fun p => ?_⟩
      · by_cases hp : p = pid
        · subst hp
          simp [halive]
        · simp [hp]
      · by_cases hp : p = pid
        · subst hp
          simp [halive]
        · simp [hp]

theorem LetRun.trans {t u : StopState} {pids pids' : List u32} (h : LetRun s t pids)
    (h' : LetRun t u pids') : LetRun s u (pids ++ pids') := by
  refine ⟨h'.alive.trans h.alive, h'.sending.trans h.sending, h'.samples.trans h.samples,
    h'.lost.trans h.lost, h'.resuming.trans h.resuming, fun p => ?_, fun p => ?_⟩
  · rw [h'.stopped, h.stopped, h.alive, List.mem_append]
    tauto
  · rw [h'.listed, h.listed, h.alive, List.mem_append]
    tauto

/-- The order in which the map is visited does not matter. -/
theorem letRun_foldl (pids : List u32) (s : StopState) :
    LetRun s (pids.foldl StopState.letItResume s) pids := by
  induction pids generalizing s with
  | nil => exact letRun_nil s
  | cons pid pids ih =>
      rw [List.foldl_cons]
      exact (letRun_letItResume s pid).trans (ih (s.letItResume pid))

end Resume

/-! ## What signals do -/

/-- A process that ignores nothing is stopped by whatever stops one that ignores some. -/
theorem afterSignal_mono {ignored : u32 → Bool} {stopped stopped' : Bool}
    (h : stopped = true → stopped' = true) {sig : u32}
    (hafter : afterSignal ignored stopped sig = true) :
    afterSignal (fun _ => false) stopped' sig = true := by
  unfold afterSignal at hafter ⊢
  by_cases hstop : sig = sigstop
  · rw [if_pos hstop]
  · rw [if_neg hstop] at hafter ⊢
    by_cases hcont : sig = sigcont
    · rw [if_pos hcont] at hafter
      cases hafter
    · rw [if_neg hcont] at hafter ⊢
      split
      · exact Bool.or_true _
      · rename_i hother
        rw [if_neg hother] at hafter
        exact h hafter

theorem afterSignals_mono {ignored : u32 → Bool} (sigs : List u32) {stopped stopped' : Bool}
    (h : stopped = true → stopped' = true)
    (hafter : sigs.foldl (afterSignal ignored) stopped = true) :
    sigs.foldl (afterSignal fun _ => false) stopped' = true := by
  induction sigs generalizing stopped stopped' with
  | nil => exact h hafter
  | cons sig sigs ih => exact ih (afterSignal_mono h) hafter

/-- Who is stopped after the signals of a hit was so before, or is stopped by them. -/
theorem stopped_or_mayStop {conf : StopConf} {point : u32} {ignored : u32 → Bool} {stopped : Bool}
    (h : conf.stoppedAfter point ignored stopped = true) :
    stopped = true ∨ conf.mayStop point = true := by
  cases stopped with
  | true => exact Or.inl rfl
  | false =>
      obtain ⟨hlives, hafter⟩ := Bool.and_eq_true_iff.mp h
      exact Or.inr (Bool.and_eq_true_iff.mpr ⟨hlives, afterSignals_mono _ id hafter⟩)

/-! ## The invariant -/

section Invariant

variable {conf : StopConf}

/-- The process is in the list, or an event waits that will put it there, or one is lost. -/
def StopState.Known (s : StopState) (conf : StopConf) (pid : u32) : Prop :=
  pid ∈ s.stoppedPidList ∨ (∃ h ∈ s.samples, h.pid = pid ∧ conf.notes h.pid h.point = true) ∨
    s.lost pid = true

/-- Whoever is stopped, or about to be, is known. -/
structure StopState.Noted (conf : StopConf) (s : StopState) : Prop where
  stopped : ∀ p, s.stopped p = true → s.alive p = true ∧ s.Known conf p
  sending : ∀ h ∈ s.sending, s.alive h.pid = true ∧
    (conf.mayStop h.point = true → s.Known conf h.pid)

theorem noted_init : StopState.init.Noted conf :=
  ⟨fun _ h => absurd h Bool.false_ne_true, fun _ h => absurd h List.not_mem_nil⟩

/-- A step that stops no process and forgets of none what is known of it. -/
theorem StopState.Noted.mono {s t : StopState} (hs : s.Noted conf) (halive : t.alive = s.alive)
    (hstopped : ∀ p, t.stopped p = true → s.stopped p = true)
    (hsending : ∀ h ∈ t.sending, h ∈ s.sending)
    (hknown : ∀ p, s.alive p = true → s.Known conf p → t.Known conf p) : t.Noted conf := by
  refine ⟨fun p hp => ?_, fun h hh => ?_⟩
  · obtain ⟨hlive, hp⟩ := hs.stopped p (hstopped p hp)
    rw [halive]
    exact ⟨hlive, hknown p hlive hp⟩
  · obtain ⟨hlive, hstops⟩ := hs.sending h (hsending h hh)
    rw [halive]
    exact ⟨hlive, fun hstop => hknown _ hlive (hstops hstop)⟩

/-- Letting processes run forgets only those that are gone. -/
theorem noted_letRun {s t : StopState} {pids : List u32} (h : LetRun s t pids)
    (hs : s.Noted conf) : t.Noted conf := by
  apply hs.mono h.alive
  · exact fun p hp => ((h.stopped p).mp hp).1
  · exact fun x hx => h.sending ▸ hx
  · intro p halive hp
    unfold StopState.Known
    rw [h.samples, h.lost]
    exact hp.imp_left fun hmem => (h.listed p).mpr ⟨hmem, Or.inl halive⟩

/-- A process of no running program starts or ends. -/
theorem noted_setAlive {s : StopState} {pid : u32} (hs : s.Noted conf)
    (hpid : ∀ h ∈ s.sending, h.pid ≠ pid) (alive : Bool) : (s.setAlive pid alive).Noted conf := by
  have hkeeps {p : u32} (hne : p ≠ pid) : (s.setAlive pid alive).alive p = s.alive p ∧
      (s.Known conf p → (s.setAlive pid alive).Known conf p) := by
    simp [StopState.setAlive, StopState.Known, hne]
  refine ⟨fun p hp => ?_, fun h hh => ?_⟩
  · have hne : p ≠ pid := by
      rintro rfl
      simp [StopState.setAlive] at hp
    have hp' : s.stopped p = true := by simpa [StopState.setAlive, hne] using hp
    obtain ⟨halive, hknown⟩ := hs.stopped p hp'
    rw [(hkeeps hne).1]
    exact ⟨halive, (hkeeps hne).2 hknown⟩
  · obtain ⟨halive, hstops⟩ := hs.sending h hh
    rw [(hkeeps (hpid h hh)).1]
    exact ⟨halive, fun hstop => (hkeeps (hpid h hh)).2 (hstops hstop)⟩

/-- An event waits. -/
theorem noted_report {s : StopState} (hs : s.Noted conf) (x : StopHit) :
    StopState.Noted conf { s with samples := s.samples ++ [x] } := by
  refine hs.mono rfl (fun _ hp => hp) (fun _ hh => hh) fun p _ hp => ?_
  rcases hp with hmem | ⟨h, hh, hwaits⟩ | hlost
  · exact Or.inl hmem
  · exact Or.inr (Or.inl ⟨h, List.mem_append_left _ hh, hwaits⟩)
  · exact Or.inr (Or.inr hlost)

/-- A hit waits to be noted before its signals are sent. -/
theorem noted_hit {s : StopState} {x : StopHit} (hs : s.Noted conf)
    (halive : s.alive x.pid = true)
    (hnotes : conf.mayStop x.point = true → conf.notes x.pid x.point = true) :
    StopState.Noted conf { s with sending := s.sending ++ [x], samples := s.samples ++ [x] } := by
  have hwaits := noted_report hs x
  refine ⟨hwaits.stopped, fun h hh => ?_⟩
  rcases List.mem_append.mp hh with hold | hnew
  · exact hwaits.sending h hold
  · obtain rfl := List.mem_singleton.mp hnew
    exact ⟨halive, fun hstop => Or.inr (Or.inl ⟨h, by simp, rfl, hnotes hstop⟩)⟩

/-- The signals of a hit stop a process that is known. -/
theorem noted_signal {s : StopState} {x : StopHit} (hs : s.Noted conf) (hx : x ∈ s.sending)
    {stops : Bool} (hstops : stops = true → s.stopped x.pid = true ∨ conf.mayStop x.point = true) :
    StopState.Noted conf { s with
      sending := s.sending.erase x
      stopped := Function.update s.stopped x.pid (s.alive x.pid && stops) } := by
  refine ⟨fun p hp => ?_, fun h hh => hs.sending h (List.mem_of_mem_erase hh)⟩
  dsimp only at hp
  by_cases heq : p = x.pid
  · subst heq
    rw [Function.update_self, Bool.and_eq_true] at hp
    obtain ⟨halive, hknown⟩ := hs.sending x hx
    rcases hstops hp.2 with hbefore | hmay
    · exact hs.stopped x.pid hbefore
    · exact ⟨halive, hknown hmay⟩
  · rw [Function.update_of_ne heq] at hp
    exact hs.stopped p hp

/-- An event is lost. -/
theorem noted_lose {s : StopState} {x : StopHit} (hs : s.Noted conf) :
    StopState.Noted conf { s with
      samples := s.samples.erase x
      lost := Function.update s.lost x.pid true } := by
  refine hs.mono rfl (fun _ hp => hp) (fun _ hh => hh) fun p _ hp => ?_
  unfold StopState.Known
  dsimp only
  by_cases heq : p = x.pid
  · subst heq
    exact Or.inr (Or.inr (Function.update_self ..))
  · rw [Function.update_of_ne heq]
    rcases hp with hmem | ⟨h, hh, hpid, hnotes⟩ | hlost
    · exact Or.inl hmem
    · -- the event that waits for another process is not the one that is lost
      have hne : h ≠ x := fun h' => heq (hpid.symm.trans (congrArg StopHit.pid h'))
      exact Or.inr (Or.inl ⟨h, (List.mem_erase_of_ne hne).mpr hh, hpid, hnotes⟩)
    · exact Or.inr (Or.inr hlost)

/-- The event that is parsed puts its process into the list. -/
theorem noted_parse {s t : StopState} {x : StopHit} (hs : s.Noted conf)
    (halive : t.alive = s.alive) (hstopped : t.stopped = s.stopped)
    (hsending : t.sending = s.sending) (hsamples : t.samples = s.samples.erase x)
    (hlost : t.lost = s.lost)
    (hlist : ∀ p, p ∈ t.stoppedPidList ↔
      p = x.pid ∧ conf.notes x.pid x.point = true ∨ p ∈ s.stoppedPidList) : t.Noted conf := by
  apply hs.mono halive
  · exact fun p hp => hstopped ▸ hp
  · exact fun h hh => hsending ▸ hh
  · intro p _ hp
    unfold StopState.Known
    rw [hsamples, hlost]
    rcases hp with hmem | ⟨h, hh, hpid, hnotes⟩ | hlose
    · exact Or.inl ((hlist p).mpr (Or.inr hmem))
    · by_cases heq : h = x
      · subst heq
        exact Or.inl ((hlist p).mpr (Or.inl ⟨hpid.symm, hnotes⟩))
      · exact Or.inr (Or.inl ⟨h, (List.mem_erase_of_ne heq).mpr hh, hpid, hnotes⟩)
    · exact Or.inr (Or.inr hlose)

/-- **Every step keeps the invariant** when the processor notes whatever the programs stop. -/
theorem noted_keeps (hnotes : ∀ pid point, pid ≠ 0 → conf.mayStop point = true →
    conf.notes pid point = true) :
    (stopMachine conf).Keeps (fun _ _ => True) (StopState.Noted conf) := by
  intro s a t hs _ hstep
  cases a with
  | start pid =>
      simp only [stopMachine, StopState.step] at hstep
      split at hstep
      · cases hstep
      · rename_i hdead
        obtain rfl := Option.some.inj hstep
        refine noted_setAlive hs ?_ true
        -- a program that still has to send its signals is of a process that lives
        rintro h hh rfl
        exact hdead (hs.sending h hh).1
  | exit pid =>
      simp only [stopMachine, StopState.step] at hstep
      split at hstep
      · cases hstep
      · rename_i hnone
        obtain rfl := Option.some.inj hstep
        refine noted_setAlive hs ?_ false
        rintro h hh rfl
        exact hnone (List.any_eq_true.mpr ⟨h, hh, beq_self_eq_true _⟩)
  | hit x =>
      simp only [stopMachine, StopState.step] at hstep
      split at hstep
      · rename_i hlive
        rw [Bool.and_eq_true, bne_iff_ne] at hlive
        obtain rfl := Option.some.inj hstep
        exact noted_hit hs hlive.1 (hnotes _ _ hlive.2)
      · cases hstep
  | report x =>
      simp only [stopMachine, StopState.step] at hstep
      split at hstep
      · obtain rfl := Option.some.inj hstep
        exact noted_report hs x
      · cases hstep
  | signal x ignored =>
      simp only [stopMachine, StopState.step] at hstep
      split at hstep
      · rename_i hx
        obtain rfl := Option.some.inj hstep
        exact noted_signal hs hx stopped_or_mayStop
      · cases hstep
  | lose x =>
      simp only [stopMachine, StopState.step] at hstep
      split at hstep
      · obtain rfl := Option.some.inj hstep
        exact noted_lose hs
      · cases hstep
  | parse x =>
      simp only [stopMachine, StopState.step] at hstep
      split at hstep
      · obtain rfl := Option.some.inj hstep
        by_cases hnote : conf.notes x.pid x.point = true
        · rw [if_pos hnote]
          refine noted_parse hs (addStopped_alive _) (addStopped_stopped _)
            (addStopped_sending _) (addStopped_samples _) (addStopped_lost _) fun p => ?_
          simp [mem_addStopped, hnote]
        · rw [if_neg hnote]
          refine noted_parse hs rfl rfl rfl rfl rfl fun p => ?_
          simp [hnote]
      · cases hstep
  | resume =>
      simp only [stopMachine, StopState.step] at hstep
      obtain ⟨pid, -, rfl⟩ := Option.map_eq_some_iff.mp hstep
      obtain ⟨stopped, sending⟩ := noted_letRun (letRun_letItResume s pid) hs
      exact ⟨stopped, sending⟩
  | console =>
      obtain rfl := Option.some.inj hstep
      exact noted_letRun (letRun_foldl s.stoppedPidList s) hs

end Invariant

/-! ## The console -/

/-- A hit that is not noted leaves its process stopped: the event is parsed, the signals are sent,
and the list stays empty. -/
theorem unnoted_stays {conf : StopConf} {point : u32} (hstops : conf.mayStop point = true)
    (hnotes : conf.notes 1 point = false) :
    ∃ t u, (stopMachine conf).run .init [.start 1, .hit ⟨1, point⟩, .parse ⟨1, point⟩,
        .signal ⟨1, point⟩ fun _ => false] = some t ∧
      t.step conf .console = some u ∧ u.stopped 1 = true ∧ u.samples = [] ∧ u.lost 1 = false := by
  have hfalse : conf.notes 1#32 point = false := hnotes
  have hstops' : conf.stoppedAfter point (fun _ => false) false = true := hstops
  simp [Machine.run, stopMachine, StopState.step, StopState.init, StopState.setAlive,
    StopState.letItRun, hstops', hfalse]

/-- The processor notes what the programs can stop, if one of the two `SIGSTOP` it looks for is
sent. -/
theorem notes_of_mayStop_iff (conf : StopConf) :
    (∀ pid point, pid ≠ 0 → conf.mayStop point = true → conf.notes pid point = true) ↔
      ∀ point, conf.mayStop point = true →
        conf.killSignal = sigstop ∨ conf.pointSignal point = sigstop := by
  unfold StopConf.notes
  constructor
  · intro h point hmay
    have hnotes := h 1 point (by decide) hmay
    simpa using hnotes
  · intro h pid point hpid hmay
    have hne : (pid != 0) = true := bne_iff_ne.mpr hpid
    rw [hne, Bool.and_true]
    simpa using h point hmay

/-- `--kill SIGTSTP` stops and is not noted; with a `SIGCONT` behind it nothing stops. -/
example : (StopConf.mk sigtstp 0 (fun _ => 0) false).mayStop 0 = true ∧
    (StopConf.mk sigtstp sigcont (fun _ => 0) false).mayStop 0 = false := by decide

end Stackplz
