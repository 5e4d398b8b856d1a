import Stackplz.Basic.Machine
import Stackplz.Probe.Types

/-!
# Dispatcher and workers

`EventProcessor.dispatch` looks the worker of an event up by uuid, creates and registers one
when there is none, and sends the event on its buffered channel. `eventWorker.Run` selects
between its ticker and its channel; on a tick with `tickerCount > MAX_TICKER_COUNT` it
unregisters itself and returns. Every lock section, channel operation and branch of the
select is one step here. `noEventLost_iff` names the moment at which a worker may
unregister without losing an event.
-/

set_option autoImplicit false

namespace Stackplz

variable {υ ε : Type} [DecidableEq υ]

def maxTickerCount : u8 := 10
def maxChanLen : Nat := 256

/-- An event as a worker receives it. -/
structure DataEvent (υ ε : Type) where
  uuid : υ
  body : ε

/-- Where a worker goroutine is: in its loop, in `Close` before the lock of
`delWorkerByUUID`, or past it, after which it only returns. -/
inductive WorkerPhase where
  | running | closing | stopped
deriving DecidableEq

structure EventWorker (υ ε : Type) where
  uuid : υ
  incoming : List (DataEvent υ ε)
  tickerCount : u8
  phase : WorkerPhase

/-- `eventWorker.init`. -/
def newEventWorker (uuid : υ) : EventWorker υ ε := ⟨uuid, [], 0, .running⟩

/-- Where `dispatch` is: waiting for an event, past a failed lookup, holding a worker it has
created, or holding the worker it is about to write to. Workers are named by the order of
their creation. -/
inductive DispatchPhase (υ ε : Type) where
  | idle
  | missing (e : DataEvent υ ε)
  | created (e : DataEvent υ ε) (worker : Nat)
  | holding (e : DataEvent υ ε) (worker : Nat)

/-- The worker the dispatcher has in hand. -/
def DispatchPhase.worker : DispatchPhase υ ε → Option Nat
  | idle | missing _ => none
  | created _ w | holding _ w => some w

structure ProcessorState (υ ε : Type) where
  workers : List (EventWorker υ ε)
  workerQueue : υ → Option Nat
  dispatch : DispatchPhase υ ε

def ProcessorState.init : ProcessorState υ ε := ⟨[], fun _ => none, .idle⟩

inductive ProcessorAction (υ ε : Type) where
  /-- `dispatch` takes an event and calls `getWorkerByUUID`. -/
  | getWorkerByUUID (e : DataEvent υ ε)
  /-- `NewEventWorker`. -/
  | newWorker
  | addWorkerByUUID
  /-- `eWorker.Write`; blocked while the channel is full. -/
  | write
  /-- The select of worker `w` takes a tick. -/
  | tick (w : Nat)
  /-- The select of worker `w` takes an event. -/
  | receive (w : Nat)
  /-- Worker `w` calls `delWorkerByUUID` from `Close` and returns. -/
  | delWorkerByUUID (w : Nat)
  /-- `EventProcessor.Close` raises the counter of worker `w`. -/
  | raiseTicker (w : Nat)

def ProcessorState.setWorker (s : ProcessorState υ ε) (w : Nat) (worker : EventWorker υ ε) :
    ProcessorState υ ε :=
  { s with workers := s.workers.set w worker }

def ProcessorState.step (s : ProcessorState υ ε) :
    ProcessorAction υ ε → Option (ProcessorState υ ε)
  | .getWorkerByUUID e =>
      match s.dispatch with
      | .idle =>
          match s.workerQueue e.uuid with
          | some w => some { s with dispatch := .holding e w }
          | none => some { s with dispatch := .missing e }
      | _ => none
  | .newWorker =>
      match s.dispatch with
      | .missing e => some { s with
          workers := s.workers ++ [newEventWorker e.uuid]
          dispatch := .created e s.workers.length }
      | _ => none
  | .addWorkerByUUID =>
      match s.dispatch with
      | .created e w => some { s with
          workerQueue := fun uuid => if uuid = e.uuid then some w else s.workerQueue uuid
          dispatch := .holding e w }
      | _ => none
  | .write =>
      match s.dispatch with
      | .holding e w =>
          (s.workers[w]?).bind fun worker =>
            if worker.incoming.length < maxChanLen then
              some { s.setWorker w { worker with incoming := worker.incoming ++ [e] } with
                dispatch := .idle }
            else none
      | _ => none
  | .tick w =>
      (s.workers[w]?).bind fun worker =>
        if worker.phase = .running then
          if worker.tickerCount > maxTickerCount then
            some (s.setWorker w { worker with tickerCount := 0, phase := .closing })
          else some (s.setWorker w { worker with tickerCount := worker.tickerCount + 1 })
        else none
  | .receive w =>
      (s.workers[w]?).bind fun worker =>
        match worker.phase, worker.incoming with
        | .running, _ :: rest =>
            some (s.setWorker w { worker with incoming := rest, tickerCount := 0 })
        | _, _ => none
  | .delWorkerByUUID w =>
      (s.workers[w]?).bind fun worker =>
        if worker.phase = .closing then
          some { s.setWorker w { worker with phase := .stopped } with
            workerQueue := fun uuid => if uuid = worker.uuid then none else s.workerQueue uuid }
        else none
  | .raiseTicker w =>
      (s.workers[w]?).bind fun worker =>
        some (s.setWorker w { worker with tickerCount := maxTickerCount + 1 })

def processorMachine (υ ε : Type) [DecidableEq υ] :
    Machine (ProcessorState υ ε) (ProcessorAction υ ε) :=
  ⟨ProcessorState.step⟩

/-- No event sits in the channel of a stopped worker, and none is about to be sent to it. -/
def ProcessorState.NoEventLost (s : ProcessorState υ ε) : Prop :=
  ∀ w worker, s.workers[w]? = some worker → worker.phase = .stopped →
    worker.incoming = [] ∧ s.dispatch.worker ≠ some w

/-- A worker unregisters only with an empty channel, and not between the moment the
dispatcher looks it up or creates it and the write. -/
def ProcessorState.Unregisters (s : ProcessorState υ ε) : ProcessorAction υ ε → Prop
  | .delWorkerByUUID w => ∀ worker, s.workers[w]? = some worker →
      worker.incoming = [] ∧ s.dispatch.worker ≠ some w
  | _ => True

/-- The map and the dispatcher name workers that exist, under their own uuid, and that have
not stopped. -/
structure ProcessorState.Inv (s : ProcessorState υ ε) : Prop where
  registered : ∀ uuid w, s.workerQueue uuid = some w →
    ∃ worker, s.workers[w]? = some worker ∧ worker.uuid = uuid ∧ worker.phase ≠ .stopped
  created : ∀ e w, s.dispatch = .created e w →
    ∃ worker, s.workers[w]? = some worker ∧ worker.uuid = e.uuid

omit [DecidableEq υ] in
theorem processorInv_init : (ProcessorState.init : ProcessorState υ ε).Inv where
  registered := fun _ _ h => by simp [ProcessorState.init] at h
  created := fun _ _ h => by simp [ProcessorState.init] at h

omit [DecidableEq υ] in
theorem noEventLost_init : (ProcessorState.init : ProcessorState υ ε).NoEventLost := by
  intro w worker hw
  simp [ProcessorState.init] at hw

/-! ## One worker changes -/

section Update

variable {s : ProcessorState υ ε} {w : Nat} {worker worker' : EventWorker υ ε}
  {q : υ → Option Nat} {d : DispatchPhase υ ε}

omit [DecidableEq υ] in
/-- The workers after one has changed. -/
theorem getElem?_update (hw : s.workers[w]? = some worker) (i : Nat) :
    (s.workers.set w worker')[i]? = if i = w then some worker' else s.workers[i]? := by
  have hlt : w < s.workers.length := (List.getElem?_eq_some_iff.mp hw).1
  rw [List.getElem?_set]
  by_cases h : i = w
  · subst h
    simp [hlt]
  · simp [h, Ne.symm h]

omit [DecidableEq υ] in
/-- Changing one worker loses no event if the worker, when it stops, has an empty channel and
is not in the dispatcher's hand. -/
private theorem noEventLost_update (hs : s.NoEventLost) (hw : s.workers[w]? = some worker)
    (hd : ∀ i, d.worker = some i → s.dispatch.worker = some i)
    (hstop : worker'.phase = .stopped → worker'.incoming = [] ∧ d.worker ≠ some w) :
    (⟨s.workers.set w worker', q, d⟩ : ProcessorState υ ε).NoEventLost := by
  intro i other hi hstopped
  rw [getElem?_update hw] at hi
  by_cases h : i = w
  · subst h
    obtain rfl : worker' = other := by simpa using hi
    exact hstop hstopped
  · rw [if_neg h] at hi
    obtain ⟨hempty, hfree⟩ := hs i other hi hstopped
    exact ⟨hempty, fun hdi => hfree (hd i hdi)⟩

omit [DecidableEq υ] in
/-- Changing one worker keeps the invariant if its uuid stays and it is not registered any
more when it stops. -/
private theorem processorInv_update (hs : s.Inv) (hw : s.workers[w]? = some worker)
    (huuid : worker'.uuid = worker.uuid)
    (hq : ∀ uuid i, q uuid = some i → s.workerQueue uuid = some i)
    (hd : ∀ e i, d = .created e i → s.dispatch = .created e i)
    (hstop : worker'.phase = .stopped → ∀ uuid, q uuid ≠ some w) :
    (⟨s.workers.set w worker', q, d⟩ : ProcessorState υ ε).Inv where
  registered := by
    intro uuid i hi
    obtain ⟨other, hother, hou, hrun⟩ := hs.registered uuid i (hq uuid i hi)
    by_cases h : i = w
    · subst h
      obtain rfl : worker = other := by simpa [hw] using hother
      exact ⟨worker', by simp [getElem?_update hw], huuid.trans hou,
        fun hst => hstop hst uuid hi⟩
    · exact ⟨other, by simp [getElem?_update hw, h, hother], hou, hrun⟩
  created := by
    intro e i hi
    obtain ⟨other, hother, hou⟩ := hs.created e i (hd e i hi)
    by_cases h : i = w
    · subst h
      obtain rfl : worker = other := by simpa [hw] using hother
      exact ⟨worker', by simp [getElem?_update hw], huuid.trans hou⟩
    · exact ⟨other, by simp [getElem?_update hw, h, hother], hou⟩

end Update

/-! ## One step -/

section Step

variable {s t : ProcessorState υ ε}

omit [DecidableEq υ] in
/-- The worker in the dispatcher's hand has not stopped. -/
private theorem not_stopped_of_hand (hP : s.NoEventLost) {w : Nat} {worker : EventWorker υ ε}
    (hw : s.workers[w]? = some worker) (hd : s.dispatch.worker = some w) :
    worker.phase ≠ .stopped :=
  fun hst => (hP w worker hw hst).2 hd

private theorem step_getWorker (hI : s.Inv) (hP : s.NoEventLost) {e : DataEvent υ ε}
    (h : s.step (.getWorkerByUUID e) = some t) : t.Inv ∧ t.NoEventLost := by
  cases hd : s.dispatch with
  | idle =>
      cases hq : s.workerQueue e.uuid with
      | some w =>
          obtain rfl : { s with dispatch := .holding e w } = t := by
            simpa [ProcessorState.step, hd, hq] using h
          refine ⟨⟨hI.registered, fun _ _ hc => by simp at hc⟩, ?_⟩
          intro i worker hi hst
          refine ⟨(hP i worker hi hst).1, ?_⟩
          rintro ⟨⟩
          obtain ⟨other, hother, _, hrun⟩ := hI.registered _ _ hq
          obtain rfl : worker = other := by
            rw [show s.workers[w]? = some worker from hi] at hother
            exact Option.some.inj hother
          exact hrun hst
      | none =>
          obtain rfl : { s with dispatch := .missing e } = t := by
            simpa [ProcessorState.step, hd, hq] using h
          refine ⟨⟨hI.registered, fun _ _ hc => by simp at hc⟩, ?_⟩
          intro i worker hi hst
          exact ⟨(hP i worker hi hst).1, by simp [DispatchPhase.worker]⟩
  | _ => simp [ProcessorState.step, hd] at h

private theorem step_newWorker (hI : s.Inv) (hP : s.NoEventLost)
    (h : s.step .newWorker = some t) : t.Inv ∧ t.NoEventLost := by
  cases hd : s.dispatch with
  | missing e =>
      obtain rfl : (⟨s.workers ++ [newEventWorker e.uuid], s.workerQueue,
          .created e s.workers.length⟩ : ProcessorState υ ε) = t := by
        simpa [ProcessorState.step, hd] using h
      have hold : ∀ (i : Nat) worker, s.workers[i]? = some worker →
          (s.workers ++ [newEventWorker e.uuid])[i]? = some worker := by
        intro i worker hi
        rw [List.getElem?_append_left (List.getElem?_eq_some_iff.mp hi).1, hi]
      refine ⟨⟨?_, ?_⟩, ?_⟩
      · intro uuid i hi
        obtain ⟨worker, hw, hrest⟩ := hI.registered uuid i hi
        exact ⟨worker, hold i worker hw, hrest⟩
      · rintro _ _ ⟨⟩
        exact ⟨newEventWorker e.uuid, by simp, rfl⟩
      · intro i worker hi hst
        rcases Nat.lt_or_ge i s.workers.length with hlt | hge
        · have hi' : s.workers[i]? = some worker := by
            rwa [List.getElem?_append_left hlt] at hi
          refine ⟨(hP i worker hi' hst).1, ?_⟩
          rintro ⟨⟩
          exact Nat.lt_irrefl _ hlt
        · -- only the new worker is left, and it runs
          rw [List.getElem?_append_right hge, List.getElem?_singleton] at hi
          split at hi
          · obtain rfl : newEventWorker e.uuid = worker := Option.some.inj hi
            exact absurd hst (by simp [newEventWorker])
          · exact absurd hi (by simp)
  | _ => simp [ProcessorState.step, hd] at h

private theorem step_addWorker (hI : s.Inv) (hP : s.NoEventLost)
    (h : s.step .addWorkerByUUID = some t) : t.Inv ∧ t.NoEventLost := by
  cases hd : s.dispatch with
  | created e w =>
      obtain rfl : (⟨s.workers, fun uuid => if uuid = e.uuid then some w else s.workerQueue uuid,
          .holding e w⟩ : ProcessorState υ ε) = t := by
        simpa [ProcessorState.step, hd] using h
      obtain ⟨worker, hw, huuid⟩ := hI.created e w hd
      have hhand : s.dispatch.worker = some w := by rw [hd]; rfl
      refine ⟨⟨?_, fun _ _ hc => by simp at hc⟩, ?_⟩
      · intro uuid i hi
        by_cases hu : uuid = e.uuid
        · obtain rfl : w = i := by simpa [hu] using hi
          exact ⟨worker, hw, huuid.trans hu.symm, not_stopped_of_hand hP hw hhand⟩
        · exact hI.registered uuid i (by simpa [hu] using hi)
      · intro i other hi hst
        obtain ⟨hempty, hfree⟩ := hP i other hi hst
        exact ⟨hempty, by rwa [hhand] at hfree⟩
  | _ => simp [ProcessorState.step, hd] at h

private theorem step_write (hI : s.Inv) (hP : s.NoEventLost) (h : s.step .write = some t) :
    t.Inv ∧ t.NoEventLost := by
  cases hd : s.dispatch with
  | holding e w =>
      obtain ⟨worker, hw, hsend⟩ : ∃ worker, s.workers[w]? = some worker ∧
          (if worker.incoming.length < maxChanLen then
            some (⟨s.workers.set w { worker with incoming := worker.incoming ++ [e] },
              s.workerQueue, .idle⟩ : ProcessorState υ ε) else none) = some t := by
        simpa [ProcessorState.step, ProcessorState.setWorker, hd, Option.bind_eq_some_iff] using h
      split at hsend
      · obtain rfl := Option.some.inj hsend
        have hrun : worker.phase ≠ .stopped :=
          not_stopped_of_hand hP hw (by rw [hd]; rfl)
        exact ⟨processorInv_update hI hw rfl (fun _ _ => id) (fun _ _ hc => by simp at hc)
            (fun hst => absurd hst hrun),
          noEventLost_update hP hw (fun _ hc => by simp [DispatchPhase.worker] at hc)
            (fun hst => absurd hst hrun)⟩
      · exact absurd hsend (by simp)
  | _ => simp [ProcessorState.step, hd] at h

omit [DecidableEq υ] in
/-- A step of a worker that leaves the queue and the dispatcher alone, and the phase of a
stopped worker with its channel. -/
private theorem step_setWorker (hI : s.Inv) (hP : s.NoEventLost) {w : Nat}
    {worker worker' : EventWorker υ ε} (hw : s.workers[w]? = some worker)
    (huuid : worker'.uuid = worker.uuid)
    (hstop : worker'.phase = .stopped →
      worker.phase = .stopped ∧ worker'.incoming = worker.incoming) :
    (s.setWorker w worker').Inv ∧ (s.setWorker w worker').NoEventLost := by
  refine ⟨processorInv_update hI hw huuid (fun _ _ => id) (fun _ _ => id) ?_,
    noEventLost_update hP hw (fun _ => id) ?_⟩
  · intro hst uuid hreg
    obtain ⟨other, hother, _, hrun⟩ := hI.registered uuid w hreg
    obtain rfl : worker = other := by simpa [hw] using hother
    exact hrun (hstop hst).1
  · intro hst
    obtain ⟨hold, hsame⟩ := hstop hst
    rw [hsame]
    exact hP w worker hw hold

private theorem step_tick (hI : s.Inv) (hP : s.NoEventLost) {w : Nat}
    (h : s.step (.tick w) = some t) : t.Inv ∧ t.NoEventLost := by
  simp only [ProcessorState.step, Option.bind_eq_some_iff] at h
  obtain ⟨worker, hw, h⟩ := h
  by_cases hphase : worker.phase = .running
  · rw [if_pos hphase] at h
    split at h
    · obtain rfl := Option.some.inj h
      exact step_setWorker hI hP hw rfl (fun hst => by simp at hst)
    · obtain rfl := Option.some.inj h
      exact step_setWorker hI hP hw rfl (fun hst => by simp [hphase] at hst)
  · simp [hphase] at h

private theorem step_receive (hI : s.Inv) (hP : s.NoEventLost) {w : Nat}
    (h : s.step (.receive w) = some t) : t.Inv ∧ t.NoEventLost := by
  simp only [ProcessorState.step, Option.bind_eq_some_iff] at h
  obtain ⟨worker, hw, h⟩ := h
  cases hphase : worker.phase with
  | running =>
      cases hin : worker.incoming with
      | cons e rest =>
          obtain rfl : s.setWorker w { worker with incoming := rest, tickerCount := 0 } = t := by
            simpa [hphase, hin] using h
          exact step_setWorker hI hP hw rfl (fun hst => by simp [hphase] at hst)
      | nil => simp [hphase, hin] at h
  | _ => simp [hphase] at h

private theorem step_raiseTicker (hI : s.Inv) (hP : s.NoEventLost) {w : Nat}
    (h : s.step (.raiseTicker w) = some t) : t.Inv ∧ t.NoEventLost := by
  simp only [ProcessorState.step, Option.bind_eq_some_iff] at h
  obtain ⟨worker, hw, h⟩ := h
  obtain rfl := Option.some.inj h
  exact step_setWorker hI hP hw rfl (fun hst => ⟨hst, rfl⟩)

/-- The one step that can lose an event: a worker unregisters. -/
private theorem step_delWorker (hI : s.Inv) (hP : s.NoEventLost) {w : Nat}
    (h : s.step (.delWorkerByUUID w) = some t) :
    t.Inv ∧ (t.NoEventLost ↔ s.Unregisters (.delWorkerByUUID w)) := by
  simp only [ProcessorState.step, Option.bind_eq_some_iff] at h
  obtain ⟨worker, hw, h⟩ := h
  by_cases hphase : worker.phase = .closing
  · obtain rfl : (⟨s.workers.set w { worker with phase := .stopped },
        fun uuid => if uuid = worker.uuid then none else s.workerQueue uuid, s.dispatch⟩ :
          ProcessorState υ ε) = t := by
      simpa [hphase, ProcessorState.setWorker] using h
    refine ⟨processorInv_update hI hw rfl ?_ (fun _ _ => id) ?_, ?_, ?_⟩
    · intro uuid i hi
      by_cases hu : uuid = worker.uuid
      · simp [hu] at hi
      · simpa [hu] using hi
    · intro _ uuid hreg
      by_cases hu : uuid = worker.uuid
      · simp [hu] at hreg
      · obtain ⟨other, hother, hou, _⟩ := hI.registered uuid w (by simpa [hu] using hreg)
        obtain rfl : worker = other := by simpa [hw] using hother
        exact hu hou.symm
    · intro hlost other hother
      obtain rfl : worker = other := by simpa [hw] using hother
      exact hlost w { worker with phase := .stopped } (by simp [getElem?_update hw]) rfl
    · intro hguard
      exact noEventLost_update hP hw (fun _ => id) (fun _ => hguard worker hw)
  · simp [hphase] at h

end Step

private theorem step_exact {s t : ProcessorState υ ε} {a : ProcessorAction υ ε} (hI : s.Inv)
    (hP : s.NoEventLost) (h : s.step a = some t) :
    t.Inv ∧ (t.NoEventLost ↔ s.Unregisters a) := by
  have harmless : t.Inv ∧ t.NoEventLost → t.Inv ∧ (t.NoEventLost ↔ True) :=
    fun ⟨hInv, hlost⟩ => ⟨hInv, fun _ => trivial, fun _ => hlost⟩
  cases a with
  | getWorkerByUUID e => exact harmless (step_getWorker hI hP h)
  | newWorker => exact harmless (step_newWorker hI hP h)
  | addWorkerByUUID => exact harmless (step_addWorker hI hP h)
  | write => exact harmless (step_write hI hP h)
  | tick w => exact harmless (step_tick hI hP h)
  | receive w => exact harmless (step_receive hI hP h)
  | delWorkerByUUID w => exact step_delWorker hI hP h
  | raiseTicker w => exact harmless (step_raiseTicker hI hP h)

/-- **When no event is lost.** Along every interleaving of the dispatcher, the workers and
`Close`, no event sits in the channel of a stopped worker or is on its way to one exactly
when every worker that unregisters has an empty channel and is not in the dispatcher's
hand. -/
theorem noEventLost_iff (actions : List (ProcessorAction υ ε)) :
    (processorMachine υ ε).Throughout ProcessorState.NoEventLost ProcessorState.init actions ↔
      (processorMachine υ ε).Guarded ProcessorState.Unregisters ProcessorState.init actions :=
  Machine.throughout_iff_guarded (fun _ _ => True) _ ProcessorState.Inv _
    (fun _ _ _ hI hP hstep => (step_exact hI hP hstep).1)
    (fun _ _ _ hI hP _ hstep => (step_exact hI hP hstep).2)
    actions _ processorInv_init noEventLost_init (Machine.guarded_true _ _ _)

/-! ### A run of one worker that loses an event -/

/-- An event is dispatched to a new worker; `Close` raises the worker's counter, and the
select takes the tick although the event is ready. -/
def closeBeforeReceive : List (ProcessorAction Nat Nat) :=
  [.getWorkerByUUID ⟨1, 7⟩, .newWorker, .addWorkerByUUID, .write, .raiseTicker 0, .tick 0,
    .delWorkerByUUID 0]

/-- The worker stops with the event in its channel. -/
theorem closeBeforeReceive_loses_event :
    ∃ s worker, (processorMachine Nat Nat).run ProcessorState.init closeBeforeReceive = some s ∧
      s.workers[0]? = some worker ∧ worker.phase = .stopped ∧ worker.incoming = [⟨1, 7⟩] :=
  ⟨_, _, rfl, rfl, rfl, rfl⟩

end Stackplz
