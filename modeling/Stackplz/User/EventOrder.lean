import Stackplz.User.EventProcessor
import Stackplz.User.ParseEvent

/-!
# The order of printed events

A worker that has received an event parses it before it goes on with its loop. Here each worker
holds the event it parses, and two logs say which events were dispatched and which were printed.
The workers of one uuid follow each other: while one of them is registered or can print, there
is no other, although a worker unregisters itself by its uuid and a worker that stops before it
is registered stays registered for good.
-/

set_option autoImplicit false

namespace Stackplz

variable {υ ε : Type} [DecidableEq υ]

/-! ## What a step of the processor does -/

/-- The branches of `ProcessorState.step`. -/
inductive ProcessorStep (s : ProcessorState υ ε) :
    ProcessorAction υ ε → ProcessorState υ ε → Prop where
  | found {e : DataEvent υ ε} {w : Nat} (hd : s.dispatch = .idle)
      (hq : s.workerQueue e.uuid = some w) :
      ProcessorStep s (.getWorkerByUUID e) { s with dispatch := .holding e w }
  | missing {e : DataEvent υ ε} (hd : s.dispatch = .idle) (hq : s.workerQueue e.uuid = none) :
      ProcessorStep s (.getWorkerByUUID e) { s with dispatch := .missing e }
  | newWorker {e : DataEvent υ ε} (hd : s.dispatch = .missing e) :
      ProcessorStep s .newWorker { s with
        workers := s.workers ++ [newEventWorker e.uuid]
        dispatch := .created e s.workers.length }
  | addWorker {e : DataEvent υ ε} {w : Nat} (hd : s.dispatch = .created e w) :
      ProcessorStep s .addWorkerByUUID { s with
        workerQueue := fun uuid => if uuid = e.uuid then some w else s.workerQueue uuid
        dispatch := .holding e w }
  | write {e : DataEvent υ ε} {w : Nat} {worker : EventWorker υ ε}
      (hd : s.dispatch = .holding e w) (hw : s.workers[w]? = some worker)
      (hroom : worker.incoming.length < maxChanLen) :
      ProcessorStep s .write
        { s.setWorker w { worker with incoming := worker.incoming ++ [e] } with dispatch := .idle }
  | tick {w : Nat} {worker : EventWorker υ ε} (count : u8) {phase : WorkerPhase}
      (hw : s.workers[w]? = some worker) (hrun : worker.phase = .running)
      (hphase : phase ≠ .stopped) :
      ProcessorStep s (.tick w)
        (s.setWorker w { worker with tickerCount := count, phase := phase })
  | receive {e : DataEvent υ ε} {w : Nat} {worker : EventWorker υ ε}
      {incoming : List (DataEvent υ ε)} (hw : s.workers[w]? = some worker)
      (hrun : worker.phase = .running) (hincoming : worker.incoming = e :: incoming) :
      ProcessorStep s (.receive w)
        (s.setWorker w { worker with incoming := incoming, tickerCount := 0 })
  | delWorker {w : Nat} {worker : EventWorker υ ε} (hw : s.workers[w]? = some worker)
      (hclosing : worker.phase = .closing) :
      ProcessorStep s (.delWorkerByUUID w) { s.setWorker w { worker with phase := .stopped } with
        workerQueue := fun uuid => if uuid = worker.uuid then none else s.workerQueue uuid }
  | raiseTicker {w : Nat} {worker : EventWorker υ ε} (hw : s.workers[w]? = some worker) :
      ProcessorStep s (.raiseTicker w)
        (s.setWorker w { worker with tickerCount := maxTickerCount + 1 })

theorem processorStep_of_step {s t : ProcessorState υ ε} {a : ProcessorAction υ ε}
    (h : s.step a = some t) : ProcessorStep s a t := by
  cases a with
  | getWorkerByUUID e =>
      cases hd : s.dispatch with
      | idle =>
          cases hq : s.workerQueue e.uuid with
          | some w =>
              obtain rfl : _ = t := by simpa [ProcessorState.step, hd, hq] using h
              exact .found hd hq
          | none =>
              obtain rfl : _ = t := by simpa [ProcessorState.step, hd, hq] using h
              exact .missing hd hq
      | _ => simp [ProcessorState.step, hd] at h
  | newWorker =>
      cases hd : s.dispatch with
      | missing e =>
          obtain rfl : _ = t := by simpa [ProcessorState.step, hd] using h
          exact .newWorker hd
      | _ => simp [ProcessorState.step, hd] at h
  | addWorkerByUUID =>
      cases hd : s.dispatch with
      | created e w =>
          obtain rfl : _ = t := by simpa [ProcessorState.step, hd] using h
          exact .addWorker hd
      | _ => simp [ProcessorState.step, hd] at h
  | write =>
      cases hd : s.dispatch with
      | holding e w =>
          simp only [ProcessorState.step, hd, Option.bind_eq_some_iff] at h
          obtain ⟨worker, hw, h⟩ := h
          split at h
          · obtain rfl := Option.some.inj h
            exact .write hd hw ‹_›
          · cases h
      | _ => simp [ProcessorState.step, hd] at h
  | tick w =>
      simp only [ProcessorState.step, Option.bind_eq_some_iff] at h
      obtain ⟨worker, hw, h⟩ := h
      split at h
      · rename_i hrun
        split at h
        · obtain rfl := Option.some.inj h
          exact .tick 0 hw hrun (by decide)
        · obtain rfl := Option.some.inj h
          exact .tick _ hw hrun (by rw [hrun]; decide)
      · cases h
  | receive w =>
      simp only [ProcessorState.step, Option.bind_eq_some_iff] at h
      obtain ⟨worker, hw, h⟩ := h
      split at h
      · rename_i e incoming hrun hincoming
        obtain rfl := Option.some.inj h
        exact .receive hw hrun hincoming
      · cases h
  | delWorkerByUUID w =>
      simp only [ProcessorState.step, Option.bind_eq_some_iff] at h
      obtain ⟨worker, hw, h⟩ := h
      split at h
      · obtain rfl := Option.some.inj h
        exact .delWorker hw ‹_›
      · cases h
  | raiseTicker w =>
      simp only [ProcessorState.step, Option.bind_eq_some_iff] at h
      obtain ⟨worker, hw, h⟩ := h
      obtain rfl := Option.some.inj h
      exact .raiseTicker hw

/-! ## One worker for each uuid -/

/-- Workers that have not stopped are registered, but for one that the dispatcher has just
created for a uuid without a worker. -/
structure ProcessorState.OneWorker (s : ProcessorState υ ε) : Prop where
  registered : ∀ uuid w, s.workerQueue uuid = some w →
    ∃ worker, s.workers[w]? = some worker ∧ worker.uuid = uuid
  live : ∀ w worker, s.workers[w]? = some worker → worker.phase ≠ .stopped →
    s.workerQueue worker.uuid = some w ∨ ∃ e, s.dispatch = .created e w
  missing : ∀ e, s.dispatch = .missing e → s.workerQueue e.uuid = none
  created : ∀ e w, s.dispatch = .created e w → s.workerQueue e.uuid = none
  hand : ∀ e w, s.dispatch = .created e w ∨ s.dispatch = .holding e w →
    ∃ worker, s.workers[w]? = some worker ∧ worker.uuid = e.uuid

/-- The worker is registered under the uuid, or has not stopped. -/
def ProcessorState.Active (s : ProcessorState υ ε) (uuid : υ) (w : Nat) : Prop :=
  s.workerQueue uuid = some w ∨
    ∃ worker, s.workers[w]? = some worker ∧ worker.uuid = uuid ∧ worker.phase ≠ .stopped

omit [DecidableEq υ] in
theorem oneWorker_init : (ProcessorState.init : ProcessorState υ ε).OneWorker where
  registered := fun _ _ h => by cases h
  live := fun w _ h => by simp [ProcessorState.init] at h
  missing := fun _ h => by cases h
  created := fun _ _ h => by cases h
  hand := fun _ _ h => by rcases h with h | h <;> cases h

section

variable {s t : ProcessorState υ ε} {w : Nat} {worker worker' : EventWorker υ ε}

omit [DecidableEq υ] in
/-- An active worker is registered, or the dispatcher has just created it for this uuid. -/
theorem ProcessorState.OneWorker.active_cases (hs : s.OneWorker) {uuid : υ}
    (h : s.Active uuid w) : s.workerQueue uuid = some w ∨
      s.workerQueue uuid = none ∧ ∃ e, s.dispatch = .created e w := by
  rcases h with hreg | ⟨worker, hw, rfl, hphase⟩
  · exact Or.inl hreg
  · rcases hs.live w worker hw hphase with hreg | ⟨e, hd⟩
    · exact Or.inl hreg
    · refine Or.inr ⟨?_, e, hd⟩
      obtain ⟨other, hother, huuid⟩ := hs.hand e w (Or.inl hd)
      obtain rfl : worker = other := Option.some.inj (hw.symm.trans hother)
      rw [huuid]
      exact hs.created e w hd

omit [DecidableEq υ] in
/-- **At most one worker is active for a uuid.** -/
theorem ProcessorState.OneWorker.unique (hs : s.OneWorker) {uuid : υ} {w' : Nat}
    (h : s.Active uuid w) (h' : s.Active uuid w') : w = w' := by
  rcases hs.active_cases h with hreg | ⟨hnone, e, hd⟩ <;>
    rcases hs.active_cases h' with hreg' | ⟨hnone', e', hd'⟩
  · exact Option.some.inj (hreg.symm.trans hreg')
  · rw [hnone'] at hreg
    cases hreg
  · rw [hnone] at hreg'
    cases hreg'
  · rw [hd] at hd'
    exact (DispatchPhase.created.inj hd').2

omit [DecidableEq υ] in
theorem getElem?_setWorker (hw : s.workers[w]? = some worker) (i : Nat) :
    (s.setWorker w worker').workers[i]? = if i = w then some worker' else s.workers[i]? :=
  getElem?_update hw i

omit [DecidableEq υ] in
/-- A worker that keeps its uuid is found where it was. -/
theorem exists_setWorker (hw : s.workers[w]? = some worker) (huuid : worker'.uuid = worker.uuid)
    {i : Nat} {uuid : υ} (h : ∃ other, s.workers[i]? = some other ∧ other.uuid = uuid) :
    ∃ other, (s.setWorker w worker').workers[i]? = some other ∧ other.uuid = uuid := by
  obtain ⟨other, hother, rfl⟩ := h
  by_cases hi : i = w
  · subst hi
    obtain rfl : worker = other := Option.some.inj (hw.symm.trans hother)
    exact ⟨worker', by rw [getElem?_setWorker hw, if_pos rfl], huuid⟩
  · exact ⟨other, by rw [getElem?_setWorker hw, if_neg hi, hother], rfl⟩

omit [DecidableEq υ] in
/-- A worker of the new state that has not stopped had not stopped before. -/
theorem live_setWorker (hw : s.workers[w]? = some worker) (huuid : worker'.uuid = worker.uuid)
    (hphase : worker'.phase ≠ .stopped → worker.phase ≠ .stopped) {i : Nat}
    {other : EventWorker υ ε} (hother : (s.setWorker w worker').workers[i]? = some other)
    (hlive : other.phase ≠ .stopped) : ∃ old, s.workers[i]? = some old ∧
      old.uuid = other.uuid ∧ old.phase ≠ .stopped := by
  rw [getElem?_setWorker hw] at hother
  by_cases hi : i = w
  · subst hi
    rw [if_pos rfl] at hother
    obtain rfl := Option.some.inj hother
    exact ⟨worker, hw, huuid.symm, hphase hlive⟩
  · rw [if_neg hi] at hother
    exact ⟨other, hother, rfl, hlive⟩

omit [DecidableEq υ] in
/-- A worker that changes without starting again, while the map stays. -/
theorem oneWorker_setWorker (hs : s.OneWorker) (hw : s.workers[w]? = some worker)
    (huuid : worker'.uuid = worker.uuid)
    (hphase : worker'.phase ≠ .stopped → worker.phase ≠ .stopped) :
    (s.setWorker w worker').OneWorker where
  registered := fun uuid i hi => exists_setWorker hw huuid (hs.registered uuid i hi)
  live := by
    intro i other hother hlive
    obtain ⟨old, hold, hou, hrun⟩ := live_setWorker hw huuid hphase hother hlive
    rw [← hou]
    exact hs.live i old hold hrun
  missing := hs.missing
  created := hs.created
  hand := fun e i hd => exists_setWorker hw huuid (hs.hand e i hd)

/-- The crux: a worker that unregisters its uuid finds itself there. -/
theorem oneWorker_delWorker (hs : s.OneWorker) (hw : s.workers[w]? = some worker)
    (hclosing : worker.phase = .closing) :
    ({ s.setWorker w { worker with phase := .stopped } with
      workerQueue := fun uuid => if uuid = worker.uuid then none else s.workerQueue uuid } :
        ProcessorState υ ε).OneWorker := by
  have hstopped : ({ worker with phase := .stopped } : EventWorker υ ε).uuid = worker.uuid := rfl
  have hactive : s.Active worker.uuid w := by
    refine Or.inr ⟨worker, hw, rfl, ?_⟩
    rw [hclosing]
    decide
  have hnone {uuid : υ} (h : s.workerQueue uuid = none) :
      (if uuid = worker.uuid then none else s.workerQueue uuid) = none := by
    rw [h, ite_self]
  refine ⟨?_, ?_, fun e hd => hnone (hs.missing e hd), fun e i hd => hnone (hs.created e i hd),
    fun e i hd => exists_setWorker hw hstopped (hs.hand e i hd)⟩
  · intro uuid i hi
    refine exists_setWorker hw hstopped (hs.registered uuid i ?_)
    dsimp only at hi
    split at hi
    · cases hi
    · exact hi
  · intro i other hother hlive
    obtain ⟨old, hold, hou, hrun⟩ :=
      live_setWorker hw hstopped (fun h => absurd rfl h) hother hlive
    rw [← hou]
    by_cases huuid : old.uuid = worker.uuid
    · -- the worker of this uuid is the one that stops
      have hiw : i = w := hs.unique (Or.inr ⟨old, hold, huuid, hrun⟩) hactive
      subst hiw
      rw [show _ = _ from getElem?_setWorker hw i, if_pos rfl] at hother
      obtain rfl := Option.some.inj hother
      exact absurd rfl hlive
    · rcases hs.live i old hold hrun with hreg | hd
      · exact Or.inl ((if_neg huuid).trans hreg)
      · exact Or.inr hd

/-- Every step leaves at most one worker for each uuid. -/
theorem oneWorker_step (hs : s.OneWorker) {a : ProcessorAction υ ε}
    (h : ProcessorStep s a t) : t.OneWorker := by
  -- the dispatcher does not hold a created worker while it looks another one up
  have hidle (hd : s.dispatch = .idle ∨ ∃ e w, s.dispatch = .holding e w) {w : Nat}
      {worker : EventWorker υ ε} (hw : s.workers[w]? = some worker)
      (hphase : worker.phase ≠ .stopped) : s.workerQueue worker.uuid = some w := by
    rcases hs.live w worker hw hphase with hreg | ⟨e, hcreated⟩
    · exact hreg
    · rw [hcreated] at hd
      rcases hd with hd | ⟨_, _, hd⟩ <;> cases hd
  cases h with
  | found hd hq =>
      refine ⟨hs.registered, fun i other hother hlive => ?_, ?_, ?_, ?_⟩
      · exact Or.inl (hidle (Or.inl hd) hother hlive)
      · rintro _ ⟨⟩
      · rintro _ _ ⟨⟩
      · rintro _ _ (⟨⟨⟩⟩ | ⟨⟨⟩⟩)
        exact hs.registered _ _ hq
  | missing hd hq =>
      refine ⟨hs.registered, fun i other hother hlive => ?_, ?_, ?_, ?_⟩
      · exact Or.inl (hidle (Or.inl hd) hother hlive)
      · rintro _ ⟨⟩
        exact hq
      · rintro _ _ ⟨⟩
      · rintro _ _ (⟨⟨⟩⟩ | ⟨⟨⟩⟩)
  | @newWorker e hd =>
      have hold {i : Nat} {other : EventWorker υ ε} (h : s.workers[i]? = some other) :
          (s.workers ++ [newEventWorker e.uuid])[i]? = some other := by
        rw [List.getElem?_append_left (List.getElem?_eq_some_iff.mp h).1, h]
      refine ⟨fun uuid i hi => ?_, fun i other hother hlive => ?_, ?_, ?_, ?_⟩
      · obtain ⟨other, hother, huuid⟩ := hs.registered uuid i hi
        exact ⟨other, hold hother, huuid⟩
      · rcases Nat.lt_or_ge i s.workers.length with hlt | hge
        · rw [List.getElem?_append_left hlt] at hother
          rcases hs.live i other hother hlive with hreg | ⟨e', hd'⟩
          · exact Or.inl hreg
          · rw [hd] at hd'
            cases hd'
        · rw [List.getElem?_append_right hge, List.getElem?_singleton] at hother
          split at hother
          · exact Or.inr ⟨e, by rw [show i = s.workers.length by omega]⟩
          · cases hother
      · rintro _ ⟨⟩
      · rintro _ _ ⟨⟩
        exact hs.missing e hd
      · rintro _ _ (⟨⟨⟩⟩ | ⟨⟨⟩⟩)
        exact ⟨newEventWorker e.uuid, by simp, rfl⟩
  | @addWorker e w hd =>
      obtain ⟨worker, hw, huuid⟩ := hs.hand e w (Or.inl hd)
      refine ⟨fun uuid i hi => ?_, fun i other hother hlive => ?_, ?_, ?_, ?_⟩
      · dsimp only at hi
        split at hi
        · rename_i heq
          obtain rfl := Option.some.inj hi
          exact ⟨worker, hw, huuid.trans heq.symm⟩
        · exact hs.registered uuid i hi
      · refine Or.inl ?_
        dsimp only
        split
        · rename_i heq
          -- the created worker is the only active one of its uuid
          rcases hs.active_cases (Or.inr ⟨other, hother, heq, hlive⟩) with hreg | ⟨-, e', hd'⟩
          · rw [hs.created e w hd] at hreg
            cases hreg
          · rw [hd] at hd'
            rw [(DispatchPhase.created.inj hd').2]
        · rename_i hne
          rcases hs.live i other hother hlive with hreg | ⟨e', hd'⟩
          · exact hreg
          · rw [hd] at hd'
            obtain ⟨rfl, rfl⟩ := DispatchPhase.created.inj hd'
            obtain rfl : worker = other := Option.some.inj (hw.symm.trans hother)
            exact absurd huuid hne
      · rintro _ ⟨⟩
      · rintro _ _ ⟨⟩
      · rintro _ _ (⟨⟨⟩⟩ | ⟨⟨⟩⟩)
        exact ⟨worker, hw, huuid⟩
  | @write e w worker hd hw hroom =>
      have huuid : ({ worker with incoming := worker.incoming ++ [e] } : EventWorker υ ε).uuid =
          worker.uuid := rfl
      have hset := oneWorker_setWorker hs hw huuid id
      refine ⟨hset.registered, fun i other hother hlive => Or.inl ?_, ?_, ?_, ?_⟩
      · obtain ⟨old, hold, hou, hrun⟩ := live_setWorker hw huuid id hother hlive
        rw [← hou]
        exact hidle (Or.inr ⟨e, w, hd⟩) hold hrun
      · rintro _ ⟨⟩
      · rintro _ _ ⟨⟩
      · rintro _ _ (⟨⟨⟩⟩ | ⟨⟨⟩⟩)
  | tick count hw hrun hphase =>
      refine oneWorker_setWorker hs hw rfl fun _ => ?_
      rw [hrun]
      decide
  | receive hw hrun hincoming => exact oneWorker_setWorker hs hw rfl id
  | delWorker hw hclosing => exact oneWorker_delWorker hs hw hclosing
  | raiseTicker hw => exact oneWorker_setWorker hs hw rfl id

end

/-! ## Printing -/

/-- What `parserEvent` prints of an event. -/
def parserEvent (recordType : ε → u32) (e : DataEvent υ ε) : List (DataEvent υ ε) :=
  let type := recordType e.body
  if type = perfRecordComm ∨ type = perfRecordMmap2 ∨ type = perfRecordExit ∨
    type = perfRecordFork then []
  else [e]

/-- The processor with the event that each worker parses, and the events that were dispatched
and printed. -/
structure PrinterState (υ ε : Type) where
  processor : ProcessorState υ ε
  parsing : Nat → Option (DataEvent υ ε)
  dispatched : List (DataEvent υ ε)
  printed : List (DataEvent υ ε)

def PrinterState.init : PrinterState υ ε := ⟨ProcessorState.init, fun _ => none, [], []⟩

inductive PrinterAction (υ ε : Type) where
  | processor (a : ProcessorAction υ ε)
  /-- Worker `w` prints the event it has received, or passes over it. -/
  | parserEvent (w : Nat)

/-- The event that `dispatch` starts with. -/
def ProcessorAction.event : ProcessorAction υ ε → Option (DataEvent υ ε)
  | .getWorkerByUUID e => some e
  | _ => none

/-- A worker that parses an event is not in its select. -/
def PrinterState.busy (s : PrinterState υ ε) : ProcessorAction υ ε → Bool
  | .tick w | .receive w | .delWorkerByUUID w => (s.parsing w).isSome
  | _ => false

/-- The events that are parsed after a step. -/
def PrinterState.parsingAfter (s : PrinterState υ ε) :
    ProcessorAction υ ε → Nat → Option (DataEvent υ ε)
  | .receive w => fun i =>
      if i = w then (s.processor.workers[w]?).bind fun worker => worker.incoming.head?
      else s.parsing i
  | _ => s.parsing

def PrinterState.step (recordType : ε → u32) (s : PrinterState υ ε) :
    PrinterAction υ ε → Option (PrinterState υ ε)
  | .processor a =>
      if s.busy a then none
      else (s.processor.step a).map fun processor =>
        { s with
          processor := processor
          parsing := s.parsingAfter a
          dispatched := s.dispatched ++ a.event.toList }
  | .parserEvent w => (s.parsing w).map fun e =>
      { s with
        parsing := fun i => if i = w then none else s.parsing i
        printed := s.printed ++ Stackplz.parserEvent recordType e }

def printerMachine (υ ε : Type) [DecidableEq υ] (recordType : ε → u32) :
    Machine (PrinterState υ ε) (PrinterAction υ ε) :=
  ⟨PrinterState.step recordType⟩

/-! ## Where the events of a uuid are -/

/-- The events of one uuid. -/
def eventsOf (uuid : υ) (events : List (DataEvent υ ε)) : List (DataEvent υ ε) :=
  events.filter fun e => e.uuid = uuid

/-- The event that the dispatcher has not written yet. -/
def DispatchPhase.event : DispatchPhase υ ε → Option (DataEvent υ ε)
  | .idle => none
  | .missing e | .created e _ | .holding e _ => some e

/-- The events of a uuid that wait for the dispatcher. -/
def PrinterState.pending (s : PrinterState υ ε) (uuid : υ) : List (DataEvent υ ε) :=
  eventsOf uuid s.processor.dispatch.event.toList

/-- The events that wait for a worker. -/
def PrinterState.line (s : PrinterState υ ε) (w : Nat) (worker : EventWorker υ ε) :
    List (DataEvent υ ε) := (s.parsing w).toList ++ worker.incoming

/-- Whatever waits for a worker has its uuid, and a worker that parses has not stopped. -/
structure PrinterState.Placed (s : PrinterState υ ε) : Prop where
  parsing : ∀ w e, s.parsing w = some e →
    ∃ worker, s.processor.workers[w]? = some worker ∧ worker.phase ≠ .stopped
  line : ∀ w worker, s.processor.workers[w]? = some worker →
    ∀ e ∈ s.line w worker, e.uuid = worker.uuid

/-- What was printed, what waits for a worker that has not stopped and what waits for the
dispatcher come in the order of their dispatch. -/
structure PrinterState.Ordered (s : PrinterState υ ε) : Prop where
  all : ∀ uuid, (eventsOf uuid s.printed ++ s.pending uuid).Sublist (eventsOf uuid s.dispatched)
  live : ∀ w worker, s.processor.workers[w]? = some worker → worker.phase ≠ .stopped →
    (eventsOf worker.uuid s.printed ++ (s.line w worker ++ s.pending worker.uuid)).Sublist
      (eventsOf worker.uuid s.dispatched)

structure PrinterState.Inv (s : PrinterState υ ε) : Prop where
  one : s.processor.OneWorker
  placed : s.Placed
  ordered : s.Ordered

theorem printerInv_init : (PrinterState.init : PrinterState υ ε).Inv where
  one := oneWorker_init
  placed := ⟨fun _ _ h => (by cases h), fun _ _ h => (by cases h)⟩
  ordered := ⟨fun _ => List.Sublist.refl _, fun _ _ h => (by cases h)⟩

/-! ## One step -/

section

variable {s t : PrinterState υ ε} {w : Nat} {worker worker' : EventWorker υ ε}

theorem eventsOf_append (uuid : υ) (events events' : List (DataEvent υ ε)) :
    eventsOf uuid (events ++ events') = eventsOf uuid events ++ eventsOf uuid events' :=
  List.filter_append ..

theorem eventsOf_of_uuid {uuid : υ} {events : List (DataEvent υ ε)}
    (h : ∀ e ∈ events, e.uuid = uuid) : eventsOf uuid events = events := by
  apply List.filter_eq_self.mpr
  intro e he
  exact decide_eq_true (h e he)

/-- The second state is the first one with another worker in the place of one, and with nothing
new for the dispatcher. -/
structure PrinterState.Changes (s t : PrinterState υ ε) (w : Nat)
    (worker worker' : EventWorker υ ε) : Prop where
  old : s.processor.workers[w]? = some worker
  workers : ∀ i, t.processor.workers[i]? =
    if i = w then some worker' else s.processor.workers[i]?
  parsing : ∀ i, i ≠ w → t.parsing i = s.parsing i
  uuid : worker'.uuid = worker.uuid
  printed : t.printed = s.printed
  dispatched : t.dispatched = s.dispatched
  pending : ∀ uuid, (t.pending uuid).Sublist (s.pending uuid)

theorem placed_of_changes (hs : s.Placed) (h : s.Changes t w worker worker')
    (hphase : t.parsing w ≠ none → worker'.phase ≠ .stopped)
    (hline : ∀ e ∈ t.line w worker', e.uuid = worker'.uuid) : t.Placed where
  parsing := by
    intro i e he
    by_cases hi : i = w
    · subst hi
      refine ⟨worker', by rw [h.workers, if_pos rfl], hphase ?_⟩
      rw [he]
      exact Option.some_ne_none e
    · rw [h.parsing i hi] at he
      obtain ⟨other, hother, hlive⟩ := hs.parsing i e he
      exact ⟨other, by rw [h.workers, if_neg hi, hother], hlive⟩
  line := by
    intro i other hother e he
    rw [h.workers] at hother
    by_cases hi : i = w
    · subst hi
      rw [if_pos rfl] at hother
      obtain rfl := Option.some.inj hother
      exact hline e he
    · rw [if_neg hi] at hother
      unfold PrinterState.line at he
      rw [h.parsing i hi] at he
      exact hs.line i other hother e he

theorem ordered_of_changes (hs : s.Ordered) (h : s.Changes t w worker worker')
    (hlive : worker'.phase ≠ .stopped → worker.phase ≠ .stopped ∧
      (t.line w worker' ++ t.pending worker.uuid).Sublist
        (s.line w worker ++ s.pending worker.uuid)) : t.Ordered where
  all := by
    intro uuid
    rw [h.printed, h.dispatched]
    exact (List.Sublist.append_left (h.pending uuid) _).trans (hs.all uuid)
  live := by
    intro i other hother hrun
    rw [h.workers] at hother
    rw [h.printed, h.dispatched]
    by_cases hi : i = w
    · subst hi
      rw [if_pos rfl] at hother
      obtain rfl := Option.some.inj hother
      obtain ⟨hold, hline⟩ := hlive hrun
      rw [h.uuid]
      exact (List.Sublist.append_left hline _).trans (hs.live i worker h.old hold)
    · rw [if_neg hi] at hother
      have hline : t.line i other = s.line i other := by
        unfold PrinterState.line
        rw [h.parsing i hi]
      rw [hline]
      have hpending := List.Sublist.append_left (h.pending other.uuid) (s.line i other)
      exact (List.Sublist.append_left hpending _).trans (hs.live i other hother hrun)

/-- The dispatcher takes an event: it is the last one dispatched, and nothing else waits. -/
theorem ordered_dispatch (hs : s.Ordered) (hd : s.processor.dispatch = .idle)
    {e : DataEvent υ ε} {d : DispatchPhase υ ε} (he : d.event = some e) :
    ({ s with
      processor := { s.processor with dispatch := d }
      dispatched := s.dispatched ++ [e] } : PrinterState υ ε).Ordered := by
  have hidle (uuid : υ) : s.pending uuid = [] := by
    unfold PrinterState.pending
    rw [hd]
    rfl
  have hpending (uuid : υ) : ({ s with
      processor := { s.processor with dispatch := d }
      dispatched := s.dispatched ++ [e] } : PrinterState υ ε).pending uuid = eventsOf uuid [e] := by
    show eventsOf uuid d.event.toList = eventsOf uuid [e]
    rw [he]
    rfl
  constructor
  · intro uuid
    have hall := hs.all uuid
    rw [hidle, List.append_nil] at hall
    rw [hpending, eventsOf_append]
    exact hall.append (List.Sublist.refl _)
  · intro i other hother hlive
    have hall := hs.live i other hother hlive
    rw [hidle, List.append_nil] at hall
    rw [hpending, eventsOf_append, ← List.append_assoc]
    exact hall.append (List.Sublist.refl _)

omit [DecidableEq υ] in
/-- A new worker has nothing to wait for it. -/
theorem line_newWorker (hs : s.Placed) (uuid : υ) :
    s.line s.processor.workers.length (newEventWorker uuid) = [] := by
  unfold PrinterState.line
  cases hparsing : s.parsing s.processor.workers.length with
  | none => rfl
  | some e =>
      obtain ⟨other, hother, -⟩ := hs.parsing _ e hparsing
      rw [List.getElem?_eq_none (Nat.le_refl _)] at hother
      cases hother

omit [DecidableEq υ] in
/-- The workers after `NewEventWorker`: the old ones and the new one. -/
theorem getElem?_newWorker {i : Nat} {other : EventWorker υ ε} {workers : List (EventWorker υ ε)}
    {uuid : υ} (h : (workers ++ [newEventWorker uuid])[i]? = some other) :
    workers[i]? = some other ∨ i = workers.length ∧ other = newEventWorker uuid := by
  rcases Nat.lt_or_ge i workers.length with hlt | hge
  · rw [List.getElem?_append_left hlt] at h
    exact Or.inl h
  · rw [List.getElem?_append_right hge, List.getElem?_singleton] at h
    split at h
    · exact Or.inr ⟨by omega, (Option.some.inj h).symm⟩
    · cases h

theorem inv_newWorker (hs : s.Inv) {e : DataEvent υ ε}
    (hd : s.processor.dispatch = .missing e) : PrinterState.Placed { s with
      processor := { s.processor with
        workers := s.processor.workers ++ [newEventWorker e.uuid]
        dispatch := .created e s.processor.workers.length } } ∧
    PrinterState.Ordered { s with
      processor := { s.processor with
        workers := s.processor.workers ++ [newEventWorker e.uuid]
        dispatch := .created e s.processor.workers.length } } := by
  have hpending (uuid : υ) : s.pending uuid = eventsOf uuid [e] := by
    unfold PrinterState.pending
    rw [hd]
    rfl
  refine ⟨⟨fun i e' he' => ?_, fun i other hother => ?_⟩, fun uuid => ?_,
    fun i other hother hlive => ?_⟩
  · obtain ⟨other, hother, hlive⟩ := hs.placed.parsing i e' he'
    refine ⟨other, ?_, hlive⟩
    rw [List.getElem?_append_left (List.getElem?_eq_some_iff.mp hother).1, hother]
  · rcases getElem?_newWorker hother with hother | ⟨rfl, rfl⟩
    · exact hs.placed.line i other hother
    · intro e' he'
      have hnew : e' ∈ s.line s.processor.workers.length (newEventWorker e.uuid) := he'
      rw [line_newWorker hs.placed] at hnew
      cases hnew
  · have hall := hs.ordered.all uuid
    rwa [hpending] at hall
  · rcases getElem?_newWorker hother with hother | ⟨rfl, rfl⟩
    · have hall := hs.ordered.live i other hother hlive
      rwa [hpending] at hall
    · have hall := hs.ordered.all e.uuid
      rw [hpending] at hall
      show (eventsOf e.uuid s.printed ++ (s.line _ (newEventWorker e.uuid) ++ _)).Sublist _
      rw [line_newWorker hs.placed]
      exact hall

end

section

variable {s t : PrinterState υ ε}

omit [DecidableEq υ] in
theorem not_parsing_of_not_busy {w : Nat} (h : ¬ (s.parsing w).isSome = true) :
    s.parsing w = none := by
  rwa [Bool.not_eq_true, Option.isSome_eq_false_iff, Option.isNone_iff_eq_none] at h

/-- A step of the processor keeps the events in their places and in their order. -/
theorem inv_processor (hs : s.Inv) {a : ProcessorAction υ ε} {processor : ProcessorState υ ε}
    (hbusy : ¬ s.busy a = true) (h : ProcessorStep s.processor a processor)
    (ht : t = { s with
      processor := processor
      parsing := s.parsingAfter a
      dispatched := s.dispatched ++ a.event.toList }) : t.Placed ∧ t.Ordered := by
  subst ht
  cases h with
  | found hd hq => exact ⟨⟨hs.placed.parsing, hs.placed.line⟩, ordered_dispatch hs.ordered hd rfl⟩
  | missing hd hq =>
      exact ⟨⟨hs.placed.parsing, hs.placed.line⟩, ordered_dispatch hs.ordered hd rfl⟩
  | newWorker hd =>
      rw [show s.dispatched ++ (ProcessorAction.newWorker : ProcessorAction υ ε).event.toList =
        s.dispatched from List.append_nil _]
      exact inv_newWorker hs hd
  | @addWorker e w hd =>
      rw [show s.dispatched ++ (ProcessorAction.addWorkerByUUID : ProcessorAction υ ε).event.toList
        = s.dispatched from List.append_nil _]
      have hpending (uuid : υ) : s.pending uuid = eventsOf uuid [e] := by
        unfold PrinterState.pending
        rw [hd]
        rfl
      refine ⟨⟨hs.placed.parsing, hs.placed.line⟩, fun uuid => ?_, fun i other hother hlive => ?_⟩
      · have hall := hs.ordered.all uuid
        rwa [hpending] at hall
      · have hall := hs.ordered.live i other hother hlive
        rwa [hpending] at hall
  | @write e w worker hd hw hroom =>
      have hchanges : s.Changes { s with
          processor := { s.processor.setWorker w
            { worker with incoming := worker.incoming ++ [e] } with dispatch := .idle }
          dispatched := s.dispatched ++ [] } w worker
          { worker with incoming := worker.incoming ++ [e] } :=
        ⟨hw, getElem?_setWorker hw, fun _ _ => rfl, rfl, rfl, List.append_nil _,
          fun _ => List.nil_sublist _⟩
      obtain ⟨worker', hw', huuid⟩ := hs.one.hand e w (Or.inr hd)
      obtain rfl : worker = worker' := Option.some.inj (hw.symm.trans hw')
      refine ⟨placed_of_changes hs.placed hchanges (fun hparsing => ?_) (fun e' he' => ?_),
        ordered_of_changes hs.ordered hchanges fun hrun => ⟨hrun, ?_⟩⟩
      · obtain ⟨e', he'⟩ := Option.ne_none_iff_exists'.mp hparsing
        obtain ⟨other, hother, hlive⟩ := hs.placed.parsing w e' he'
        obtain rfl : worker = other := Option.some.inj (hw.symm.trans hother)
        exact hlive
      · have hmem : e' ∈ s.line w worker ++ [e] := by
          have hline : e' ∈ (s.parsing w).toList ++ (worker.incoming ++ [e]) := he'
          rwa [← List.append_assoc] at hline
        rcases List.mem_append.mp hmem with hold | hnew
        · exact hs.placed.line w worker hw e' hold
        · obtain rfl := List.mem_singleton.mp hnew
          exact huuid.symm
      · -- the event goes from the dispatcher to the end of the line
        have hpending : s.pending worker.uuid = [e] := by
          unfold PrinterState.pending
          rw [hd]
          exact eventsOf_of_uuid fun e' he' => List.mem_singleton.mp he' ▸ huuid.symm
        rw [hpending]
        show ((s.parsing w).toList ++ (worker.incoming ++ [e]) ++ []).Sublist _
        rw [List.append_nil, ← List.append_assoc]
        exact List.Sublist.refl _
  | @tick w worker count phase hw hrun hphase =>
      have hchanges : s.Changes { s with
          processor := s.processor.setWorker w
            { worker with tickerCount := count, phase := phase }
          dispatched := s.dispatched ++ [] } w worker
          { worker with tickerCount := count, phase := phase } :=
        ⟨hw, getElem?_setWorker hw, fun _ _ => rfl, rfl, rfl, List.append_nil _,
          fun _ => List.Sublist.refl _⟩
      refine ⟨placed_of_changes hs.placed hchanges (fun _ => hphase)
        (hs.placed.line w worker hw), ordered_of_changes hs.ordered hchanges fun _ =>
          ⟨?_, List.Sublist.refl _⟩⟩
      rw [hrun]
      decide
  | @receive e w worker incoming hw hrun hincoming =>
      have hparsing := not_parsing_of_not_busy hbusy
      have hafter : s.parsingAfter (.receive w) w = some e := by
        show (if w = w then _ else _) = some e
        rw [if_pos rfl, hw, Option.bind_some, hincoming]
        rfl
      have hchanges : s.Changes { s with
          processor := s.processor.setWorker w
            { worker with incoming := incoming, tickerCount := 0 }
          parsing := s.parsingAfter (.receive w)
          dispatched := s.dispatched ++ [] } w worker
          { worker with incoming := incoming, tickerCount := 0 } :=
        ⟨hw, getElem?_setWorker hw, fun i hi => if_neg hi, rfl, rfl, List.append_nil _,
          fun _ => List.Sublist.refl _⟩
      have hline : (s.parsingAfter (.receive w) w).toList ++ incoming = s.line w worker := by
        unfold PrinterState.line
        rw [hafter, hparsing, hincoming]
        rfl
      refine ⟨placed_of_changes hs.placed hchanges (fun _ => ?_) (fun e' he' => ?_),
        ordered_of_changes hs.ordered hchanges fun hlive => ⟨hlive, ?_⟩⟩
      · show worker.phase ≠ .stopped
        rw [hrun]
        decide
      · refine hs.placed.line w worker hw e' ?_
        rw [← hline]
        exact he'
      · show ((s.parsingAfter (.receive w) w).toList ++ incoming ++ s.pending worker.uuid).Sublist _
        rw [hline]
  | @delWorker w worker hw hclosing =>
      have hparsing := not_parsing_of_not_busy hbusy
      have hchanges : s.Changes { s with
          processor := { s.processor.setWorker w { worker with phase := .stopped } with
            workerQueue := fun uuid =>
              if uuid = worker.uuid then none else s.processor.workerQueue uuid }
          dispatched := s.dispatched ++ [] } w worker { worker with phase := .stopped } :=
        ⟨hw, getElem?_setWorker hw, fun _ _ => rfl, rfl, rfl, List.append_nil _,
          fun _ => List.Sublist.refl _⟩
      exact ⟨placed_of_changes hs.placed hchanges (fun h => absurd hparsing h)
        (hs.placed.line w worker hw), ordered_of_changes hs.ordered hchanges fun h =>
          absurd rfl h⟩
  | @raiseTicker w worker hw =>
      have hchanges : s.Changes { s with
          processor := s.processor.setWorker w
            { worker with tickerCount := maxTickerCount + 1 }
          dispatched := s.dispatched ++ [] } w worker
          { worker with tickerCount := maxTickerCount + 1 } :=
        ⟨hw, getElem?_setWorker hw, fun _ _ => rfl, rfl, rfl, List.append_nil _,
          fun _ => List.Sublist.refl _⟩
      refine ⟨placed_of_changes hs.placed hchanges (fun hparsing => ?_)
        (hs.placed.line w worker hw), ordered_of_changes hs.ordered hchanges fun hlive =>
          ⟨hlive, List.Sublist.refl _⟩⟩
      obtain ⟨e', he'⟩ := Option.ne_none_iff_exists'.mp hparsing
      obtain ⟨other, hother, hlive⟩ := hs.placed.parsing w e' he'
      obtain rfl : worker = other := Option.some.inj (hw.symm.trans hother)
      exact hlive

end

omit [DecidableEq υ] in
theorem parserEvent_sublist (recordType : ε → u32) (e : DataEvent υ ε) :
    (parserEvent recordType e).Sublist [e] := by
  unfold parserEvent
  dsimp only
  split
  · exact List.nil_sublist _
  · exact List.Sublist.refl _

theorem eventsOf_parserEvent_of_ne (recordType : ε → u32) {e : DataEvent υ ε} {uuid : υ}
    (h : e.uuid ≠ uuid) : eventsOf uuid (parserEvent recordType e) = [] := by
  have hnone : eventsOf uuid [e] = [] := by simp [eventsOf, h]
  have hsub : (eventsOf uuid (parserEvent recordType e)).Sublist (eventsOf uuid [e]) :=
    (parserEvent_sublist recordType e).filter _
  rwa [hnone, List.sublist_nil] at hsub

/-- What a worker prints was the first in its line, and no other worker has events of this
uuid. -/
theorem inv_parserEvent {s : PrinterState υ ε} (hs : s.Inv) (recordType : ε → u32) {w : Nat}
    {e : DataEvent υ ε} (he : s.parsing w = some e) : PrinterState.Inv { s with
      parsing := fun i => if i = w then none else s.parsing i
      printed := s.printed ++ parserEvent recordType e } := by
  obtain ⟨worker, hw, hlive⟩ := hs.placed.parsing w e he
  have hline : s.line w worker = e :: worker.incoming := by
    unfold PrinterState.line
    rw [he]
    rfl
  have huuid : e.uuid = worker.uuid := by
    refine hs.placed.line w worker hw e ?_
    rw [hline]
    exact List.mem_cons_self
  have hprint (uuid : υ) :
      (eventsOf uuid (parserEvent recordType e)).Sublist [e] :=
    List.filter_sublist.trans (parserEvent_sublist recordType e)
  have hfirst := hs.ordered.live w worker hw hlive
  rw [hline] at hfirst
  refine ⟨hs.one, ⟨fun i e' he' => ?_, fun i other hother e' he' => ?_⟩, fun uuid => ?_,
    fun i other hother hrun => ?_⟩
  · dsimp only at he'
    split at he'
    · cases he'
    · exact hs.placed.parsing i e' he'
  · refine hs.placed.line i other hother e' ?_
    have hmem : e' ∈ (if i = w then none else s.parsing i).toList ++ other.incoming := he'
    unfold PrinterState.line
    split at hmem
    · exact List.mem_append_right _ hmem
    · exact hmem
  · show (eventsOf uuid (s.printed ++ parserEvent recordType e) ++ s.pending uuid).Sublist
      (eventsOf uuid s.dispatched)
    rw [eventsOf_append, List.append_assoc]
    by_cases hu : e.uuid = uuid
    · rw [← hu, huuid]
      have hrest : (s.pending worker.uuid).Sublist (worker.incoming ++ s.pending worker.uuid) :=
        List.sublist_append_right _ _
      exact (List.Sublist.append_left ((hprint _).append hrest) _).trans hfirst
    · rw [eventsOf_parserEvent_of_ne recordType hu]
      exact hs.ordered.all uuid
  · show (eventsOf other.uuid (s.printed ++ parserEvent recordType e) ++
      ((if i = w then none else s.parsing i).toList ++ other.incoming ++
        s.pending other.uuid)).Sublist (eventsOf other.uuid s.dispatched)
    rw [eventsOf_append, List.append_assoc]
    by_cases hi : i = w
    · subst hi
      obtain rfl : worker = other := Option.some.inj (hw.symm.trans hother)
      rw [if_pos rfl]
      have hrest : (worker.incoming ++ s.pending worker.uuid).Sublist
          (worker.incoming ++ s.pending worker.uuid) := List.Sublist.refl _
      exact (List.Sublist.append_left ((hprint _).append hrest) _).trans hfirst
    · have hne : e.uuid ≠ other.uuid := by
        intro hsame
        exact hi (hs.one.unique (Or.inr ⟨other, hother, rfl, hrun⟩)
          (Or.inr ⟨worker, hw, huuid.symm.trans hsame, hlive⟩))
      rw [if_neg hi, eventsOf_parserEvent_of_ne recordType hne]
      exact hs.ordered.live i other hother hrun

/-- Every step keeps the invariant. -/
theorem printerInv_step (recordType : ε → u32) {s t : PrinterState υ ε} (hs : s.Inv)
    {a : PrinterAction υ ε} (h : s.step recordType a = some t) : t.Inv := by
  cases a with
  | processor a =>
      unfold PrinterState.step at h
      dsimp only at h
      split at h
      · cases h
      · rename_i hbusy
        obtain ⟨processor, hstep, ht⟩ := Option.map_eq_some_iff.mp h
        have hcases := processorStep_of_step hstep
        obtain ⟨hplaced, hordered⟩ := inv_processor hs hbusy hcases ht.symm
        refine ⟨?_, hplaced, hordered⟩
        rw [← ht]
        exact oneWorker_step hs.one hcases
  | parserEvent w =>
      obtain ⟨e, he, rfl⟩ := Option.map_eq_some_iff.mp h
      exact inv_parserEvent hs recordType he

/-! ## Runs -/

/-- The worker is registered under the uuid, or can still print. -/
def PrinterState.Active (s : PrinterState υ ε) (uuid : υ) (w : Nat) : Prop :=
  s.processor.workerQueue uuid = some w ∨
    ∃ worker, s.processor.workers[w]? = some worker ∧ worker.uuid = uuid ∧
      (worker.phase ≠ .stopped ∨ s.parsing w ≠ none)

/-- At most one worker of a uuid is registered or can print, no event is printed more often than
it was dispatched, and the events of a uuid are printed in the order of their dispatch. -/
structure PrinterState.InOrder (s : PrinterState υ ε) : Prop where
  one : ∀ uuid w w', s.Active uuid w → s.Active uuid w' → w = w'
  once : s.printed.Subperm s.dispatched
  order : ∀ uuid, (eventsOf uuid s.printed).Sublist (eventsOf uuid s.dispatched)

theorem PrinterState.Inv.active {s : PrinterState υ ε} (hs : s.Inv) {uuid : υ} {w : Nat}
    (h : s.Active uuid w) : s.processor.Active uuid w := by
  rcases h with hreg | ⟨worker, hw, huuid, hlive | hparsing⟩
  · exact Or.inl hreg
  · exact Or.inr ⟨worker, hw, huuid, hlive⟩
  · obtain ⟨e, he⟩ := Option.ne_none_iff_exists'.mp hparsing
    obtain ⟨other, hother, hlive⟩ := hs.placed.parsing w e he
    obtain rfl : worker = other := Option.some.inj (hw.symm.trans hother)
    exact Or.inr ⟨worker, hw, huuid, hlive⟩

theorem subperm_of_eventsOf {events events' : List (DataEvent υ ε)}
    (h : ∀ uuid, (eventsOf uuid events).Sublist (eventsOf uuid events')) :
    events.Subperm events' := by
  classical
  apply List.subperm_ext_iff.mpr
  intro e _
  have hcount (es : List (DataEvent υ ε)) : List.count e (eventsOf e.uuid es) = List.count e es :=
    List.count_filter (decide_eq_true rfl)
  calc List.count e events = List.count e (eventsOf e.uuid events) := (hcount events).symm
    _ ≤ List.count e (eventsOf e.uuid events') := (h e.uuid).count_le e
    _ = List.count e events' := hcount events'

theorem PrinterState.Inv.inOrder {s : PrinterState υ ε} (hs : s.Inv) : s.InOrder := by
  have horder (uuid : υ) : (eventsOf uuid s.printed).Sublist (eventsOf uuid s.dispatched) :=
    (List.sublist_append_left _ _).trans (hs.ordered.all uuid)
  exact ⟨fun uuid w w' h h' => hs.one.unique (hs.active h) (hs.active h'),
    subperm_of_eventsOf horder, horder⟩

/-- **Events are printed once and in order.** Along every interleaving of the dispatcher, the
workers, their ticks and `Close`. -/
theorem printed_inOrder (recordType : ε → u32) {actions : List (PrinterAction υ ε)}
    {s : PrinterState υ ε}
    (hrun : (printerMachine υ ε recordType).run PrinterState.init actions = some s) :
    s.InOrder := by
  have hkeeps : (printerMachine υ ε recordType).Keeps (fun _ _ => True) PrinterState.Inv :=
    fun _ _ _ hs _ hstep => printerInv_step recordType hs hstep
  have hinv := Machine.run_invariant hkeeps actions PrinterState.init s printerInv_init
    (Machine.guarded_true _ _ _) hrun
  exact hinv.inOrder

/-- A worker parses one event while the next one waits in its channel. -/
def twoEvents : List (PrinterAction Nat Nat) :=
  [.processor (.getWorkerByUUID ⟨1, 7⟩), .processor .newWorker, .processor .addWorkerByUUID,
    .processor .write, .processor (.receive 0), .processor (.getWorkerByUUID ⟨1, 8⟩),
    .processor .write, .parserEvent 0, .processor (.receive 0), .parserEvent 0]

theorem twoEvents_inOrder :
    ∃ s, (printerMachine Nat Nat fun _ => 9).run PrinterState.init twoEvents = some s ∧
      s.InOrder :=
  ⟨_, rfl, @printed_inOrder Nat Nat _ (fun _ => 9) twoEvents _ rfl⟩

end Stackplz
