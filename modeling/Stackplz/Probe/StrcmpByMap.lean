import Stackplz.Basic.Machine
import Stackplz.Probe.Buffer

/-!
# Comparing strings through a map

`strcmp_by_map` (`buffer.h`) compares the text read from the process with the text of a
filter by inserting the filter text into the global map `str_buf`, looking the read text up
and deleting the filter text again. Alone, that is an equality test (`alone_eq`). Run on several
CPUs, the three helper calls interleave: the machine `strcmpMachine` takes them one at a time, and
`strcmpMachine_returns_alone` names the two overlaps that must not happen.
-/

set_option autoImplicit false

namespace Stackplz

/-- The scratch buffer of one comparison: zeroed, then filled with `n` bytes from `addr`;
a read that faults leaves zeros. -/
def scratchText (mem : UserMem) (addr : u64) (n : Nat) : StrBuf :=
  Vector.ofFn fun i => ((mem.read addr n).getD []).getD i 0

/-- What one evaluation of `OP_FILTER_STRING` brings along: the filter, the length of the
string saved last, and the scratch text. -/
structure StrcmpCall where
  filter : ArgFilter
  strLen : u32
  strValue : StrBuf
deriving DecidableEq

/-- The call the interpreter makes with the string length and read address it holds. -/
def StrcmpCall.ofRead (mem : UserMem) (strLen : u32) (readAddr : u64) (filter : ArgFilter) :
    StrcmpCall where
  filter := filter
  strLen := strLen
  strValue := scratchText mem readAddr (min filter.strLen.toNat maxStrcmpLen)

/-- The read string is shorter than the filter text: the map is not touched. -/
def StrcmpCall.TooShort (call : StrcmpCall) : Prop := call.strLen < call.filter.strLen

instance (call : StrcmpCall) : Decidable call.TooShort :=
  inferInstanceAs (Decidable (_ < _))

/-- `strcmp_by_map` run without interruption. -/
def strcmpByMap (strBuf : StrBufMap) (call : StrcmpCall) : Bool × StrBufMap :=
  if call.TooShort then (false, strBuf)
  else
    let strBuf := strBuf.put call.filter.strVal call.filter.strLen
    ((strBuf.lookup call.strValue).isSome, strBuf.erase call.filter.strVal)

/-- The result of a call that runs alone. -/
def StrcmpCall.alone (call : StrcmpCall) : Bool := (strcmpByMap BoundedMap.empty call).1

theorem hasRoom_first (x : StrBuf) : (BoundedMap.empty : StrBufMap).HasRoom x :=
  Or.inr (by decide)

/-- Alone, the comparison is an equality test on the two texts. -/
theorem alone_eq (call : StrcmpCall) :
    call.alone = (!decide call.TooShort && decide (call.strValue = call.filter.strVal)) := by
  unfold StrcmpCall.alone strcmpByMap
  by_cases hshort : call.TooShort
  · simp [hshort]
  · rw [if_neg hshort]
    simp only [hshort, decide_false, Bool.not_false, Bool.true_and]
    rw [BoundedMap.lookup_isSome, decide_eq_decide, BoundedMap.hasKey_put _ (hasRoom_first _)]
    simp

/-- A call on the empty map leaves it empty. -/
theorem strcmpByMap_empty (call : StrcmpCall) : (strcmpByMap .empty call).2 = .empty := by
  unfold strcmpByMap
  split
  · rfl
  · exact BoundedMap.erase_put _ (BoundedMap.hasKey_empty _)

/-! ## Several CPUs -/

/-- Where one CPU is in a call; `lookedUp` holds the result it will return. -/
inductive StrcmpPhase where
  | idle
  | entered (call : StrcmpCall)
  | inserted (call : StrcmpCall)
  | lookedUp (call : StrcmpCall) (found : Bool)

/-- The call this CPU is in, at any point of it. -/
def StrcmpPhase.current : StrcmpPhase → Option StrcmpCall
  | idle => none
  | entered call | inserted call | lookedUp call _ => some call

/-- The shared map, what each CPU is doing, and the calls that returned with their
results. -/
structure StrcmpState (ι : Type) where
  strBuf : StrBufMap
  phase : ι → StrcmpPhase
  returned : List (StrcmpCall × Bool)

/-- One step of one CPU: enter a call, or make the next helper call on `str_buf`. -/
inductive StrcmpAction (ι : Type) where
  | enter (cpu : ι) (call : StrcmpCall)
  | updateElem (cpu : ι)
  | lookupElem (cpu : ι)
  | deleteElem (cpu : ι)

variable {ι : Type} [DecidableEq ι]

def StrcmpState.setPhase (s : StrcmpState ι) (cpu : ι) (p : StrcmpPhase) : ι → StrcmpPhase :=
  fun other => if other = cpu then p else s.phase other

/-- The helper calls of `strcmp_by_map`, each one atomic step. -/
def StrcmpState.step (s : StrcmpState ι) : StrcmpAction ι → Option (StrcmpState ι)
  | .enter cpu call =>
      match s.phase cpu with
      | .idle =>
          if call.TooShort then some { s with returned := (call, false) :: s.returned }
          else some { s with phase := s.setPhase cpu (.entered call) }
      | _ => none
  | .updateElem cpu =>
      match s.phase cpu with
      | .entered call => some { s with
          strBuf := s.strBuf.put call.filter.strVal call.filter.strLen
          phase := s.setPhase cpu (.inserted call) }
      | _ => none
  | .lookupElem cpu =>
      match s.phase cpu with
      | .inserted call => some { s with
          phase := s.setPhase cpu (.lookedUp call (s.strBuf.lookup call.strValue).isSome) }
      | _ => none
  | .deleteElem cpu =>
      match s.phase cpu with
      | .lookedUp call found =>
          some ⟨s.strBuf.erase call.filter.strVal, s.setPhase cpu .idle,
            (call, found) :: s.returned⟩
      | _ => none

def strcmpMachine (ι : Type) [DecidableEq ι] : Machine (StrcmpState ι) (StrcmpAction ι) :=
  ⟨StrcmpState.step⟩

/-- No CPU is in a call and the map is empty. -/
def StrcmpState.init : StrcmpState ι := ⟨BoundedMap.empty, fun _ => .idle, []⟩

/-- Every call that returned has the result it would have alone. -/
def StrcmpState.ReturnsAlone (s : StrcmpState ι) : Prop :=
  ∀ r ∈ s.returned, r.2 = r.1.alone

/-- The steps that cannot disturb another CPU: an insertion finds room; a text that differs
from its own filter is not looked up while that very text, which another CPU has inserted then,
is in the map; and a filter text is not deleted while another CPU has inserted the same text, is
about to look it up, and has read the same text. -/
def StrcmpState.Undisturbed (s : StrcmpState ι) : StrcmpAction ι → Prop
  | .enter _ _ => True
  | .updateElem cpu => ∀ call, s.phase cpu = .entered call →
      s.strBuf.HasRoom call.filter.strVal
  | .lookupElem cpu => ∀ call, s.phase cpu = .inserted call →
      call.strValue ≠ call.filter.strVal → ¬ s.strBuf.HasKey call.strValue
  | .deleteElem cpu => ∀ call found, s.phase cpu = .lookedUp call found →
      ∀ other ≠ cpu, ∀ call', s.phase other = .inserted call' →
        call'.filter.strVal = call.filter.strVal → call'.strValue ≠ call'.filter.strVal

/-! ### What a step can do -/

/-- Inversion of one step: every field of the next state. -/
theorem strcmp_step_cases {s t : StrcmpState ι} {a : StrcmpAction ι} (h : s.step a = some t) :
    (∃ cpu call, a = .enter cpu call ∧ s.phase cpu = .idle ∧ call.TooShort ∧
      t = { s with returned := (call, false) :: s.returned }) ∨
    (∃ cpu call, a = .enter cpu call ∧ s.phase cpu = .idle ∧ ¬ call.TooShort ∧
      t = { s with phase := s.setPhase cpu (.entered call) }) ∨
    (∃ cpu call, a = .updateElem cpu ∧ s.phase cpu = .entered call ∧
      t = { s with
        strBuf := s.strBuf.put call.filter.strVal call.filter.strLen
        phase := s.setPhase cpu (.inserted call) }) ∨
    (∃ cpu call, a = .lookupElem cpu ∧ s.phase cpu = .inserted call ∧
      t = { s with
        phase := s.setPhase cpu (.lookedUp call (s.strBuf.lookup call.strValue).isSome) }) ∨
    (∃ cpu call found, a = .deleteElem cpu ∧ s.phase cpu = .lookedUp call found ∧
      t = ⟨s.strBuf.erase call.filter.strVal, s.setPhase cpu .idle,
        (call, found) :: s.returned⟩) := by
  cases a with
  | enter cpu call =>
      cases hp : s.phase cpu with
      | idle =>
          by_cases hshort : call.TooShort
          · exact Or.inl ⟨cpu, call, rfl, hp, hshort,
              by simpa [StrcmpState.step, hp, hshort] using h.symm⟩
          · exact Or.inr (Or.inl ⟨cpu, call, rfl, hp, hshort,
              by simpa [StrcmpState.step, hp, hshort] using h.symm⟩)
      | _ => simp [StrcmpState.step, hp] at h
  | updateElem cpu =>
      cases hp : s.phase cpu with
      | entered call => exact Or.inr (Or.inr (Or.inl ⟨cpu, call, rfl, hp,
          by simpa [StrcmpState.step, hp] using h.symm⟩))
      | _ => simp [StrcmpState.step, hp] at h
  | lookupElem cpu =>
      cases hp : s.phase cpu with
      | inserted call => exact Or.inr (Or.inr (Or.inr (Or.inl ⟨cpu, call, rfl, hp,
          by simpa [StrcmpState.step, hp] using h.symm⟩)))
      | _ => simp [StrcmpState.step, hp] at h
  | deleteElem cpu =>
      cases hp : s.phase cpu with
      | lookedUp call found => exact Or.inr (Or.inr (Or.inr (Or.inr ⟨cpu, call, found, rfl, hp,
          by simpa [StrcmpState.step, hp] using h.symm⟩)))
      | _ => simp [StrcmpState.step, hp] at h

@[simp] theorem setPhase_self (s : StrcmpState ι) (cpu : ι) (p : StrcmpPhase) :
    s.setPhase cpu p cpu = p :=
  if_pos rfl

theorem setPhase_ne (s : StrcmpState ι) {cpu other : ι} (h : other ≠ cpu) (p : StrcmpPhase) :
    s.setPhase cpu p other = s.phase other :=
  if_neg h

/-- The three helper calls taken one after the other are `strcmp_by_map`. -/
theorem run_uninterrupted {s : StrcmpState ι} {cpu : ι} {call : StrcmpCall}
    (hidle : s.phase cpu = .idle) (hlong : ¬ call.TooShort) :
    (strcmpMachine ι).run s
        [.enter cpu call, .updateElem cpu, .lookupElem cpu, .deleteElem cpu] =
      some ⟨(strcmpByMap s.strBuf call).2, s.phase,
        (call, (strcmpByMap s.strBuf call).1) :: s.returned⟩ := by
  simp only [Machine.run, strcmpMachine, StrcmpState.step, hidle, hlong, if_false, setPhase_self,
    Option.bind_some, strcmpByMap, Option.some.injEq, StrcmpState.mk.injEq, true_and, and_true]
  funext other
  by_cases h : other = cpu
  · rw [h, setPhase_self, hidle]
  · simp only [setPhase_ne _ h]

/-! ### The invariant -/

/-- What holds between the map and the phases while no step disturbs another CPU. -/
structure StrcmpState.Inv (s : StrcmpState ι) : Prop where
  /-- A CPU about to find its own filter text still has it in the map. -/
  own : ∀ cpu call, s.phase cpu = .inserted call → call.strValue = call.filter.strVal →
    s.strBuf.HasKey call.filter.strVal
  /-- Only calls on texts that are long enough reach the map. -/
  long : ∀ cpu call, (s.phase cpu).current = some call → ¬ call.TooShort
  /-- A result that was looked up is the one of the call alone. -/
  result : ∀ cpu call found, s.phase cpu = .lookedUp call found → found = call.alone
  returned : s.ReturnsAlone

omit [DecidableEq ι] in
theorem strcmpInv_init : (StrcmpState.init : StrcmpState ι).Inv where
  own := fun _ _ h => by simp [StrcmpState.init] at h
  long := fun _ _ h => by simp [StrcmpState.init, StrcmpPhase.current] at h
  result := fun _ _ _ h => by simp [StrcmpState.init] at h
  returned := fun _ h => by simp [StrcmpState.init] at h

/-- One CPU moves to phase `p` and changes the map: what is left to show is about this CPU,
and that the keys the other CPUs count on are not removed. -/
private theorem strcmpInv_move {s : StrcmpState ι} (hs : s.Inv) {cpu : ι} {p : StrcmpPhase}
    {strBuf : StrBufMap} {returned : List (StrcmpCall × Bool)}
    (hother : ∀ other ≠ cpu, ∀ call, s.phase other = .inserted call →
      call.strValue = call.filter.strVal → strBuf.HasKey call.filter.strVal)
    (hself : ∀ call, p = .inserted call → call.strValue = call.filter.strVal →
      strBuf.HasKey call.filter.strVal)
    (hlong : ∀ call, p.current = some call → ¬ call.TooShort)
    (hresult : ∀ call found, p = .lookedUp call found → found = call.alone)
    (hreturned : ∀ r ∈ returned, r.2 = r.1.alone) :
    (⟨strBuf, s.setPhase cpu p, returned⟩ : StrcmpState ι).Inv := by
  -- every field is one case split on whether the CPU in question is the one that moves
  have hphase : ∀ other, (other = cpu ∧ s.setPhase cpu p other = p) ∨
      (other ≠ cpu ∧ s.setPhase cpu p other = s.phase other) := by
    intro other
    by_cases h : other = cpu
    · exact Or.inl ⟨h, h ▸ setPhase_self s cpu p⟩
    · exact Or.inr ⟨h, setPhase_ne s h p⟩
  refine ⟨?_, ?_, ?_, hreturned⟩
  · intro other call hins htext
    rcases hphase other with ⟨_, hp⟩ | ⟨hne, hp⟩
    · exact hself call (hp ▸ hins) htext
    · exact hother other hne call (hp ▸ hins) htext
  · intro other call hcurrent
    rcases hphase other with ⟨_, hp⟩ | ⟨_, hp⟩
    · exact hlong call (hp ▸ hcurrent)
    · exact hs.long other call (hp ▸ hcurrent)
  · intro other call found hlooked
    rcases hphase other with ⟨_, hp⟩ | ⟨_, hp⟩
    · exact hresult call found (hp ▸ hlooked)
    · exact hs.result other call found (hp ▸ hlooked)

omit [DecidableEq ι] in
private theorem strcmpInv_return {s : StrcmpState ι} (hs : s.Inv) {call : StrcmpCall}
    (hshort : call.TooShort) :
    ({ s with returned := (call, false) :: s.returned } : StrcmpState ι).Inv where
  own := hs.own
  long := hs.long
  result := hs.result
  returned := by
    intro r hr
    rcases List.mem_cons.mp hr with rfl | hin
    · simp [alone_eq, hshort]
    · exact hs.returned r hin

private theorem strcmpInv_enter {s : StrcmpState ι} (hs : s.Inv) {cpu : ι} {call : StrcmpCall}
    (hlong : ¬ call.TooShort) :
    (⟨s.strBuf, s.setPhase cpu (.entered call), s.returned⟩ : StrcmpState ι).Inv := by
  refine strcmpInv_move hs (fun other _ => hs.own other) ?_ ?_ ?_ hs.returned
  · rintro c ⟨⟩
  · rintro c ⟨⟩
    exact hlong
  · rintro c found ⟨⟩

private theorem strcmpInv_update {s : StrcmpState ι} (hs : s.Inv) {cpu : ι} {call : StrcmpCall}
    (hentered : s.phase cpu = .entered call) (hroom : s.strBuf.HasRoom call.filter.strVal) :
    (⟨s.strBuf.put call.filter.strVal call.filter.strLen, s.setPhase cpu (.inserted call),
      s.returned⟩ : StrcmpState ι).Inv := by
  refine strcmpInv_move hs ?_ ?_ ?_ ?_ hs.returned
  · intro other _ c hins htext
    exact BoundedMap.hasKey_put_of_hasKey _ _ (hs.own other c hins htext)
  · rintro c ⟨⟩ _
    exact (BoundedMap.hasKey_put _ hroom _).mpr (Or.inl rfl)
  · rintro c ⟨⟩
    exact hs.long cpu call (by rw [hentered]; rfl)
  · rintro c found ⟨⟩

omit [DecidableEq ι] in
/-- The lookup answers as the call alone would: its own text is there if it is the text read,
and the text read is not in the map if it is not. -/
private theorem lookup_eq_alone {s : StrcmpState ι} (hs : s.Inv) {cpu : ι} {call : StrcmpCall}
    (hinserted : s.phase cpu = .inserted call) (hguard : s.Undisturbed (.lookupElem cpu)) :
    (s.strBuf.lookup call.strValue).isSome = call.alone := by
  have hlong : ¬ call.TooShort := hs.long cpu call (by rw [hinserted]; rfl)
  rw [alone_eq, BoundedMap.lookup_isSome]
  simp only [hlong, decide_false, Bool.not_false, Bool.true_and, decide_eq_decide]
  constructor
  · intro hkey
    by_contra hne
    exact hguard call hinserted hne hkey
  · intro htext
    rw [htext]
    exact hs.own cpu call hinserted htext

private theorem strcmpInv_lookup {s : StrcmpState ι} (hs : s.Inv) {cpu : ι} {call : StrcmpCall}
    (hinserted : s.phase cpu = .inserted call) (hguard : s.Undisturbed (.lookupElem cpu)) :
    (⟨s.strBuf, s.setPhase cpu (.lookedUp call (s.strBuf.lookup call.strValue).isSome),
      s.returned⟩ : StrcmpState ι).Inv := by
  refine strcmpInv_move hs (fun other _ => hs.own other) ?_ ?_ ?_ hs.returned
  · rintro c ⟨⟩
  · rintro c ⟨⟩
    exact hs.long cpu call (by rw [hinserted]; rfl)
  · rintro c found ⟨⟩
    exact lookup_eq_alone hs hinserted hguard

private theorem strcmpInv_delete {s : StrcmpState ι} (hs : s.Inv) {cpu : ι} {call : StrcmpCall}
    {found : Bool} (hlooked : s.phase cpu = .lookedUp call found)
    (hguard : s.Undisturbed (.deleteElem cpu)) :
    (⟨s.strBuf.erase call.filter.strVal, s.setPhase cpu .idle,
      (call, found) :: s.returned⟩ : StrcmpState ι).Inv := by
  refine strcmpInv_move hs ?_ ?_ ?_ ?_ ?_
  · intro other hne c hins htext
    refine (BoundedMap.hasKey_erase _ _ _).mpr ⟨fun hsame => ?_, hs.own other c hins htext⟩
    exact hguard call found hlooked other hne c hins hsame htext
  · rintro c ⟨⟩
  · rintro c ⟨⟩
  · rintro c found ⟨⟩
  · intro r hr
    rcases List.mem_cons.mp hr with rfl | hin
    · exact hs.result cpu call found hlooked
    · exact hs.returned r hin

theorem strcmpInv_keeps :
    (strcmpMachine ι).Keeps StrcmpState.Undisturbed StrcmpState.Inv := by
  intro s a t hs hguard hstep
  obtain ⟨cpu, call, rfl, hp, hshort, rfl⟩ | ⟨cpu, call, rfl, hp, hlong, rfl⟩ |
    ⟨cpu, call, rfl, hp, rfl⟩ | ⟨cpu, call, rfl, hp, rfl⟩ |
    ⟨cpu, call, found, rfl, hp, rfl⟩ := strcmp_step_cases hstep
  · exact strcmpInv_return hs hshort
  · exact strcmpInv_enter hs hlong
  · exact strcmpInv_update hs hp (hguard call hp)
  · exact strcmpInv_lookup hs hp hguard
  · exact strcmpInv_delete hs hp hguard

/-- **String filtering in parallel.** For any number of CPUs, any filters and texts and any
order of the helper calls: if no step of the run disturbs another CPU, every call returned
what it returns alone. -/
theorem strcmpMachine_returns_alone (actions : List (StrcmpAction ι)) (s : StrcmpState ι)
    (hguard : (strcmpMachine ι).Guarded StrcmpState.Undisturbed StrcmpState.init actions)
    (hrun : (strcmpMachine ι).run StrcmpState.init actions = some s) : s.ReturnsAlone :=
  (Machine.run_invariant strcmpInv_keeps actions _ s strcmpInv_init hguard hrun).returned

/-! ### One filter, two CPUs -/

/-- Two CPUs evaluate the same call; one deletes the filter text before the other looks its
text up. -/
def overlappingCalls (call : StrcmpCall) : List (StrcmpAction Bool) :=
  [.enter false call, .enter true call, .updateElem false, .updateElem true,
    .lookupElem false, .deleteElem false, .lookupElem true, .deleteElem true]

/-- Whatever the call, the second CPU finds nothing once the first has deleted the text. -/
theorem run_overlappingCalls {call : StrcmpCall} (hlong : ¬ call.TooShort)
    (htext : call.strValue = call.filter.strVal) :
    ∃ s, (strcmpMachine Bool).run StrcmpState.init (overlappingCalls call) = some s ∧
      (call, false) ∈ s.returned := by
  refine ⟨_, by simp [overlappingCalls, Machine.run, strcmpMachine, StrcmpState.step,
    StrcmpState.init, StrcmpState.setPhase, hlong]; rfl, ?_⟩
  simp [htext]

/-- The text of one character. -/
def charText (c : u8) : StrBuf := (Vector.replicate 256 0).set 0 c

/-- A call that reads `text` and compares it with the text of a filter. -/
def callOn (filterText text : StrBuf) : StrcmpCall := ⟨⟨.whitelist, filterText, 1, 0⟩, 1, text⟩

/-- A call that reads the text `a` and compares it with the filter text `a`. -/
def matchingCall : StrcmpCall := callOn (charText 97) (charText 97)

/-- On two CPUs the call on `a` returns no match, which alone it would have found. -/
theorem strcmpMachine_overlap_loses_match :
    ∃ s, (strcmpMachine Bool).run StrcmpState.init (overlappingCalls matchingCall) = some s ∧
      (matchingCall, false) ∈ s.returned ∧ matchingCall.alone = true := by
  have hlong : ¬ matchingCall.TooShort := by decide
  have htext : matchingCall.strValue = matchingCall.filter.strVal := rfl
  obtain ⟨s, hrun, hlost⟩ := run_overlappingCalls hlong htext
  exact ⟨s, hrun, hlost, by simp [alone_eq, hlong, htext]⟩

/-- Two CPUs whose calls overlap: the one compares `x` with `x`, the other one `x` with `y`, before
`x` comes into the map and while it stays there. -/
def interleavedCalls (x y : StrBuf) : List (StrcmpAction Bool) :=
  [.enter false (callOn x x), .enter true (callOn y x), .updateElem true, .lookupElem true,
    .updateElem false, .deleteElem true, .lookupElem false, .deleteElem false]

section Interleaved

variable {x y : StrBuf}

theorem hasRoom_second (x y : StrBuf) : (BoundedMap.put .empty y 1 : StrBufMap).HasRoom x :=
  Or.inr (show 1 < 256 by decide)

theorem not_hasKey_of_interleaved (hne : x ≠ y) :
    ¬ (BoundedMap.put .empty y 1 : StrBufMap).HasKey x := by
  rw [BoundedMap.hasKey_put _ (hasRoom_first y)]
  exact not_or.mpr ⟨hne, BoundedMap.hasKey_empty x⟩

/-- None of their steps disturbs the other. -/
theorem interleavedCalls_undisturbed (hne : x ≠ y) :
    (strcmpMachine Bool).Guarded StrcmpState.Undisturbed StrcmpState.init
      (interleavedCalls x y) := by
  refine (Machine.guarded_cons_iff rfl).mpr ⟨trivial, ?_⟩
  refine (Machine.guarded_cons_iff rfl).mpr ⟨trivial, ?_⟩
  refine (Machine.guarded_cons_iff rfl).mpr ⟨?_, ?_⟩
  · rintro call ⟨⟩
    exact hasRoom_first y
  refine (Machine.guarded_cons_iff rfl).mpr ⟨?_, ?_⟩
  · rintro call ⟨⟩ _
    exact not_hasKey_of_interleaved hne
  refine (Machine.guarded_cons_iff rfl).mpr ⟨?_, ?_⟩
  · rintro call ⟨⟩
    exact hasRoom_second x y
  refine (Machine.guarded_cons_iff rfl).mpr ⟨?_, ?_⟩
  · -- the text that is deleted is not the one the other CPU is about to look up
    rintro call found ⟨⟩ other hother call' hins hsame
    cases other with
    | true => exact absurd rfl hother
    | false =>
        obtain rfl := StrcmpPhase.inserted.inj hins
        exact absurd hsame hne
  refine (Machine.guarded_cons_iff rfl).mpr ⟨?_, ?_⟩
  · rintro call ⟨⟩ hdiff
    exact absurd rfl hdiff
  refine (Machine.guarded_cons_iff rfl).mpr ⟨?_, trivial⟩
  rintro call found ⟨⟩ other hother call' hins
  cases other with
  | true => cases hins
  | false => exact absurd rfl hother

theorem run_interleavedCalls (hne : x ≠ y) :
    ∃ s, (strcmpMachine Bool).run StrcmpState.init (interleavedCalls x y) = some s ∧
      s.returned = [(callOn x x, true), (callOn y x, false)] := by
  let second : StrBufMap := ((BoundedMap.put .empty y 1).put x 1).erase y
  have hfound : second.HasKey x := by
    rw [BoundedMap.hasKey_erase, BoundedMap.hasKey_put _ (hasRoom_second x y)]
    exact ⟨hne, Or.inl rfl⟩
  refine ⟨_, rfl, ?_⟩
  show [(callOn x x, (second.lookup x).isSome),
    (callOn y x, ((BoundedMap.put .empty y 1 : StrBufMap).lookup x).isSome)] = _
  rw [BoundedMap.lookup_isSome, BoundedMap.lookup_isSome, decide_eq_true hfound,
    decide_eq_false (not_hasKey_of_interleaved hne)]

end Interleaved

/-- On two CPUs `a` is compared with `a` and with `b`, and each call returns what it would alone. -/
theorem strcmpMachine_two_cpus :
    ∃ s, (strcmpMachine Bool).run StrcmpState.init
        (interleavedCalls (charText 97) (charText 98)) = some s ∧
      s.returned.map Prod.snd = [true, false] ∧ s.ReturnsAlone := by
  have hne : charText 97 ≠ charText 98 := by
    intro heq
    exact absurd (congrArg (fun text => text[0]) heq) (by decide)
  obtain ⟨s, hrun, hreturned⟩ := run_interleavedCalls hne
  refine ⟨s, hrun, by rw [hreturned]; rfl, ?_⟩
  exact strcmpMachine_returns_alone _ s (interleavedCalls_undisturbed hne) hrun

end Stackplz
