import Stackplz.Probe.ReadArgs

/-!
# Op lists without loops

Most op lists run straight through: no code of theirs ends or repeats the loop of `read_args`.
`runSteps` executes such a list code by code, without the control part of `op_ctx`, and notes
the record that each code saves. A loop that reaches its terminator has run the list
(`readArgsLoop_runSteps`), and the records are what the run appends to the event
(`runSteps_event`).
-/

set_option autoImplicit false

namespace Stackplz

/-! ## Records -/

/-- What one save appends, up to its index. -/
inductive Saved where
  | word (value : u64)
  | bytes (payload : List u8)
deriving DecidableEq

/-- The record in the event buffer. -/
def Saved.encode (index : u8) : Saved → List u8
  | word value => index :: LittleEndian.ofWord 8 value
  | bytes payload =>
      index :: (LittleEndian.ofWord 4 (BitVec.ofNat 32 payload.length) ++ payload)

/-- The bytes hold these records one after the other, under any indices. -/
inductive Written : List Saved → List u8 → Prop
  | nil : Written [] []
  | cons (s : Saved) (index : u8) {log : List Saved} {bytes : List u8} (h : Written log bytes) :
      Written (s :: log) (s.encode index ++ bytes)

theorem Written.append {log log' : List Saved} {bytes bytes' : List u8} (h : Written log bytes)
    (h' : Written log' bytes') : Written (log ++ log') (bytes ++ bytes') := by
  induction h with
  | nil => exact h'
  | cons s index _ ih =>
      rw [List.cons_append, List.append_assoc]
      exact .cons s index ih

theorem Written.singleton (s : Saved) (index : u8) : Written [s] (s.encode index) :=
  List.append_nil (s.encode index) ▸ .cons s index .nil

theorem written_cons {s : Saved} {log : List Saved} {bytes : List u8}
    (h : Written (s :: log) bytes) :
    ∃ index rest, Written log rest ∧ bytes = s.encode index ++ rest := by
  cases h with
  | @cons _ index _ rest h => exact ⟨index, rest, h, rfl⟩

/-- No records, no bytes, and the other way round. -/
theorem Written.nil_iff {log : List Saved} {bytes : List u8} (h : Written log bytes) :
    log = [] ↔ bytes = [] := by
  cases h with
  | nil => exact ⟨fun _ => rfl, fun _ => rfl⟩
  | cons s index h => cases s <;> simp [Saved.encode]

/-! ## Steps -/

/-- The codes that append to the event. -/
def OpCode.saves : OpCode → Bool
  | .saveAddr | .saveReg | .savePointer | .saveStruct | .saveString | .savePtrString => true
  | _ => false

/-- The codes that stand by themselves: not those that end or repeat the loop, and not
`OP_SAVE_PTR_STRING`, which leaves the loop around it. -/
def OpCode.isStraight (code : OpCode) : Bool :=
  code != .skip && code != .forBreak && code != .savePtrString

/-- An op runs its code and then its `post_code`. -/
def OpConfig.steps (op : OpConfig) : List (OpConfig × OpCode) :=
  (op, op.code) :: if op.postCode = .skip then [] else [(op, op.postCode)]

def OpConfig.isStraight (op : OpConfig) : Bool := op.steps.all fun x => x.2.isStraight

/-- The number of bytes `OP_SAVE_STRUCT` asks for. -/
def OpState.structLen (op : OpConfig) (st : OpState) : u32 :=
  let readLen := if op.preCode = .setReadCount then
    (st.data.readLen.setWidth 64 * op.value).setWidth 32 else st.data.readLen
  if readLen > BitVec.ofNat 32 maxBytesArrSize then BitVec.ofNat 32 maxBytesArrSize else readLen

/-- The record that a code saves; bytes that cannot be read are saved as none. -/
def OpState.saved (mem : UserMem) (op : OpConfig) (code : OpCode) (st : OpState) : List Saved :=
  match code with
  | .saveAddr => [.word st.data.readAddr]
  | .saveReg => [.word st.data.regValue]
  | .savePointer => [.word st.data.pointerValue]
  | .saveStruct =>
      [.bytes ((mem.read (untag st.data.readAddr) (st.structLen op).toNat).getD [])]
  | .saveString =>
      [.bytes ((mem.readStr (untag st.data.readAddr) maxStringSize).getD [])]
  | _ => []

/-- One code, with what it saves; `none` when it ends the loop. -/
def OpState.step (env : ProbeEnv) (x : OpConfig × OpCode) (st : OpState) :
    Option (List Saved × OpState) :=
  let next := execOp env x.1 x.2 st
  if next.1 && !next.2.data.matchBlacklist then some (st.saved env.mem x.1 x.2, next.2) else none

/-- A list of codes, with all that they save. -/
def runSteps (env : ProbeEnv) :
    List (OpConfig × OpCode) → OpState → Option (List Saved × OpState)
  | [], st => some ([], st)
  | x :: xs, st => do
      let (log, st) ← st.step env x
      let (rest, st) ← runSteps env xs st
      return (log ++ rest, st)

section Steps

variable {env : ProbeEnv}

theorem runSteps_cons {x : OpConfig × OpCode} {xs : List (OpConfig × OpCode)}
    {st st' : OpState} {log : List Saved} :
    runSteps env (x :: xs) st = some (log, st') ↔
      ∃ first mid rest, st.step env x = some (first, mid) ∧
        runSteps env xs mid = some (rest, st') ∧ log = first ++ rest := by
  simp only [runSteps, Option.bind_eq_bind, Option.bind_eq_some_iff, Prod.exists]
  constructor
  · rintro ⟨first, mid, hstep, rest, last, hrest, h⟩
    obtain ⟨rfl, rfl⟩ := Prod.mk.inj (Option.some.inj h)
    exact ⟨first, mid, rest, hstep, hrest, rfl⟩
  · rintro ⟨first, mid, rest, hstep, hrest, rfl⟩
    exact ⟨first, mid, hstep, rest, st', hrest, rfl⟩

/-- A run of two lists is a run of the one and then of the other. -/
theorem runSteps_append {xs ys : List (OpConfig × OpCode)} {st st' : OpState}
    {log : List Saved} :
    runSteps env (xs ++ ys) st = some (log, st') ↔
      ∃ first mid rest, runSteps env xs st = some (first, mid) ∧
        runSteps env ys mid = some (rest, st') ∧ log = first ++ rest := by
  induction xs generalizing st log with
  | nil =>
      constructor
      · intro h
        exact ⟨[], st, log, rfl, h, rfl⟩
      · rintro ⟨first, mid, rest, hfirst, hrest, rfl⟩
        obtain ⟨rfl, rfl⟩ := Prod.mk.inj (Option.some.inj hfirst)
        exact hrest
  | cons x xs ih =>
      rw [List.cons_append, runSteps_cons]
      constructor
      · rintro ⟨first, mid, rest, hstep, hrest, rfl⟩
        obtain ⟨first', mid', rest', hxs, hys, rfl⟩ := ih.mp hrest
        exact ⟨first ++ first', mid', rest', runSteps_cons.mpr ⟨_, _, _, hstep, hxs, rfl⟩, hys,
          (List.append_assoc ..).symm⟩
      · rintro ⟨log', mid, rest, hxs, hys, rfl⟩
        obtain ⟨first, mid', rest', hstep, hrest, rfl⟩ := runSteps_cons.mp hxs
        exact ⟨first, mid', rest' ++ rest, hstep, ih.mpr ⟨_, _, _, hrest, hys, rfl⟩,
          List.append_assoc ..⟩

theorem step_eq_some {x : OpConfig × OpCode} {st st' : OpState} {log : List Saved} :
    st.step env x = some (log, st') ↔
      execOp env x.1 x.2 st = (true, st') ∧ st'.data.matchBlacklist = false ∧
        log = st.saved env.mem x.1 x.2 := by
  unfold OpState.step
  dsimp only
  constructor
  · intro h
    split at h
    · rename_i hgoes
      obtain ⟨rfl, rfl⟩ := Prod.mk.inj (Option.some.inj h)
      simp only [Bool.and_eq_true, Bool.not_eq_true'] at hgoes
      exact ⟨Prod.ext hgoes.1 rfl, hgoes.2, rfl⟩
    · cases h
  · rintro ⟨hexec, hblack, rfl⟩
    rw [hexec]
    simp [hblack]

/-- `OP_READ_REG` of a register that exists. -/
theorem step_readReg {op : OpConfig} {st : OpState}
    (hreg : (op.readIndex st.data.regIndex).toNat < 33)
    (hblack : st.data.matchBlacklist = false) :
    st.step env (op, .readReg) = some ([], st.setData fun d => { d with
      regIndex := op.readIndex st.data.regIndex
      regValue := env.regs.get (op.readIndex st.data.regIndex).toNat }) :=
  step_eq_some.mpr ⟨if_neg (Nat.not_le_of_lt hreg), hblack, rfl⟩

/-- Codes that save nothing leave no record. -/
theorem runSteps_silent {xs : List (OpConfig × OpCode)} {st st' : OpState} {log : List Saved}
    (hsilent : ∀ x ∈ xs, x.2.saves = false) (h : runSteps env xs st = some (log, st')) :
    log = [] := by
  induction xs generalizing st log with
  | nil => exact (Prod.mk.inj (Option.some.inj h)).1.symm
  | cons x xs ih =>
      obtain ⟨hx, hxs⟩ := List.forall_mem_cons.mp hsilent
      obtain ⟨first, mid, rest, hstep, hrest, rfl⟩ := runSteps_cons.mp h
      obtain ⟨-, -, rfl⟩ := step_eq_some.mp hstep
      rw [ih hxs hrest, List.append_nil]
      revert hx
      cases hcode : x.2 <;> simp [OpCode.saves, OpState.saved]

theorem runSteps_singleton {x : OpConfig × OpCode} {st st' : OpState} {log : List Saved}
    (h : runSteps env [x] st = some (log, st')) : log = st.saved env.mem x.1 x.2 := by
  obtain ⟨first, mid, rest, hstep, hrest, rfl⟩ := runSteps_cons.mp h
  obtain ⟨rfl, rfl⟩ := Prod.mk.inj (Option.some.inj hrest)
  rw [List.append_nil]
  exact (step_eq_some.mp hstep).2.2

/-- Only the last code saves something. -/
theorem runSteps_concat {xs : List (OpConfig × OpCode)} {x : OpConfig × OpCode}
    {st st' : OpState} {log : List Saved} (hsilent : ∀ x ∈ xs, x.2.saves = false)
    (h : runSteps env (xs ++ [x]) st = some (log, st')) :
    ∃ mid : OpState, log = mid.saved env.mem x.1 x.2 := by
  obtain ⟨first, mid, rest, hxs, hx, rfl⟩ := runSteps_append.mp h
  rw [runSteps_silent hsilent hxs, List.nil_append]
  exact ⟨mid, runSteps_singleton hx⟩

/-- What a list of codes saves and leaves when none of them ends the loop. -/
def execSteps (env : ProbeEnv) : List (OpConfig × OpCode) → OpState → List Saved × OpState
  | [], st => ([], st)
  | x :: xs, st =>
      let rest := execSteps env xs (execOp env x.1 x.2 st).2
      (st.saved env.mem x.1 x.2 ++ rest.1, rest.2)

theorem runSteps_eq_execSteps {xs : List (OpConfig × OpCode)} {st : OpState}
    {r : List Saved × OpState} (h : runSteps env xs st = some r) : r = execSteps env xs st := by
  induction xs generalizing st r with
  | nil => exact (Option.some.inj h).symm
  | cons x xs ih =>
      obtain ⟨first, mid, rest, hstep, hrest, hlog⟩ :=
        runSteps_cons.mp (show _ = some (r.1, r.2) from h)
      obtain ⟨hexec, -, rfl⟩ := step_eq_some.mp hstep
      have hmid : (execOp env x.1 x.2 st).2 = mid := (Prod.mk.inj hexec).2
      unfold execSteps
      rw [hmid, ← ih hrest]
      exact Prod.ext hlog rfl

/-- Several lists in turn, with the records of each. -/
def runLists (env : ProbeEnv) :
    List (List (OpConfig × OpCode)) → OpState → Option (List (List Saved) × OpState)
  | [], st => some ([], st)
  | xs :: xss, st => do
      let (log, st) ← runSteps env xs st
      let (logs, st) ← runLists env xss st
      return (log :: logs, st)

theorem runLists_cons {xs : List (OpConfig × OpCode)} {xss : List (List (OpConfig × OpCode))}
    {st st' : OpState} {logs : List (List Saved)} :
    runLists env (xs :: xss) st = some (logs, st') ↔
      ∃ log mid rest, runSteps env xs st = some (log, mid) ∧
        runLists env xss mid = some (rest, st') ∧ logs = log :: rest := by
  simp only [runLists, Option.bind_eq_bind, Option.bind_eq_some_iff, Prod.exists]
  constructor
  · rintro ⟨log, mid, hrun, rest, last, hrest, h⟩
    obtain ⟨rfl, rfl⟩ := Prod.mk.inj (Option.some.inj h)
    exact ⟨log, mid, rest, hrun, hrest, rfl⟩
  · rintro ⟨log, mid, rest, hrun, hrest, rfl⟩
    exact ⟨log, mid, hrun, rest, st', hrest, rfl⟩

/-- Each list of a run was run by itself. -/
theorem runLists_getElem? {xss : List (List (OpConfig × OpCode))} {st st' : OpState}
    {logs : List (List Saved)} (h : runLists env xss st = some (logs, st')) {i : Nat}
    {xs : List (OpConfig × OpCode)} (hxs : xss[i]? = some xs) :
    ∃ log before after, logs[i]? = some log ∧ runSteps env xs before = some (log, after) := by
  induction xss generalizing st logs i with
  | nil => cases hxs
  | cons ys xss ih =>
      obtain ⟨log, mid, rest, hys, hrest, rfl⟩ := runLists_cons.mp h
      cases i with
      | zero =>
          obtain rfl : ys = xs := Option.some.inj hxs
          exact ⟨log, st, mid, rfl, hys⟩
      | succ i => exact ih hrest hxs

/-- A run of the joined lists is a run of one after the other. -/
theorem runLists_of_flatten {xss : List (List (OpConfig × OpCode))} {st st' : OpState}
    {log : List Saved} (h : runSteps env xss.flatten st = some (log, st')) :
    ∃ logs, runLists env xss st = some (logs, st') := by
  induction xss generalizing st log with
  | nil =>
      obtain ⟨rfl, rfl⟩ := Prod.mk.inj (Option.some.inj h)
      exact ⟨[], rfl⟩
  | cons xs xss ih =>
      rw [List.flatten_cons] at h
      obtain ⟨first, mid, rest, hxs, hxss, rfl⟩ := runSteps_append.mp h
      obtain ⟨logs, hlogs⟩ := ih hxss
      exact ⟨first :: logs, runLists_cons.mpr ⟨first, mid, logs, hxs, hlogs, rfl⟩⟩

end Steps

/-! ## Records and the event -/

section Event

variable {mem : UserMem}

/-- A save that falls back to an empty record appends what could be read. -/
theorem orEmpty_spec {event : EventData} {index : u8} {read : Option (List u8)}
    {r : EventData × Bool}
    (hr : r.1.refused = false →
      (∃ bytes, read = some bytes ∧
        r = (event.commit (Saved.encode index (.bytes bytes)), true)) ∨
      read = none ∧ r = (event, false))
    (h : (if r.2 then r.1 else (saveBytesToBuf mem r.1 0 0 index).1).refused = false) :
    event.refused = false ∧
      (if r.2 then r.1 else (saveBytesToBuf mem r.1 0 0 index).1).args =
        event.args ++ Saved.encode index (.bytes (read.getD [])) := by
  -- an empty save reads nothing, so it is committed unless it is refused
  have hempty (event : EventData) (h : (saveBytesToBuf mem event 0 0 index).1.refused = false) :
      (saveBytesToBuf mem event 0 0 index).1 =
        event.commit (Saved.encode index (.bytes [])) := by
    rcases saveBytesToBuf_spec (by decide) h with ⟨bytes, hbytes, heq⟩ | ⟨hnone, -⟩
    · obtain rfl : [] = bytes := Option.some.inj hbytes
      rw [heq]
      rfl
    · cases hnone
  have hroom : r.1.refused = false := by
    split at h
    · exact h
    · rw [hempty r.1 h] at h
      exact h
  rcases hr hroom with ⟨bytes, rfl, rfl⟩ | ⟨rfl, rfl⟩
  · exact ⟨hroom, rfl⟩
  · rw [if_neg Bool.false_ne_true] at h ⊢
    rw [hempty event h]
    exact ⟨hroom, rfl⟩

/-- A save of one word. -/
theorem saveWord_spec {st : OpState} {value : u64} (h : (st.saveWord value).event.refused = false) :
    st.event.refused = false ∧
      (st.saveWord value).event.args =
        st.event.args ++ Saved.encode st.data.saveIndex (.word value) :=
  saveToSubmitBuf_spec (by simp) h

/-- A code that saves nothing leaves the event alone. -/
theorem execOp_event (env : ProbeEnv) (op : OpConfig) {code : OpCode} (st : OpState)
    (h : code.saves = false) : (execOp env op code st).2.event = st.event := by
  cases code
  case readReg | filterValue | filterBuffer | filterString =>
    unfold execOp
    dsimp only
    repeat' split
    all_goals rfl
  all_goals first | rfl | cases h

theorem structLen_le (op : OpConfig) (st : OpState) :
    (st.structLen op).toNat ≤ maxBytesArrSize := by
  unfold OpState.structLen
  dsimp only
  generalize (if op.preCode = .setReadCount then
    (st.data.readLen.setWidth 64 * op.value).setWidth 32 else st.data.readLen) = readLen
  split
  · decide
  · rename_i hle
    exact Nat.le_of_not_lt hle

theorem saveStruct_spec {op : OpConfig} {st : OpState}
    (h : (st.saveStruct mem op).event.refused = false) :
    st.event.refused = false ∧
      (st.saveStruct mem op).event.args = st.event.args ++ Saved.encode st.data.saveIndex
        (.bytes ((mem.read (untag st.data.readAddr) (st.structLen op).toNat).getD [])) := by
  refine orEmpty_spec (fun hroom => ?_) h
  rcases saveBytesToBuf_spec (structLen_le op st) hroom with ⟨bytes, hread, heq⟩ | hnone
  · refine Or.inl ⟨bytes, hread, heq.trans ?_⟩
    have hlen : BitVec.ofNat 32 bytes.length = st.structLen op := by
      rw [UserMem.length_read hread, BitVec.ofNat_toNat, BitVec.setWidth_eq]
    rw [Saved.encode, hlen]
  · exact Or.inr hnone

theorem saveString_spec {st : OpState} (h : (st.saveString mem).event.refused = false) :
    st.event.refused = false ∧
      (st.saveString mem).event.args = st.event.args ++ Saved.encode st.data.saveIndex
        (.bytes ((mem.readStr (untag st.data.readAddr) maxStringSize).getD [])) :=
  orEmpty_spec (fun hroom => saveStrToBuf_spec hroom) h

end Event

section Run

variable {env : ProbeEnv}

/-- A code by itself appends its record. -/
theorem step_event {x : OpConfig × OpCode} {st st' : OpState} {log : List Saved}
    (hstraight : x.2.isStraight = true) (h : st.step env x = some (log, st'))
    (hroom : st'.event.refused = false) :
    st.event.refused = false ∧
      ∃ bytes, Written log bytes ∧ st'.event.args = st.event.args ++ bytes := by
  obtain ⟨hexec, -, rfl⟩ := step_eq_some.mp h
  obtain ⟨op, code⟩ := x
  cases hsaves : code.saves with
  | false =>
      have hsame : st'.event = st.event := by
        rw [← execOp_event env op st hsaves, hexec]
      have hnone : st.saved env.mem op code = [] := by
        revert hsaves
        cases code <;> simp [OpCode.saves, OpState.saved]
      rw [hnone]
      exact ⟨hsame ▸ hroom, [], .nil, by rw [hsame, List.append_nil]⟩
  | true =>
      have hrecord (s : Saved) (hspec : st.event.refused = false ∧
          st'.event.args = st.event.args ++ s.encode st.data.saveIndex) :
          st.event.refused = false ∧
            ∃ bytes, Written [s] bytes ∧ st'.event.args = st.event.args ++ bytes :=
        ⟨hspec.1, _, .singleton s _, hspec.2⟩
      cases code
      case saveAddr | saveReg | savePointer =>
        obtain rfl := (Prod.mk.inj hexec).2
        exact hrecord _ (saveWord_spec hroom)
      case saveStruct =>
        obtain rfl := (Prod.mk.inj hexec).2
        exact hrecord _ (saveStruct_spec hroom)
      case saveString =>
        obtain rfl := (Prod.mk.inj hexec).2
        exact hrecord _ (saveString_spec hroom)
      case savePtrString => cases hstraight
      all_goals cases hsaves

/-- A run appends its records. -/
theorem runSteps_event {xs : List (OpConfig × OpCode)} {st st' : OpState} {log : List Saved}
    (hstraight : ∀ x ∈ xs, x.2.isStraight = true) (h : runSteps env xs st = some (log, st'))
    (hroom : st'.event.refused = false) :
    st.event.refused = false ∧
      ∃ bytes, Written log bytes ∧ st'.event.args = st.event.args ++ bytes := by
  induction xs generalizing st log with
  | nil =>
      obtain ⟨rfl, rfl⟩ := Prod.mk.inj (Option.some.inj h)
      exact ⟨hroom, [], .nil, (List.append_nil _).symm⟩
  | cons x xs ih =>
      obtain ⟨hx, hxs⟩ := List.forall_mem_cons.mp hstraight
      obtain ⟨first, mid, rest, hstep, hrest, rfl⟩ := runSteps_cons.mp h
      obtain ⟨hmid, bytes', hbytes', hargs'⟩ := ih hxs hrest
      obtain ⟨hstart, bytes, hbytes, hargs⟩ := step_event hx hstep hmid
      refine ⟨hstart, bytes ++ bytes', hbytes.append hbytes', ?_⟩
      rw [hargs', hargs, List.append_assoc]

theorem runLists_event {xss : List (List (OpConfig × OpCode))} {st st' : OpState}
    {logs : List (List Saved)} (hstraight : ∀ xs ∈ xss, ∀ x ∈ xs, x.2.isStraight = true)
    (h : runLists env xss st = some (logs, st')) (hroom : st'.event.refused = false) :
    st.event.refused = false ∧
      ∃ bytes, Written logs.flatten bytes ∧ st'.event.args = st.event.args ++ bytes := by
  induction xss generalizing st logs with
  | nil =>
      obtain ⟨rfl, rfl⟩ := Prod.mk.inj (Option.some.inj h)
      exact ⟨hroom, [], .nil, (List.append_nil _).symm⟩
  | cons xs xss ih =>
      obtain ⟨hxs, hxss⟩ := List.forall_mem_cons.mp hstraight
      obtain ⟨log, mid, rest, hlog, hrest, rfl⟩ := runLists_cons.mp h
      obtain ⟨hmid, bytes', hbytes', hargs'⟩ := ih hxss hrest
      obtain ⟨hstart, bytes, hbytes, hargs⟩ := runSteps_event hxs hlog hmid
      refine ⟨hstart, bytes ++ bytes', hbytes.append hbytes', ?_⟩
      rw [hargs', hargs, List.append_assoc]

end Run

/-! ## The loop -/

/-- What the ops see of the loop's state. -/
def LoopState.opState (st : LoopState) : OpState := ⟨st.ctx.toOpData, st.event, st.strBuf⟩

/-- The loop's state with what an op made of its part. -/
def LoopState.withOpState (st : LoopState) (o : OpState) : LoopState :=
  { st with ctx := { st.ctx with toOpData := o.data }, event := o.event, strBuf := o.strBuf }

section Loop

variable {maxOp : Nat} {env : ProbeEnv} {keys : Vector u32 maxOp}

theorem exec_of_ne {op : OpConfig} {st : LoopState} (h : st.ctx.opCode ≠ .forBreak) :
    st.exec env op = ((execOp env op st.ctx.opCode st.opState).1,
      st.withOpState (execOp env op st.ctx.opCode st.opState).2) := by
  unfold LoopState.exec
  rw [if_neg h]
  rfl

/-- An iteration that does not end the loop executes the fetched code. -/
theorem readArgsLoop_step {n : Nat} {st mid st' : LoopState} {op : OpConfig}
    (hfetch : st.fetch env keys = some (op, mid)) (hcode : mid.ctx.opCode.isStraight = true)
    (h : readArgsLoop env keys n st = (.done, st')) :
    ∃ n' log o, readArgsLoop env keys n' (mid.withOpState o) = (.done, st') ∧
      mid.opState.step env (op, mid.ctx.opCode) = some (log, o) := by
  simp only [OpCode.isStraight, Bool.and_eq_true, bne_iff_ne] at hcode
  obtain ⟨⟨hskip, hfor⟩, -⟩ := hcode
  cases n with
  | zero => cases h
  | succ n =>
      rw [readArgsLoop, hfetch] at h
      dsimp only at h
      rw [if_neg hskip, exec_of_ne hfor] at h
      cases hexec : execOp env op mid.ctx.opCode mid.opState with
      | mk goesOn o =>
          rw [hexec] at h
          cases goesOn with
          | false => cases h
          | true =>
              dsimp only at h
              split at h
              · cases h
              · rename_i hblack
                have hblack : o.data.matchBlacklist = false := Bool.eq_false_of_not_eq_true hblack
                exact ⟨n, _, o, h, step_eq_some.mpr ⟨hexec, hblack, rfl⟩⟩

/-- The state between two ops: nothing is pending, and the op at `k` comes next. -/
def LoopState.AtOp (st : LoopState) (k : Nat) : Prop :=
  st.ctx.postCode = .skip ∧ st.ctx.opKeyIndex.toNat = k

/-- The state after the fetch of the next op. -/
def LoopState.fetched (st : LoopState) (op : OpConfig) : LoopState :=
  { st with
    op := some op
    ctx := { st.ctx with
      opCode := op.code, postCode := op.postCode, opKeyIndex := st.ctx.opKeyIndex + 1 } }

/-- The state after the fetch of a pending `post_code`. -/
def LoopState.fetchedPost (st : LoopState) : LoopState :=
  { st with ctx := { st.ctx with opCode := st.ctx.postCode, postCode := .skip } }

theorem fetch_atOp {st : LoopState} {k : Nat} {op : OpConfig} (hat : st.AtOp k) (hk : k < maxOp)
    (hkey : env.opList.lookup keys[k] = some op) :
    st.fetch env keys = some (op, st.fetched op) := by
  obtain ⟨hpost, rfl⟩ := hat
  have hnext : LoopState.fetch.fetchKey keys st env = some (op, st.fetched op) := by
    unfold LoopState.fetch.fetchKey
    rw [dif_pos hk, hkey]
    rfl
  unfold LoopState.fetch
  split
  · rw [if_neg (not_not_intro hpost), hnext]
  · exact hnext

theorem fetch_pending {st : LoopState} {op : OpConfig} (hop : st.op = some op)
    (hpost : st.ctx.postCode ≠ .skip) : st.fetch env keys = some (op, st.fetchedPost) := by
  obtain ⟨_, ctx, event, strBuf⟩ := st
  obtain rfl : _ = some op := hop
  exact if_pos hpost

/-- A loop that reaches its end from before an op has run the op. -/
theorem readArgsLoop_op (hmax : maxOp < 2 ^ 32) {n k : Nat} {st st' : LoopState} {op : OpConfig}
    (hat : st.AtOp k) (hk : k < maxOp) (hkey : env.opList.lookup keys[k] = some op)
    (hstraight : op.isStraight = true) (h : readArgsLoop env keys n st = (.done, st')) :
    ∃ n' next log, readArgsLoop env keys n' next = (.done, st') ∧ next.AtOp (k + 1) ∧
      runSteps env op.steps st.opState = some (log, next.opState) := by
  have hindex : (st.ctx.opKeyIndex + 1).toNat = k + 1 := by
    rw [BitVec.toNat_add, hat.2]
    show (k + 1) % 2 ^ 32 = k + 1
    omega
  obtain ⟨hcode, hrest⟩ := List.forall_mem_cons.mp (List.all_eq_true.mp hstraight)
  obtain ⟨n₁, log, o, hloop, hstep⟩ := readArgsLoop_step (fetch_atOp hat hk hkey) hcode h
  unfold OpConfig.steps
  by_cases hpost : op.postCode = .skip
  · rw [if_pos hpost]
    exact ⟨n₁, _, log ++ [], hloop, ⟨hpost, hindex⟩,
      runSteps_cons.mpr ⟨log, o, [], hstep, rfl, rfl⟩⟩
  · rw [if_neg hpost] at hrest ⊢
    -- the `post_code` of the op is pending and is executed next
    have hfetch : ((st.fetched op).withOpState o).fetch env keys =
        some (op, ((st.fetched op).withOpState o).fetchedPost) := fetch_pending rfl hpost
    obtain ⟨n₂, log₂, o₂, hloop₂, hstep₂⟩ :=
      readArgsLoop_step hfetch (hrest (op, op.postCode) (List.mem_singleton_self _)) hloop
    exact ⟨n₂, _, log ++ (log₂ ++ []), hloop₂, ⟨rfl, hindex⟩,
      runSteps_cons.mpr ⟨log, o, log₂ ++ [], hstep,
        runSteps_cons.mpr ⟨log₂, o₂, [], hstep₂, rfl, rfl⟩, rfl⟩⟩

/-- The key list holds `ops` from place `k` on. -/
def KeysAt (env : ProbeEnv) (keys : Vector u32 maxOp) (k : Nat) (ops : List OpConfig) : Prop :=
  ∀ i (hi : i < ops.length), ∃ hk : k + i < maxOp,
    env.opList.lookup keys[k + i] = some ops[i]

theorem keysAt_cons {k : Nat} {op : OpConfig} {ops : List OpConfig}
    (h : KeysAt env keys k (op :: ops)) :
    (∃ hk : k < maxOp, env.opList.lookup keys[k] = some op) ∧ KeysAt env keys (k + 1) ops := by
  refine ⟨h 0 (Nat.succ_pos _), fun i hi => ?_⟩
  obtain ⟨hk, hkey⟩ := h (i + 1) (Nat.succ_lt_succ hi)
  have hsum : k + (i + 1) = k + 1 + i := by omega
  simp only [hsum] at hk hkey
  exact ⟨hk, hkey⟩

theorem keysAt_append {k : Nat} {xs ys : List OpConfig} (h : KeysAt env keys k (xs ++ ys)) :
    KeysAt env keys k xs ∧ KeysAt env keys (k + xs.length) ys := by
  induction xs generalizing k with
  | nil => exact ⟨fun i hi => absurd hi (Nat.not_lt_zero i), h⟩
  | cons x xs ih =>
      obtain ⟨hx, hrest⟩ := keysAt_cons h
      obtain ⟨hxs, hys⟩ := ih hrest
      have hsum : k + (xs.length + 1) = k + 1 + xs.length := by omega
      rw [List.length_cons, hsum]
      refine ⟨fun i hi => ?_, hys⟩
      cases i with
      | zero => exact hx
      | succ i =>
          obtain ⟨hk, hkey⟩ := hxs i (Nat.lt_of_succ_lt_succ hi)
          have hplace : k + (i + 1) = k + 1 + i := by omega
          simp only [hplace]
          exact ⟨hk, hkey⟩

/-- A loop that reaches its end from before a list of ops has run the list. -/
theorem readArgsLoop_ops (hmax : maxOp < 2 ^ 32) {ops : List OpConfig} {n k : Nat}
    {st st' : LoopState} (hat : st.AtOp k)
    (hkeys : KeysAt env keys k ops) (hstraight : ∀ op ∈ ops, op.isStraight = true)
    (h : readArgsLoop env keys n st = (.done, st')) :
    ∃ n' next log, readArgsLoop env keys n' next = (.done, st') ∧ next.AtOp (k + ops.length) ∧
      runSteps env (ops.flatMap OpConfig.steps) st.opState = some (log, next.opState) := by
  induction ops generalizing n k st with
  | nil => exact ⟨n, st, [], h, hat, rfl⟩
  | cons op ops ih =>
      obtain ⟨hop, hops⟩ := List.forall_mem_cons.mp hstraight
      obtain ⟨⟨hk, hkey⟩, hkeys'⟩ := keysAt_cons hkeys
      obtain ⟨n₁, mid, log, hloop, hmid, hrun⟩ := readArgsLoop_op hmax hat hk hkey hop h
      obtain ⟨n₂, next, log₂, hloop₂, hnext, hrun₂⟩ := ih hmid hkeys' hops hloop
      refine ⟨n₂, next, log ++ log₂, hloop₂, ?_, ?_⟩
      · have hsum : k + (ops.length + 1) = k + 1 + ops.length := by omega
        rw [List.length_cons, hsum]
        exact hnext
      · rw [List.flatMap_cons]
        exact runSteps_append.mpr ⟨log, mid.opState, log₂, hrun, hrun₂, rfl⟩

/-- With no op pending the loop starts at the first op, after a round on a cleared
`post_code` if there is one. -/
theorem readArgsLoop_enter {n : Nat} {st st' : LoopState} {op : OpConfig} (hop : st.op = some op)
    (hidle : st.ctx.Idle) (hindex : st.ctx.opKeyIndex = 0)
    (h : readArgsLoop env keys n st = (.done, st')) :
    ∃ n' next, readArgsLoop env keys n' next = (.done, st') ∧ next.AtOp 0 ∧
      next.opState = st.opState := by
  have hzero : st.ctx.opKeyIndex.toNat = 0 := by rw [hindex]; rfl
  rcases hidle with hpost | hpost
  · have hfetch : st.fetch env keys = some (op, st.fetchedPost) :=
      fetch_pending hop (by rw [hpost]; decide)
    have hcode : st.fetchedPost.ctx.opCode = .zero := hpost
    obtain ⟨n', log, o, hloop, hstep⟩ := readArgsLoop_step hfetch (by rw [hcode]; decide) h
    obtain ⟨hexec, -, -⟩ := step_eq_some.mp hstep
    rw [hcode] at hexec
    obtain rfl : st.fetchedPost.opState = o := (Prod.mk.inj hexec).2
    exact ⟨n', _, hloop, ⟨rfl, hzero⟩, rfl⟩
  · exact ⟨n, st, h, ⟨hpost, hzero⟩, rfl⟩

/-- At the terminator the loop ends with the event it has. -/
theorem readArgsLoop_skip {n k : Nat} {st st' : LoopState} {op : OpConfig} (hat : st.AtOp k)
    (hk : k < maxOp) (hkey : env.opList.lookup keys[k] = some op) (hskip : op.code = .skip)
    (h : readArgsLoop env keys n st = (.done, st')) : st'.opState = st.opState := by
  cases n with
  | zero => cases h
  | succ n =>
      rw [readArgsLoop, fetch_atOp hat hk hkey] at h
      have hend : (st.fetched op).ctx.opCode = .skip := hskip
      dsimp only at h
      rw [if_pos hend] at h
      rw [← (Prod.mk.inj h).2]
      rfl

end Loop

end Stackplz
