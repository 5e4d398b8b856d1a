import Stackplz.User.UprobeEvent

/-!
# Records and their events

`ParseEvent` of the events that records are bound to (`ievent.go`, `event_context.go`,
`event_uprobe.go`, `event_raw_syscalls.go`). A reader of the perf buffers binds every record
to the event of the program that it belongs to, and the records of the kernel about commands,
mappings, forks and exits come through the same buffers. The three levels of `ParseEvent` sort
them out: the outer event calls the one of the context, which calls the common one, and a nil
result asks the outer event to go on with the sample.
-/

set_option autoImplicit false

namespace Stackplz

/-- `perf.Record`, as far as the events look at it. -/
structure PerfRecord where
  recordType : u32
  rawSample : List u8
deriving DecidableEq

/-- `PERF_RECORD_COMM` to `PERF_RECORD_MMAP2`. -/
def perfRecordComm : u32 := 3
def perfRecordExit : u32 := 4
def perfRecordFork : u32 := 7
def perfRecordSample : u32 := 9
def perfRecordMmap2 : u32 := 10

/-- What the events read of `ModuleConfig` and of the record's `ExtraOptions`. `selfPid` is
`os.Getpid()`, which is also what `SelfPid` is set to. -/
structure EventConf where
  selfPid : u32
  brkKernel : Bool
  unwindStack : Bool
  showRegs : Bool
  /-- `StackUprobeConf.Points` -/
  points : List UprobeArgs
  /-- `SysCallConf.PointArgs` -/
  syscallPoints : List SyscallPoint

/-! ## Records beside samples -/

/-- `CommFields`; the name as it is before `B2STrim`. -/
structure CommFields where
  pid : u32
  tid : u32
  comm : List u8
deriving DecidableEq

/-- `ForkFields`, which `ExitFields` are, too. -/
structure ForkFields where
  pid : u32
  ppid : u32
  tid : u32
  ptid : u32
  time : u64
deriving DecidableEq

/-- `Mmap2Fields`; the name as it is before `B2STrim`. -/
structure Mmap2Fields where
  pid : u32
  tid : u32
  addr : u64
  len : u64
  pgoff : u64
  maj : u32
  min : u32
  ino : u64
  inoGeneration : u64
  prot : u32
  flags : u32
  filename : List u8
deriving DecidableEq

/-- The events that `CommonEvent.ParseEvent` makes. -/
inductive CommonRecord where
  | comm (fields : CommFields)
  | mmap2 (fields : Mmap2Fields)
  | exit (fields : ForkFields)
  | fork (fields : ForkFields)
deriving DecidableEq

/-- The type of the records that an event is made from. -/
def CommonRecord.recordType : CommonRecord → u32
  | comm _ => perfRecordComm
  | mmap2 _ => perfRecordMmap2
  | exit _ => perfRecordExit
  | fork _ => perfRecordFork

/-- The way these records are read: of a record of the tracer itself nothing but the pid. -/
def EventConf.readOthers {α : Type} (conf : EventConf) (own : u32 → α) (fields : u32 → Reader α) :
    Reader α := do
  let pid ← Reader.word 4
  if conf.selfPid = pid then return own pid else fields pid

/-- `CommEvent.ParseContext`. -/
def EventConf.readComm (conf : EventConf) : Reader CommFields :=
  conf.readOthers (fun pid => ⟨pid, 0, []⟩) fun pid => do
    let tid ← Reader.word 4
    return ⟨pid, tid, ← Reader.rest⟩

/-- `ForkEvent.ParseContext`. -/
def EventConf.readFork (conf : EventConf) : Reader ForkFields :=
  conf.readOthers (fun pid => ⟨pid, 0, 0, 0, 0⟩) fun pid => do
    let ppid ← Reader.word 4
    let tid ← Reader.word 4
    let ptid ← Reader.word 4
    let time ← Reader.word 8
    return ⟨pid, ppid, tid, ptid, time⟩

/-- `ExitEvent.ParseContext`. -/
def EventConf.readExit (conf : EventConf) : Reader ForkFields := conf.readFork

/-- `Mmap2Event.ParseContext`. -/
def EventConf.readMmap2 (conf : EventConf) : Reader Mmap2Fields :=
  conf.readOthers (fun pid => ⟨pid, 0, 0, 0, 0, 0, 0, 0, 0, 0, 0, []⟩) fun pid => do
    let tid ← Reader.word 4
    let addr ← Reader.word 8
    let len ← Reader.word 8
    let pgoff ← Reader.word 8
    let maj ← Reader.word 4
    let min ← Reader.word 4
    let ino ← Reader.word 8
    let inoGeneration ← Reader.word 8
    let prot ← Reader.word 4
    let flags ← Reader.word 4
    return ⟨pid, tid, addr, len, pgoff, maj, min, ino, inoGeneration, prot, flags,
      ← Reader.rest⟩

/-- The ways in which a `ParseEvent` ends: with a panic, an error, a nil event or an event. -/
inductive Parsed (ε : Type) where
  | panic
  | error
  | nil
  | event (e : ε)
deriving DecidableEq

/-- The event of a record that was read; a read past the end is a panic. -/
def Parsed.ofRead {ε α : Type} (make : α → ε) : Option α → Parsed ε
  | none => .panic
  | some a => .event (make a)

theorem Parsed.ofRead_eq_event {ε α : Type} {make : α → ε} {a? : Option α} {e : ε}
    (h : Parsed.ofRead make a? = .event e) : ∃ a, a? = some a ∧ make a = e := by
  cases a? with
  | none => cases h
  | some a => exact ⟨a, rfl, Parsed.event.inj h⟩

/-- `NewMmap2Event`: a nil event for a mapping of the tracer. -/
def EventConf.newMmap2Event (conf : EventConf) (rec : PerfRecord) : Parsed CommonRecord :=
  match (conf.readMmap2 rec.rawSample).1 with
  | none => .panic
  | some fields => if fields.pid = conf.selfPid then .nil else .event (.mmap2 fields)

/-- `CommonEvent.ParseEvent`. -/
def EventConf.commonParseEvent (conf : EventConf) (rec : PerfRecord) : Parsed CommonRecord :=
  if rec.recordType = perfRecordComm then .ofRead .comm (conf.readComm rec.rawSample).1
  else if rec.recordType = perfRecordMmap2 then conf.newMmap2Event rec
  else if rec.recordType = perfRecordExit then .ofRead .exit (conf.readExit rec.rawSample).1
  else if rec.recordType = perfRecordFork then .ofRead .fork (conf.readFork rec.rawSample).1
  else .error

/-! ## Samples -/

/-- `ContextFields`, and the `SampleSize` before them. -/
structure ContextFields where
  sampleSize : u32
  ts : u64
  eventId : u32
  hostTid : u32
  hostPid : u32
  tid : u32
  pid : u32
  uid : u32
  comm : List u8
  argnum : u8
deriving DecidableEq

/-- `ContextEvent.ParseContext`. -/
def readContext : Reader ContextFields := do
  let sampleSize ← Reader.word 4
  let ts ← Reader.word 8
  let eventId ← Reader.word 4
  let hostTid ← Reader.word 4
  let hostPid ← Reader.word 4
  let tid ← Reader.word 4
  let pid ← Reader.word 4
  let uid ← Reader.word 4
  let comm ← Reader.take 16
  let argnum ← Reader.word 1
  let _ ← Reader.take 7
  return ⟨sampleSize, ts, eventId, hostTid, hostPid, tid, pid, uid, comm, argnum⟩

/-- `ContextEvent`: its fields, and what is left of the buffer they were read from. An event
that has read no context has zero fields and a nil buffer. -/
structure ContextEvent where
  fields : ContextFields
  buf : Option (List u8)

def ContextEvent.new : ContextEvent := ⟨⟨0, 0, 0, 0, 0, 0, 0, 0, List.replicate 16 0, 0⟩, none⟩

/-- `ContextEvent.ParseEvent`, with the context it leaves behind. -/
def EventConf.contextParseEvent (conf : EventConf) (rec : PerfRecord) :
    Parsed CommonRecord × ContextEvent :=
  if rec.recordType = perfRecordSample then
    -- under `BrkKernel` nothing is read, and the event id stays zero
    if conf.brkKernel then (.error, .new)
    else
      match readContext rec.rawSample with
      | (none, _) => (.panic, .new)
      | (some fields, buf) =>
          if fields.eventId ∈ [syscallEnter, syscallExit, uprobeEnter, uprobeExit] then
            (.nil, ⟨fields, some buf⟩)
          else (.error, ⟨fields, some buf⟩)
  else (conf.commonParseEvent rec, .new)

/-- `ParsePadding`: what the submitted bytes have beyond the arguments. -/
def PerfRecord.readPadding (rec : PerfRecord) (sampleSize : u32) : Reader Unit := fun buf =>
  let consumed := BitVec.ofNat 32 (rec.rawSample.length - buf.length)
  let paddingSize := sampleSize + 4 - consumed
  (do let _ ← Reader.take paddingSize.toNat) buf

def regArmMax : Nat := 16

/-- `ReadRegs`. -/
def readRegs (abi : u64) : Reader (List u64) :=
  if abi = 1 then Reader.each (fun _ => Reader.word 8) (List.range regArmMax)
  else if abi = 2 then Reader.each (fun _ => Reader.word 8) (List.range regArm64Max.toNat)
  else Reader.stop

/-- `ParseContextStack`, up to what is made of the registers and the stack. -/
def EventConf.readStack (conf : EventConf) : Reader Unit :=
  if conf.unwindStack then do
    let _ ← readRegs (← Reader.word 8)
    let stackSize ← Reader.word 8
    let _ ← Reader.take stackSize.toNat
    let _ ← Reader.word 8
  else if conf.showRegs then do
    let _ ← readRegs (← Reader.word 8)
  else return ()

/-- `UprobeEvent.ParseContext`. -/
def EventConf.uprobeParseContext (conf : EventConf) (rec : PerfRecord)
    (context : ContextFields) : Reader UprobeFields := do
  let fields ← parseContext context.eventId conf.points
  rec.readPadding context.sampleSize
  conf.readStack
  return fields

/-- `SyscallFields`, with the arguments in place of their text. -/
structure SyscallFields where
  nr : u32
  lr : u64
  sp : u64
  pc : u64
  args : List ReadArg
deriving DecidableEq

/-- `ParseEnterPoint` and `ParseExitPoint`. The JSON form reads the same bytes. -/
def readSyscallArgs (program : PointType) (args : List PointArg) : Reader (List ReadArg) :=
  Reader.each (fun a => do
    let ptr ← readReg
    return (ptr, ← a.parse program)) args

/-- `SyscallEvent.ParseContext`, up to the padding behind the arguments. -/
def readSyscall (eventId : u32) (points : List SyscallPoint) : Reader SyscallFields := do
  let nr ← readField 4
  match points.find? fun point => point.nr == nr with
  | none => Reader.stop
  | some point =>
      if eventId = syscallEnter then do
        let lr ← readField 8
        let sp ← readField 8
        let pc ← readField 8
        return ⟨nr, lr, sp, pc, ← readSyscallArgs .sysEnter point.enterPointArgs⟩
      else if eventId = syscallExit then
        return ⟨nr, 0, 0, 0, ← readSyscallArgs .sysExit point.exitPointArgs⟩
      else Reader.stop

/-- `SyscallEvent.ParseContext`. -/
def EventConf.syscallParseContext (conf : EventConf) (rec : PerfRecord)
    (context : ContextFields) : Reader SyscallFields := do
  let fields ← readSyscall context.eventId conf.syscallPoints
  rec.readPadding context.sampleSize
  conf.readStack
  return fields

/-- The two events that samples are bound to. -/
inductive EventKind where
  | uprobe | syscall
deriving DecidableEq

/-- The event ids of the samples of an event. -/
def EventKind.eventIds : EventKind → List u32
  | .uprobe => [uprobeEnter, uprobeExit]
  | .syscall => [syscallEnter, syscallExit]

/-- What comes out of a record: an event of its own kind, or a decoded sample. -/
inductive ParsedEvent where
  | common (e : CommonRecord)
  | uprobe (context : ContextFields) (fields : UprobeFields)
  | syscall (context : ContextFields) (fields : SyscallFields)
deriving DecidableEq

/-- The event is a decoded sample. -/
def ParsedEvent.isSample : ParsedEvent → Bool
  | common _ => false
  | uprobe .. | syscall .. => true

/-- A call of `ParseEvent`: whether it has gone on to `ParseContext` of the sample, and how it
has ended. -/
structure Handling where
  decoding : Bool
  parsed : Parsed ParsedEvent
deriving DecidableEq

/-- `ParseContext` of an event, called with its context. A nil buffer has nothing to read and
panics, after the check of the event id or in the first read. -/
def EventConf.parseSample (conf : EventConf) (kind : EventKind) (rec : PerfRecord)
    (context : ContextEvent) : Parsed ParsedEvent :=
  match context.buf with
  | none => .panic
  | some buf =>
      match kind with
      | .uprobe =>
          .ofRead (.uprobe context.fields) (conf.uprobeParseContext rec context.fields buf).1
      | .syscall =>
          .ofRead (.syscall context.fields) (conf.syscallParseContext rec context.fields buf).1

/-- `UprobeEvent.ParseEvent` and `SyscallEvent.ParseEvent`, which differ in the `ParseContext`
they call. -/
def EventConf.parseEvent (conf : EventConf) (kind : EventKind) (rec : PerfRecord) : Handling :=
  match conf.contextParseEvent rec with
  | (.panic, _) | (.error, _) => ⟨false, .panic⟩
  | (.event e, _) => ⟨false, .event (.common e)⟩
  | (.nil, context) => ⟨true, conf.parseSample kind rec context⟩

/-! ## Which records are handled -/

/-- The pid that a record beside the samples starts with. -/
def PerfRecord.pid (rec : PerfRecord) : u32 := LittleEndian.toWord 4 (rec.rawSample.take 4)

/-- The event id of a sample, which stands behind the sample size and the time. -/
def PerfRecord.eventId (rec : PerfRecord) : u32 :=
  LittleEndian.toWord 4 ((rec.rawSample.drop 12).take 4)

/-- The records that are no samples but have an event of their own. -/
def commonTypes : List u32 := [perfRecordComm, perfRecordMmap2, perfRecordExit, perfRecordFork]

/-- A call of `ParseEvent` does with the record what its type asks for. -/
structure Handling.Proper (kind : EventKind) (rec : PerfRecord) (h : Handling) : Prop where
  /-- Only a sample with an event id of this event is decoded as a sample. -/
  sample : ∀ e, h.parsed = .event e → e.isSample = true →
    rec.recordType = perfRecordSample ∧ rec.eventId ∈ kind.eventIds
  /-- The other records are not decoded as samples, and they are returned as the event of
  their type or ignored. -/
  common : rec.recordType ∈ commonTypes → h.decoding = false ∧
    (h.parsed = .nil ∨ ∃ e, h.parsed = .event (.common e) ∧ e.recordType = rec.recordType)

/-- The number of bytes that `ParseContext` reads of a record, up to a text at its end. -/
def EventConf.fixedBytes (conf : EventConf) (rec : PerfRecord) : Nat :=
  if conf.selfPid = rec.pid then 4
  else if rec.recordType = perfRecordComm then 8
  else if rec.recordType = perfRecordMmap2 then 64
  else 24

/-- A mapping of the tracer itself. -/
def EventConf.OwnMmap2 (conf : EventConf) (rec : PerfRecord) : Prop :=
  rec.recordType = perfRecordMmap2 ∧ conf.selfPid = rec.pid

/-- The event id of a context is the one in its place in the record. -/
theorem readContext_eventId {buf rest : List u8} {fields : ContextFields}
    (h : readContext buf = (some fields, rest)) :
    fields.eventId = LittleEndian.toWord 4 ((buf.drop 12).take 4) := by
  obtain ⟨sampleSize, mid, hsize, h⟩ := Reader.bind_eq_some h
  obtain ⟨-, rfl⟩ := Reader.word_eq_some hsize
  obtain ⟨ts, mid, hts, h⟩ := Reader.bind_eq_some h
  obtain ⟨-, rfl⟩ := Reader.word_eq_some hts
  obtain ⟨eventId, mid, hid, h⟩ := Reader.bind_eq_some h
  obtain ⟨heventId, rfl⟩ := Reader.word_eq_some hid
  -- none of the eight later fields changes the event id
  have hlater : fields.eventId = eventId := by
    refine Reader.Returns.bind (P := fun f => f.eventId = eventId) (fun _ => ?_) _ _ _ h
    iterate 7 refine Reader.Returns.bind fun _ => ?_
    exact Reader.returns_pure rfl
  rw [hlater, heventId, List.drop_drop]

/-- `ContextEvent.ParseEvent` asks for a sample to be decoded after it has read the context of
one, and for a mapping of the tracer. -/
theorem contextParseEvent_nil {conf : EventConf} {rec : PerfRecord} {context : ContextEvent}
    (h : conf.contextParseEvent rec = (.nil, context)) :
    (rec.recordType = perfRecordSample ∧ context.fields.eventId = rec.eventId) ∨
      context = .new := by
  unfold EventConf.contextParseEvent at h
  split at h
  · rename_i hsample
    split at h
    · cases h
    · split at h
      · cases h
      · rename_i fields buf hread
        split at h
        · obtain rfl := (Prod.mk.inj h).2
          exact Or.inl ⟨hsample, readContext_eventId hread⟩
        · cases h
  · exact Or.inr (Prod.mk.inj h).2.symm

/-- `UprobeEvent.ParseContext` gets past its first check for its own event ids only. -/
theorem parseContext_eventId {eventId : u32} {points : List UprobeArgs} {buf rest : List u8}
    {fields : UprobeFields} (h : parseContext eventId points buf = (some fields, rest)) :
    eventId ∈ EventKind.uprobe.eventIds := by
  unfold parseContext at h
  split at h
  · cases h
  · rename_i hid
    rw [not_and_or, not_not, not_not] at hid
    simpa [EventKind.eventIds] using hid

/-- `SyscallEvent.ParseContext` gets to its end for its own event ids only. -/
theorem readSyscall_eventId {eventId : u32} {points : List SyscallPoint} {buf rest : List u8}
    {fields : SyscallFields} (h : readSyscall eventId points buf = (some fields, rest)) :
    eventId ∈ EventKind.syscall.eventIds := by
  obtain ⟨nr, mid, -, h⟩ := Reader.bind_eq_some h
  by_contra hid
  simp only [EventKind.eventIds, List.mem_cons, List.not_mem_nil, or_false, not_or] at hid
  cases hpoint : points.find? fun point => point.nr == nr with
  | none =>
      rw [hpoint] at h
      cases h
  | some point =>
      rw [hpoint] at h
      dsimp only at h
      rw [if_neg hid.1, if_neg hid.2] at h
      cases h

/-- A sample is decoded for the event ids of its event only. -/
theorem parseSample_eventId {conf : EventConf} {kind : EventKind} {rec : PerfRecord}
    {context : ContextEvent} {e : ParsedEvent}
    (h : conf.parseSample kind rec context = .event e) :
    context ≠ .new ∧ context.fields.eventId ∈ kind.eventIds := by
  unfold EventConf.parseSample at h
  split at h
  · cases h
  · rename_i buf hbuf
    have hnew : context ≠ .new := fun heq => by
      rw [heq] at hbuf
      cases hbuf
    refine ⟨hnew, ?_⟩
    cases kind with
    | uprobe =>
        obtain ⟨fields, hread, -⟩ := Parsed.ofRead_eq_event h
        obtain ⟨_, mid, hfields, -⟩ := Reader.bind_eq_some (Prod.ext hread rfl)
        exact parseContext_eventId hfields
    | syscall =>
        obtain ⟨fields, hread, -⟩ := Parsed.ofRead_eq_event h
        obtain ⟨_, mid, hfields, -⟩ := Reader.bind_eq_some (Prod.ext hread rfl)
        exact readSyscall_eventId hfields

/-- The first half of `Proper` holds of every call. -/
theorem parseEvent_sample {conf : EventConf} {kind : EventKind} {rec : PerfRecord}
    {e : ParsedEvent} (h : (conf.parseEvent kind rec).parsed = .event e)
    (he : e.isSample = true) :
    rec.recordType = perfRecordSample ∧ rec.eventId ∈ kind.eventIds := by
  unfold EventConf.parseEvent at h
  split at h
  · cases h
  · cases h
  · obtain rfl := Parsed.event.inj h
    cases he
  · rename_i context hcontext
    obtain ⟨hnew, hid⟩ := parseSample_eventId h
    rcases contextParseEvent_nil hcontext with ⟨hsample, heventId⟩ | heq
    · exact ⟨hsample, heventId ▸ hid⟩
    · exact absurd heq hnew

/-! ## How much of a record is read -/

section Lengths

variable {conf : EventConf} {rec : PerfRecord} {α : Type} {own : u32 → α}
  {fields : u32 → Reader α}

/-- A record of the tracer needs its pid, every other one its fields. -/
theorem readOthers_isSome {n : Nat} (hfields : ∀ pid, Reader.Accepts (fields pid) n) :
    (conf.readOthers own fields rec.rawSample).1.isSome ↔
      (if conf.selfPid = rec.pid then 4 else 4 + n) ≤ rec.rawSample.length := by
  unfold EventConf.readOthers
  by_cases hlen : 4 ≤ rec.rawSample.length
  · rw [Reader.bind_of_some (Reader.word_of_le hlen)]
    show ((if conf.selfPid = rec.pid then pure (own rec.pid) else fields rec.pid : Reader α)
      (rec.rawSample.drop 4)).1.isSome ↔ _
    split
    · exact ⟨fun _ => hlen, fun _ => rfl⟩
    · rw [hfields rec.pid, List.length_drop]
      omega
  · rw [Reader.bind_of_none ((Reader.takes_word 4 _).2 (by omega))]
    have hshort : ¬ (if conf.selfPid = rec.pid then 4 else 4 + n) ≤ rec.rawSample.length := by
      split <;> omega
    simp [hshort]

/-- A field that is set to the pid in both branches is the pid of the record. -/
theorem readOthers_pid {pid : α → u32} (hown : ∀ x, pid (own x) = x)
    (hfields : ∀ x, Reader.Returns (fields x) fun a => pid a = x) {a : α}
    (h : (conf.readOthers own fields rec.rawSample).1 = some a) : pid a = rec.pid := by
  obtain ⟨x, mid, hword, hrest⟩ := Reader.bind_eq_some (Prod.ext h rfl)
  obtain ⟨rfl, rfl⟩ := Reader.word_eq_some hword
  split at hrest
  · obtain rfl := Option.some.inj (Prod.mk.inj hrest).1
    exact hown rec.pid
  · exact hfields rec.pid _ _ _ hrest

theorem readComm_isSome : (conf.readComm rec.rawSample).1.isSome ↔
    (if conf.selfPid = rec.pid then 4 else 8) ≤ rec.rawSample.length :=
  readOthers_isSome (n := 4) fun _ =>
    (Reader.takes_word 4).bind_accepts fun _ => Reader.accepts_rest_map _

theorem readFork_isSome : (conf.readFork rec.rawSample).1.isSome ↔
    (if conf.selfPid = rec.pid then 4 else 24) ≤ rec.rawSample.length :=
  readOthers_isSome (n := 20) fun _ =>
    Reader.Takes.accepts <| (Reader.takes_word 4).bind fun _ => (Reader.takes_word 4).bind
      fun _ => (Reader.takes_word 4).bind fun _ => (Reader.takes_word 8).bind
        fun _ => Reader.takes_pure _

theorem readMmap2_isSome : (conf.readMmap2 rec.rawSample).1.isSome ↔
    (if conf.selfPid = rec.pid then 4 else 64) ≤ rec.rawSample.length := by
  refine readOthers_isSome (n := 60) fun _ => ?_
  refine (Reader.takes_word 4).bind_accepts (n := 56) fun _ => ?_
  refine (Reader.takes_word 8).bind_accepts (n := 48) fun _ => ?_
  refine (Reader.takes_word 8).bind_accepts (n := 40) fun _ => ?_
  refine (Reader.takes_word 8).bind_accepts (n := 32) fun _ => ?_
  refine (Reader.takes_word 4).bind_accepts (n := 28) fun _ => ?_
  refine (Reader.takes_word 4).bind_accepts (n := 24) fun _ => ?_
  refine (Reader.takes_word 8).bind_accepts (n := 16) fun _ => ?_
  refine (Reader.takes_word 8).bind_accepts (n := 8) fun _ => ?_
  refine (Reader.takes_word 4).bind_accepts (n := 4) fun _ => ?_
  exact (Reader.takes_word 4).bind_accepts fun _ => Reader.accepts_rest_map _

theorem readMmap2_pid {fields : Mmap2Fields}
    (h : (conf.readMmap2 rec.rawSample).1 = some fields) : fields.pid = rec.pid := by
  refine @readOthers_pid _ _ _ _ _ Mmap2Fields.pid (fun _ => rfl) (fun _ => ?_) _ h
  iterate 11 refine Reader.Returns.bind fun _ => ?_
  exact Reader.returns_pure rfl

/-- The bytes that are read of a record with an event of its own. -/
theorem fixedBytes_eq {n : Nat} (h : (if rec.recordType = perfRecordComm then 8
    else if rec.recordType = perfRecordMmap2 then 64 else 24) = n) :
    conf.fixedBytes rec = if conf.selfPid = rec.pid then 4 else n := by
  unfold EventConf.fixedBytes
  rw [h]

theorem ofRead_isEvent (make : α → CommonRecord) {t : u32}
    (hmake : ∀ a, (make a).recordType = t) (a? : Option α) :
    (∃ e, Parsed.ofRead make a? = .event e ∧ e.recordType = t) ↔ a?.isSome := by
  cases a? with
  | none => simp [Parsed.ofRead]
  | some a => exact ⟨fun _ => rfl, fun _ => ⟨make a, rfl, hmake a⟩⟩

theorem newMmap2Event_isEvent (hmmap2 : rec.recordType = perfRecordMmap2) :
    (∃ e, conf.newMmap2Event rec = .event e ∧ e.recordType = rec.recordType) ↔
      conf.selfPid ≠ rec.pid ∧ (conf.readMmap2 rec.rawSample).1.isSome := by
  unfold EventConf.newMmap2Event
  cases hread : (conf.readMmap2 rec.rawSample).1 with
  | none => simp
  | some fields =>
      have hpid := readMmap2_pid hread
      by_cases hown : conf.selfPid = rec.pid
      · simp [hpid, hown]
      · have hother : fields.pid ≠ conf.selfPid := fun h => hown (h.symm.trans hpid)
        simp [hother, hown, hmmap2, CommonRecord.recordType]

/-- **Records beside samples** become events of their types when they have the bytes that are
read, and are no mappings of the tracer. -/
theorem commonParseEvent_isEvent (h : rec.recordType ∈ commonTypes) :
    (∃ e, conf.commonParseEvent rec = .event e ∧ e.recordType = rec.recordType) ↔
      ¬ conf.OwnMmap2 rec ∧ conf.fixedBytes rec ≤ rec.rawSample.length := by
  have hother (hne : rec.recordType ≠ perfRecordMmap2) : ¬ conf.OwnMmap2 rec :=
    fun hown => hne hown.1
  simp only [commonTypes, List.mem_cons, List.not_mem_nil, or_false] at h
  unfold EventConf.commonParseEvent
  rcases h with hcomm | hmmap2 | hexit | hfork
  · have hbytes : conf.fixedBytes rec = _ := fixedBytes_eq (by rw [if_pos hcomm])
    rw [if_pos hcomm, ofRead_isEvent .comm fun _ => hcomm.symm, readComm_isSome, hbytes]
    simp [hother (by rw [hcomm]; decide)]
  · have hne : rec.recordType ≠ perfRecordComm := by rw [hmmap2]; decide
    have hbytes : conf.fixedBytes rec = _ :=
      fixedBytes_eq (by rw [if_neg hne, if_pos hmmap2])
    rw [if_neg hne, if_pos hmmap2, newMmap2Event_isEvent hmmap2, readMmap2_isSome, hbytes]
    simp [EventConf.OwnMmap2, hmmap2]
  · have hcomm : rec.recordType ≠ perfRecordComm := by rw [hexit]; decide
    have hmmap2 : rec.recordType ≠ perfRecordMmap2 := by rw [hexit]; decide
    have hbytes : conf.fixedBytes rec = _ :=
      fixedBytes_eq (by rw [if_neg hcomm, if_neg hmmap2])
    rw [if_neg hcomm, if_neg hmmap2, if_pos hexit, ofRead_isEvent .exit fun _ => hexit.symm]
    rw [EventConf.readExit, readFork_isSome, hbytes]
    simp [hother hmmap2]
  · have hcomm : rec.recordType ≠ perfRecordComm := by rw [hfork]; decide
    have hmmap2 : rec.recordType ≠ perfRecordMmap2 := by rw [hfork]; decide
    have hexit : rec.recordType ≠ perfRecordExit := by rw [hfork]; decide
    have hbytes : conf.fixedBytes rec = _ :=
      fixedBytes_eq (by rw [if_neg hcomm, if_neg hmmap2])
    rw [if_neg hcomm, if_neg hmmap2, if_neg hexit, if_pos hfork,
      ofRead_isEvent .fork fun _ => hfork.symm, readFork_isSome, hbytes]
    simp [hother hmmap2]

end Lengths

/-- A record with an event of its own is handled when the common `ParseEvent` returns this
event: its nil result is taken for a sample. -/
theorem parseEvent_common_iff {conf : EventConf} {kind : EventKind} {rec : PerfRecord}
    (h : rec.recordType ∈ commonTypes) :
    ((conf.parseEvent kind rec).decoding = false ∧
      ((conf.parseEvent kind rec).parsed = .nil ∨
        ∃ e, (conf.parseEvent kind rec).parsed = .event (.common e) ∧
          e.recordType = rec.recordType)) ↔
      ∃ e, conf.commonParseEvent rec = .event e ∧ e.recordType = rec.recordType := by
  have hsample : rec.recordType ≠ perfRecordSample := by
    intro heq
    rw [heq] at h
    exact absurd h (by decide)
  unfold EventConf.parseEvent EventConf.contextParseEvent
  rw [if_neg hsample]
  cases conf.commonParseEvent rec with
  | panic => simp
  | error => simp
  | nil => simp
  | event e => simp

/-- **What `ParseEvent` makes of a record.** Samples are decoded by their own events only. The
records beside them are handled as such exactly when they have the bytes that are read of them
and are no mappings of the tracer. -/
theorem parseEvent_proper_iff (conf : EventConf) (kind : EventKind) (rec : PerfRecord) :
    Handling.Proper kind rec (conf.parseEvent kind rec) ↔
      (rec.recordType ∈ commonTypes →
        ¬ conf.OwnMmap2 rec ∧ conf.fixedBytes rec ≤ rec.rawSample.length) := by
  constructor
  · intro h hcommon
    have hevent := (parseEvent_common_iff hcommon).mp (h.common hcommon)
    exact (commonParseEvent_isEvent hcommon).mp hevent
  · intro h
    refine ⟨fun e he hsample => parseEvent_sample he hsample, fun hcommon => ?_⟩
    have hevent := (commonParseEvent_isEvent hcommon).mpr (h hcommon)
    exact (parseEvent_common_iff hcommon).mpr hevent

/-- A tracer with pid 1 that has no points. -/
def pidOneConf : EventConf := ⟨1, false, false, false, [], []⟩

/-- The record of a mapping by process 1, with zeros for what follows the pid. -/
def pidOneMmap2 : PerfRecord := ⟨perfRecordMmap2, LittleEndian.encode 64 1⟩

/-- A mapping of the tracer itself goes on to the decoder of samples, which panics. -/
theorem pidOneMmap2_not_proper :
    pidOneConf.parseEvent .uprobe pidOneMmap2 = ⟨true, .panic⟩ ∧
      ¬ Handling.Proper .uprobe pidOneMmap2 (pidOneConf.parseEvent .uprobe pidOneMmap2) := by
  have hparse : pidOneConf.parseEvent .uprobe pidOneMmap2 = ⟨true, .panic⟩ := by decide +kernel
  refine ⟨hparse, fun hproper => ?_⟩
  have hdecoding := (hproper.common (by decide)).1
  rw [hparse] at hdecoding
  cases hdecoding

end Stackplz
