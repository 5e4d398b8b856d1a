import Stackplz.User.Backtrace
import Stackplz.User.DumpFile

/-!
# Replay of a dump

`EventParser.ParseDump` (`parser.go`) hands the records of a dump to the same `ParseEvent` as
`EventProcessor.dispatch` (`processer.go`) does with the records of the perf buffers. `dispatch`
drops a record whose `ParseEvent` ends in an error or a nil event. `ParseDump` panics over the
error, and takes the text of the nil event. And the options of a record differ: the live path reads
the registers for `--reg` alone (`imodule.go`), the replay does not and panics over the text. So
the replay follows the live path over the dumps in which no record is dropped or lacks its
registers.
-/

set_option autoImplicit false

namespace Stackplz

/-- The events that records are bound to. -/
inductive BoundEvent where
  | common | brk | uprobe | syscall
deriving DecidableEq

/-- `COMMON_EVENT` to `SYSCALL_EVENT`. -/
def BoundEvent.index : BoundEvent → u8
  | common => 1
  | brk => 2
  | uprobe => 3
  | syscall => 4

/-- The event that `ParseDump` makes for an index. -/
def BoundEvent.ofIndex (eventIndex : u8) : Option BoundEvent :=
  if eventIndex = 1 then some .common
  else if eventIndex = 2 then some .brk
  else if eventIndex = 3 then some .uprobe
  else if eventIndex = 4 then some .syscall
  else none

@[simp] theorem BoundEvent.ofIndex_index (event : BoundEvent) :
    ofIndex event.index = some event := by
  cases event <;> rfl

/-- `BrkEvent`, without the registers and the stack. -/
structure BrkFields where
  pid : u32
  tid : u32
  eventAddr : u64
deriving DecidableEq

/-- The events that `ParseEvent` returns. -/
inductive ReplayEvent where
  | parsed (e : ParsedEvent)
  | brk (fields : BrkFields)
deriving DecidableEq

/-- What both paths read of `ModuleConfig`, whose `ShowRegs` is `showRegs`. -/
structure ReplayConf extends EventConf where
  is32Bit : Bool
  regName : Text
  pidWhitelist : List u32
  brkPid : Int

/-- `getExtraOptions`: the live path reads the registers for `RegName` as well. -/
def ReplayConf.liveOptions (conf : ReplayConf) : EventConf :=
  { conf.toEventConf with showRegs := conf.regName ≠ [] || conf.showRegs }

/-- The `ExtraOptions` of `ParseDump`. -/
def ReplayConf.dumpOptions (conf : ReplayConf) : EventConf := conf.toEventConf

/-! ## Breakpoints -/

/-- `BrkEvent.GetPid`; `pid` is the one that was read. -/
def ReplayConf.getPid (conf : ReplayConf) (pid : u32) : u32 :=
  match conf.pidWhitelist with
  | [only] => only
  | _ => if conf.brkPid = -1 then pid else BitVec.ofInt 32 conf.brkPid

/-- `BrkEvent.ParseContext`. -/
def ReplayConf.brkParseContext (conf : ReplayConf) (options : EventConf) : Reader BrkFields := do
  let pid ← Reader.word 4
  if pid ≠ conf.getPid pid then return ⟨pid, 0, 0⟩
  else do
    let tid ← Reader.word 4
    let eventAddr ← Reader.word 8
    options.readStack
    return ⟨pid, tid, eventAddr⟩

/-- `BrkEvent.Check`. -/
def ReplayConf.brkCheck (conf : ReplayConf) (fields : BrkFields) : Prop :=
  fields.pid ≠ conf.selfPid ∧ fields.pid = conf.getPid fields.pid

instance (conf : ReplayConf) (fields : BrkFields) : Decidable (conf.brkCheck fields) :=
  inferInstanceAs (Decidable (_ ∧ _))

/-- `BrkEvent.ParseEvent`. -/
def ReplayConf.brkParseEvent (conf : ReplayConf) (options : EventConf) (rec : PerfRecord) :
    Parsed BrkFields :=
  match (conf.brkParseContext options rec.rawSample).1 with
  | none => .panic
  | some fields => if conf.brkCheck fields then .event fields else .nil

/-! ## Registers -/

/-- `ParseContextStack`, for the registers: those of `UnwindBuffer` or of `RegsBuffer`. -/
def EventConf.readRegisters (options : EventConf) : Reader (List u64) :=
  if options.unwindStack then do
    let regs ← readRegs (← Reader.word 8)
    let stackSize ← Reader.word 8
    let _ ← Reader.take stackSize.toNat
    let _ ← Reader.word 8
    return regs
  else if options.showRegs then do
    readRegs (← Reader.word 8)
  else return []

/-- What `ParseContext` of a sample reads in front of the registers. -/
def EventConf.skipFields (options : EventConf) (kind : EventKind) (rec : PerfRecord)
    (context : ContextFields) : Reader Unit :=
  match kind with
  | .uprobe => do
      let _ ← parseContext context.eventId options.points
      rec.readPadding context.sampleSize
  | .syscall => do
      let _ ← readSyscall context.eventId options.syscallPoints
      rec.readPadding context.sampleSize

/-- The registers that a sample's event has read. -/
def EventConf.sampleRegisters (options : EventConf) (kind : EventKind) (rec : PerfRecord) :
    List u64 :=
  let read : Reader (List u64) := do
    options.skipFields kind rec (← readContext)
    options.readRegisters
  (read rec.rawSample).1.getD []

/-- The registers that the event of a record has read; those of a breakpoint stand behind its pid,
tid and address. -/
def EventConf.registers (options : EventConf) (event : BoundEvent) (rec : PerfRecord) : List u64 :=
  match event with
  | .common => []
  | .brk => (options.readRegisters (rec.rawSample.drop 16)).1.getD []
  | .uprobe => options.sampleRegisters .uprobe rec
  | .syscall => options.sampleRegisters .syscall rec

/-- `RegsArmNameMap`. -/
def regsArmNameMap : List (Text × u32) :=
  (List.range 11).map (fun i => ('r' :: (Nat.repr i).toList, BitVec.ofNat 32 i)) ++
    [("fp".toList, 11), ("ip".toList, 12), ("sp".toList, 13), ("lr".toList, 14), ("pc".toList, 15)]

/-- The index of a register in one of the two maps, zero for a name that is in neither. -/
def ReplayConf.regIndex (conf : ReplayConf) (regName : Text) : Nat :=
  let names := if conf.is32Bit then regsArmNameMap else regsNameMap
  match names.find? fun entry => entry.1 == regName with
  | some entry => entry.2.toNat
  | none => 0

/-- `GetRegValue`; `none` is a panic. -/
def ReplayConf.getRegValue (conf : ReplayConf) (regs : List u64) (regName : Text) : Option u64 :=
  regs[conf.regIndex regName]?

/-- Whether `GetStackTrace` panics, as it does over a register of `RegName` that the event has not
read. -/
def ReplayConf.getStackTracePanics (conf : ReplayConf) (regs : List u64) : Bool :=
  conf.regName ≠ [] &&
    (Text.splitOn ',' conf.regName).any fun regName => (conf.getRegValue regs regName).isNone

/-! ## The two paths -/

/-- The same end, with another event. -/
def Parsed.map {α β : Type} (f : α → β) : Parsed α → Parsed β
  | panic => .panic
  | error => .error
  | nil => .nil
  | event e => .event (f e)

/-- `ParseEvent` of the event that a record is bound to. -/
def ReplayConf.parseRecord (conf : ReplayConf) (options : EventConf) (event : BoundEvent)
    (rec : PerfRecord) : Parsed ReplayEvent :=
  match event with
  | .common => (options.commonParseEvent rec).map fun e => .parsed (.common e)
  | .brk => (conf.brkParseEvent options rec).map .brk
  | .uprobe => (options.parseEvent .uprobe rec).parsed.map .parsed
  | .syscall => (options.parseEvent .syscall rec).parsed.map .parsed

/-- Whether `String` panics. That of an exit and of the events beside samples has no stack trace. -/
def ReplayConf.stringPanics (conf : ReplayConf) (regs : List u64) : ReplayEvent → Bool
  | .parsed (.common _) => false
  | .parsed (.uprobe ..) => conf.getStackTracePanics regs
  | .parsed (.syscall context _) =>
      context.eventId == syscallEnter && conf.getStackTracePanics regs
  | .brk _ => conf.getStackTracePanics regs

/-- What becomes of a record: the program panics, the record is dropped, or its event is
handed on. -/
inductive Treatment where
  | panic
  | dropped
  | event (e : ReplayEvent)
deriving DecidableEq

/-- `dispatch`, and `parserEvent` of the worker, which prints no event of a record that has an
event of its own. -/
def ReplayConf.dispatch (conf : ReplayConf) (event : BoundEvent) (rec : PerfRecord) :
    Treatment :=
  match conf.parseRecord conf.liveOptions event rec with
  | .panic => .panic
  | .error | .nil => .dropped
  | .event e =>
      if rec.recordType ∉ commonTypes ∧
        conf.stringPanics (conf.liveOptions.registers event rec) e then .panic else .event e

/-- `ParseEvent` and the output in `ParseDump`. -/
def ReplayConf.printRecord (conf : ReplayConf) (event : BoundEvent) (rec : PerfRecord) :
    Treatment :=
  match conf.parseRecord conf.dumpOptions event rec with
  -- `panic(err)`, and `String` of a nil interface
  | .panic | .error | .nil => .panic
  | .event e =>
      if conf.stringPanics (conf.dumpOptions.registers event rec) e then .panic else .event e

/-- A round of `ParseDump`, behind the reads. -/
def ReplayConf.replayRecord (conf : ReplayConf) (entry : DumpEntry) : Treatment :=
  match BoundEvent.ofIndex entry.eventIndex with
  | none => .panic
  | some event => conf.printRecord event entry.record

/-- The loop of `ParseDump` goes on behind a record that does not panic. -/
def ReplayConf.handle (conf : ReplayConf) (_ : Unit) (entry : DumpEntry) : Option Unit :=
  if conf.replayRecord entry = .panic then none else some ()

/-- A record with the event that it is bound to; its length fits its word. -/
structure BoundRecord where
  event : BoundEvent
  record : PerfRecord
  bound : record.rawSample.length < 2 ^ 32 - 9

/-- What `DumpRecord` is called with. -/
def BoundRecord.dumpRecord (r : BoundRecord) : DumpRecord := ⟨⟨r.event.index, r.record⟩, r.bound⟩

/-- `dispatch` of one record after the other: those it gets to, and whether it panics. -/
def ReplayConf.dispatchAll (conf : ReplayConf) : List BoundRecord → List DumpEntry × DumpEnd
  | [] => ([], .eof)
  | r :: rs =>
      if conf.dispatch r.event r.record = .panic then ([r.dumpRecord.toDumpEntry], .panic)
      else (r.dumpRecord.toDumpEntry :: (dispatchAll conf rs).1, (dispatchAll conf rs).2)

/-- The records that the live path gets through. -/
def ReplayConf.survived (conf : ReplayConf) (rs : List BoundRecord) : List BoundRecord :=
  rs.takeWhile fun r => conf.dispatch r.event r.record ≠ .panic

/-- The replay of the dump of some records follows the live path. -/
structure ReplayConf.FollowsLive (conf : ReplayConf) (rs : List BoundRecord) : Prop where
  /-- It gets to every record that the live path gets to. -/
  reaches : (conf.dispatchAll rs).1 <+:
    (parseDump conf.handle () (frames (rs.map BoundRecord.dumpRecord))).1
  /-- It comes to the end of the dump when the live path gets through all records. -/
  ends : (conf.dispatchAll rs).2 = .eof →
    parseDump conf.handle () (frames (rs.map BoundRecord.dumpRecord)) = conf.dispatchAll rs
  /-- The records that the live path gets through are dropped or handed on as there. -/
  treats : ∀ r ∈ conf.survived rs,
    conf.replayRecord r.dumpRecord.toDumpEntry = conf.dispatch r.event r.record

/-- `--reg` asks for registers that the replay does not read. -/
def ReplayConf.RegsUnread (conf : ReplayConf) : Prop :=
  conf.regName ≠ [] ∧ conf.unwindStack = false ∧ conf.showRegs = false

/-- `--reg` names a register that 32-bit processes do not have. -/
def ReplayConf.NamesHighReg (conf : ReplayConf) : Prop :=
  conf.regName ≠ [] ∧ ∃ regName ∈ Text.splitOn ',' conf.regName, regArmMax ≤ conf.regIndex regName

/-- The abi of the registers of a breakpoint. -/
def PerfRecord.brkAbi (rec : PerfRecord) : u64 :=
  LittleEndian.toWord 8 ((rec.rawSample.drop 16).take 8)

/-- The live path passes over a record, or over what the replay does not find in it: it has no
event, or one of another process than asked for or of the tracer, or a text with registers that
only the live path reads, or one that the live path does not print. -/
def ReplayConf.PassedOver (conf : ReplayConf) (r : BoundRecord) : Prop :=
  match r.event with
  | .common => r.record.recordType ∉ commonTypes ∨ conf.OwnMmap2 r.record
  | .brk => r.record.pid = conf.selfPid ∨ r.record.pid ≠ conf.getPid r.record.pid ∨
      conf.RegsUnread ∨
      (r.record.recordType ∈ commonTypes ∧ r.record.brkAbi = 1 ∧ conf.NamesHighReg)
  | .uprobe => r.record.recordType = perfRecordSample ∧ conf.RegsUnread
  | .syscall => r.record.recordType = perfRecordSample ∧ r.record.eventId = syscallEnter ∧
      conf.RegsUnread

/-! ## When `ParseEvent` returns an event -/

theorem Parsed.map_eq_event {α β : Type} {f : α → β} {p : Parsed α} {b : β} :
    p.map f = .event b ↔ ∃ a, p = .event a ∧ f a = b := by
  cases p <;> simp [Parsed.map]

theorem Parsed.exists_map_eq_event {α β : Type} {f : α → β} {p : Parsed α} :
    (∃ b, p.map f = .event b) ↔ ∃ a, p = .event a := by
  cases p <;> simp [Parsed.map]

theorem Parsed.map_eq_panic {α β : Type} {f : α → β} {p : Parsed α} :
    p.map f = .panic ↔ p = .panic := by
  cases p <;> simp [Parsed.map]

/-- A record that was read has an event. -/
theorem Parsed.ofRead_of_ne_panic {ε α : Type} {make : α → ε} {a? : Option α}
    (h : Parsed.ofRead make a? ≠ .panic) : ∃ e, Parsed.ofRead make a? = .event e := by
  cases a? with
  | none => exact absurd rfl h
  | some a => exact ⟨make a, rfl⟩

/-- A mapping that was read has an event, if it is not the tracer's. -/
theorem newMmap2Event_event_iff {conf : EventConf} {rec : PerfRecord}
    (hread : conf.newMmap2Event rec ≠ .panic) :
    (∃ e, conf.newMmap2Event rec = .event e) ↔ conf.selfPid ≠ rec.pid := by
  unfold EventConf.newMmap2Event at hread ⊢
  cases hfields : (conf.readMmap2 rec.rawSample).1 with
  | none =>
      rw [hfields] at hread
      exact absurd rfl hread
  | some fields =>
      have hpid : fields.pid = rec.pid := readMmap2_pid hfields
      dsimp only
      rw [hpid]
      by_cases hown : rec.pid = conf.selfPid
      · simp [hown]
      · simp [hown, Ne.symm hown]

/-- `CommonEvent.ParseEvent` drops the records without an event of their own, and the mappings
of the tracer. -/
theorem commonParseEvent_event_iff {conf : EventConf} {rec : PerfRecord}
    (hread : conf.commonParseEvent rec ≠ .panic) :
    (∃ e, conf.commonParseEvent rec = .event e) ↔
      rec.recordType ∈ commonTypes ∧ ¬ conf.OwnMmap2 rec := by
  have hother (hne : rec.recordType ≠ perfRecordMmap2) : ¬ conf.OwnMmap2 rec :=
    fun hown => hne hown.1
  unfold EventConf.commonParseEvent at hread ⊢
  by_cases hcomm : rec.recordType = perfRecordComm
  · have hmem : rec.recordType ∈ commonTypes := by simp [commonTypes, hcomm]
    rw [if_pos hcomm] at hread ⊢
    exact iff_of_true (Parsed.ofRead_of_ne_panic hread) ⟨hmem, hother (by rw [hcomm]; decide)⟩
  rw [if_neg hcomm] at hread ⊢
  by_cases hmmap2 : rec.recordType = perfRecordMmap2
  · rw [if_pos hmmap2] at hread ⊢
    rw [newMmap2Event_event_iff hread]
    simp [commonTypes, EventConf.OwnMmap2, hmmap2]
  rw [if_neg hmmap2] at hread ⊢
  by_cases hexit : rec.recordType = perfRecordExit
  · have hmem : rec.recordType ∈ commonTypes := by simp [commonTypes, hexit]
    rw [if_pos hexit] at hread ⊢
    exact iff_of_true (Parsed.ofRead_of_ne_panic hread) ⟨hmem, hother hmmap2⟩
  rw [if_neg hexit] at hread ⊢
  by_cases hfork : rec.recordType = perfRecordFork
  · have hmem : rec.recordType ∈ commonTypes := by simp [commonTypes, hfork]
    rw [if_pos hfork] at hread ⊢
    exact iff_of_true (Parsed.ofRead_of_ne_panic hread) ⟨hmem, hother hmmap2⟩
  · have hmem : rec.recordType ∉ commonTypes := by
      simp [commonTypes, hcomm, hmmap2, hexit, hfork]
    rw [if_neg hfork]
    simp [hmem]

/-- A breakpoint has the pid that its record starts with. -/
theorem brkParseContext_pid {conf : ReplayConf} {options : EventConf} {rec : PerfRecord}
    {fields : BrkFields} (h : (conf.brkParseContext options rec.rawSample).1 = some fields) :
    fields.pid = rec.pid := by
  obtain ⟨pid, mid, hword, hrest⟩ := Reader.bind_eq_some (Prod.ext h rfl)
  obtain ⟨rfl, rfl⟩ := Reader.word_eq_some hword
  split at hrest
  · obtain rfl := Option.some.inj (Prod.mk.inj hrest).1
    rfl
  · refine Reader.Returns.bind (P := fun f => f.pid = rec.pid) (fun _ => ?_) _ _ _ hrest
    refine Reader.Returns.bind fun _ => ?_
    refine Reader.Returns.bind fun _ => ?_
    exact Reader.returns_pure rfl

/-- `BrkEvent.ParseEvent` drops the breakpoints of the tracer, and those of other processes than
the one asked for. -/
theorem brkParseEvent_event_iff {conf : ReplayConf} {options : EventConf} {rec : PerfRecord}
    (hread : conf.brkParseEvent options rec ≠ .panic) :
    (∃ fields, conf.brkParseEvent options rec = .event fields) ↔
      rec.pid ≠ conf.selfPid ∧ rec.pid = conf.getPid rec.pid := by
  unfold ReplayConf.brkParseEvent at hread ⊢
  cases hfields : (conf.brkParseContext options rec.rawSample).1 with
  | none =>
      rw [hfields] at hread
      exact absurd rfl hread
  | some fields =>
      have hcheck : conf.brkCheck fields ↔
          rec.pid ≠ conf.selfPid ∧ rec.pid = conf.getPid rec.pid := by
        unfold ReplayConf.brkCheck
        rw [brkParseContext_pid hfields]
      dsimp only
      rw [← hcheck]
      by_cases h : conf.brkCheck fields
      · simp [h]
      · simp [h]

/-- The events of samples never drop a record. -/
theorem parseEvent_event {conf : EventConf} {kind : EventKind} {rec : PerfRecord}
    (hread : (conf.parseEvent kind rec).parsed ≠ .panic) :
    ∃ e, (conf.parseEvent kind rec).parsed = .event e := by
  unfold EventConf.parseEvent at hread ⊢
  split at hread
  · exact absurd rfl hread
  · exact absurd rfl hread
  · exact ⟨_, rfl⟩
  · rename_i context _
    unfold EventConf.parseSample at hread ⊢
    split at hread
    · exact absurd rfl hread
    · cases kind with
      | uprobe => exact Parsed.ofRead_of_ne_panic hread
      | syscall => exact Parsed.ofRead_of_ne_panic hread

/-- The event of a sample has the event id of its record. -/
theorem parseEvent_cases {conf : EventConf} {kind : EventKind} {rec : PerfRecord} {e : ParsedEvent}
    (h : (conf.parseEvent kind rec).parsed = .event e) :
    (rec.recordType ≠ perfRecordSample ∧ ∃ c, e = .common c) ∨
      rec.recordType = perfRecordSample ∧
        ((kind = .uprobe ∧ ∃ context fields, e = .uprobe context fields) ∨
          kind = .syscall ∧ ∃ context fields, e = .syscall context fields ∧
            context.eventId = rec.eventId) := by
  unfold EventConf.parseEvent at h
  split at h
  · cases h
  · cases h
  · -- an event of `CommonEvent.ParseEvent` is not that of a sample
    rename_i c context hcontext
    refine Or.inl ⟨fun hsample => ?_, c, (Parsed.event.inj h).symm⟩
    unfold EventConf.contextParseEvent at hcontext
    rw [if_pos hsample] at hcontext
    split at hcontext
    · cases hcontext
    · split at hcontext
      · cases hcontext
      · split at hcontext
        · cases hcontext
        · cases hcontext
  · rename_i context hcontext
    obtain ⟨hnew, -⟩ := parseSample_eventId h
    obtain ⟨hsample, hid⟩ := (contextParseEvent_nil hcontext).resolve_right hnew
    refine Or.inr ⟨hsample, ?_⟩
    unfold EventConf.parseSample at h
    split at h
    · cases h
    · cases kind with
      | uprobe =>
          obtain ⟨fields, -, rfl⟩ := Parsed.ofRead_eq_event h
          exact Or.inl ⟨rfl, context.fields, fields, rfl⟩
      | syscall =>
          obtain ⟨fields, -, rfl⟩ := Parsed.ofRead_eq_event h
          exact Or.inr ⟨rfl, context.fields, fields, rfl, hid⟩

/-! ## The options of the two paths -/

section Options

variable {conf : ReplayConf} {rec : PerfRecord}

/-- The two paths read the same registers unless `--reg` alone asks for them. -/
theorem options_eq_or (h : ¬ conf.RegsUnread) :
    conf.unwindStack = true ∨ conf.liveOptions = conf.dumpOptions := by
  by_cases hname : conf.regName = []
  · right
    simp [ReplayConf.liveOptions, ReplayConf.dumpOptions, hname]
  · cases hshow : conf.showRegs with
    | true =>
        right
        unfold ReplayConf.liveOptions
        rw [hshow, Bool.or_true, ← hshow]
        rfl
    | false =>
        left
        by_contra hunwind
        exact h ⟨hname, by simpa using hunwind, hshow⟩

theorem readRegisters_live (h : ¬ conf.RegsUnread) :
    conf.liveOptions.readRegisters = conf.dumpOptions.readRegisters := by
  rcases options_eq_or h with hunwind | heq
  · have hlive : conf.liveOptions.unwindStack = true := hunwind
    have hdump : conf.dumpOptions.unwindStack = true := hunwind
    unfold EventConf.readRegisters
    rw [if_pos hlive, if_pos hdump]
  · rw [heq]

theorem readRegisters_unread (h : conf.RegsUnread) :
    conf.dumpOptions.readRegisters = pure [] := by
  have hunwind : ¬ conf.dumpOptions.unwindStack = true := Bool.eq_false_iff.mp h.2.1
  have hshow : ¬ conf.dumpOptions.showRegs = true := Bool.eq_false_iff.mp h.2.2
  unfold EventConf.readRegisters
  rw [if_neg hunwind, if_neg hshow]

/-- `ParseContextStack` reads the registers, and the stack behind them. -/
theorem sameReads_readStack (options : EventConf) :
    Reader.SameReads options.readStack options.readRegisters := by
  unfold EventConf.readStack EventConf.readRegisters
  split
  · refine Reader.sameReads_bind _ fun abi => Reader.sameReads_bind _ fun regs => ?_
    refine Reader.sameReads_bind _ fun stackSize => Reader.sameReads_bind _ fun _ => ?_
    exact Reader.sameReads_bind _ fun _ => Reader.sameReads_pure () regs
  · split
    · exact Reader.sameReads_bind _ fun abi => Reader.sameReads_map (readRegs abi) _
    · exact Reader.sameReads_pure () []

/-- What the live path has read the replay reads, too. -/
theorem readStack_dump {buf rest : List u8}
    (h : conf.liveOptions.readStack buf = (some (), rest)) :
    ∃ rest', conf.dumpOptions.readStack buf = (some (), rest') := by
  have hsome : (conf.dumpOptions.readRegisters buf).1 ≠ none := by
    by_cases hunread : conf.RegsUnread
    · rw [readRegisters_unread hunread]
      exact Option.some_ne_none []
    · rw [← readRegisters_live hunread, ne_eq,
        ← (sameReads_readStack conf.liveOptions).stops_iff, h]
      exact Option.some_ne_none ()
  cases hread : conf.dumpOptions.readStack buf with
  | mk unit? rest' =>
      cases unit? with
      | none =>
          have hnone : (conf.dumpOptions.readStack buf).1 = none := congrArg Prod.fst hread
          exact absurd (((sameReads_readStack conf.dumpOptions).stops_iff buf).mp hnone) hsome
      | some _ => exact ⟨rest', rfl⟩

/-- Fields in front of the registers are read alike. -/
theorem fields_dump {α : Type} {read : Reader α} {padding : Reader Unit} {buf : List u8} {a : α}
    (h : ((do let a ← read; padding; conf.liveOptions.readStack; return a : Reader α) buf).1 =
      some a) :
    ((do let a ← read; padding; conf.dumpOptions.readStack; return a : Reader α) buf).1 =
      some a := by
  obtain ⟨a', mid, hread, h⟩ := Reader.bind_eq_some (Prod.ext h rfl)
  obtain ⟨_, mid', hpadding, h⟩ := Reader.bind_eq_some h
  obtain ⟨_, rest, hstack, h⟩ := Reader.bind_eq_some h
  obtain rfl := Option.some.inj (Prod.mk.inj h).1
  obtain ⟨rest', hdump⟩ := readStack_dump hstack
  rw [Reader.bind_of_some hread, Reader.bind_of_some hpadding, Reader.bind_of_some hdump]
  rfl

theorem parseSample_dump {kind : EventKind} {context : ContextEvent} {e : ParsedEvent}
    (h : conf.liveOptions.parseSample kind rec context = .event e) :
    conf.dumpOptions.parseSample kind rec context = .event e := by
  unfold EventConf.parseSample at h ⊢
  cases hbuf : context.buf with
  | none =>
      rw [hbuf] at h
      cases h
  | some buf =>
      rw [hbuf] at h
      cases kind with
      | uprobe =>
          obtain ⟨fields, hread, rfl⟩ := Parsed.ofRead_eq_event h
          have hdump : (conf.dumpOptions.uprobeParseContext rec context.fields buf).1 =
              some fields := fields_dump hread
          dsimp only
          rw [hdump]
          rfl
      | syscall =>
          obtain ⟨fields, hread, rfl⟩ := Parsed.ofRead_eq_event h
          have hdump : (conf.dumpOptions.syscallParseContext rec context.fields buf).1 =
              some fields := fields_dump hread
          dsimp only
          rw [hdump]
          rfl

theorem parseEvent_dump {kind : EventKind} {e : ParsedEvent}
    (h : (conf.liveOptions.parseEvent kind rec).parsed = .event e) :
    (conf.dumpOptions.parseEvent kind rec).parsed = .event e := by
  have hcontext : conf.dumpOptions.contextParseEvent rec = conf.liveOptions.contextParseEvent rec :=
    rfl
  unfold EventConf.parseEvent at h ⊢
  rw [hcontext]
  split at h
  · cases h
  · cases h
  · exact h
  · exact parseSample_dump h

theorem brkParseContext_dump {buf : List u8} {fields : BrkFields}
    (h : (conf.brkParseContext conf.liveOptions buf).1 = some fields) :
    (conf.brkParseContext conf.dumpOptions buf).1 = some fields := by
  unfold ReplayConf.brkParseContext at h ⊢
  obtain ⟨pid, mid, hpid, h⟩ := Reader.bind_eq_some (Prod.ext h rfl)
  rw [Reader.bind_of_some hpid]
  by_cases hother : pid ≠ conf.getPid pid
  · rw [if_pos hother] at h ⊢
    rw [h]
  · rw [if_neg hother] at h ⊢
    obtain ⟨tid, mid', htid, h⟩ := Reader.bind_eq_some h
    obtain ⟨eventAddr, mid'', haddr, h⟩ := Reader.bind_eq_some h
    obtain ⟨_, rest, hstack, h⟩ := Reader.bind_eq_some h
    obtain ⟨rest', hdump⟩ := readStack_dump hstack
    rw [Reader.bind_of_some htid, Reader.bind_of_some haddr, Reader.bind_of_some hdump]
    exact (Prod.mk.inj h).1

/-- **The replay parses a record as the live path does,** where that does not panic. -/
theorem parseRecord_dump {event : BoundEvent}
    (hread : conf.parseRecord conf.liveOptions event rec ≠ .panic) :
    conf.parseRecord conf.dumpOptions event rec = conf.parseRecord conf.liveOptions event rec := by
  cases event with
  | common => rfl
  | brk =>
      have hbrk : conf.brkParseEvent conf.liveOptions rec ≠ .panic :=
        fun h => hread (Parsed.map_eq_panic.mpr h)
      have heq : conf.brkParseEvent conf.dumpOptions rec =
          conf.brkParseEvent conf.liveOptions rec := by
        unfold ReplayConf.brkParseEvent at hbrk ⊢
        cases hlive : (conf.brkParseContext conf.liveOptions rec.rawSample).1 with
        | none =>
            rw [hlive] at hbrk
            exact absurd rfl hbrk
        | some fields => rw [brkParseContext_dump hlive]
      exact congrArg (Parsed.map ReplayEvent.brk) heq
  | uprobe | syscall =>
      obtain ⟨e, he⟩ := parseEvent_event fun h => hread (Parsed.map_eq_panic.mpr h)
      exact congrArg (Parsed.map ReplayEvent.parsed) ((parseEvent_dump he).trans he.symm)

/-- The events have read the same registers. -/
theorem registers_live (h : ¬ conf.RegsUnread) (event : BoundEvent) :
    conf.dumpOptions.registers event rec = conf.liveOptions.registers event rec := by
  have hregs := readRegisters_live h
  cases event with
  | common => rfl
  | brk =>
      unfold EventConf.registers
      rw [hregs]
  | uprobe | syscall =>
      unfold EventConf.registers EventConf.sampleRegisters
      rw [hregs]
      rfl

/-- The replay has read none. -/
theorem registers_unread (h : conf.RegsUnread) (event : BoundEvent) :
    conf.dumpOptions.registers event rec = [] := by
  have hregs := readRegisters_unread h
  have hsample (kind : EventKind) : conf.dumpOptions.sampleRegisters kind rec = [] := by
    unfold EventConf.sampleRegisters
    rw [hregs]
    extract_lets read
    have hreturns : Reader.Returns read fun regs => regs = [] :=
      Reader.Returns.bind fun _ => Reader.Returns.bind fun _ => Reader.returns_pure rfl
    cases hread : read rec.rawSample with
    | mk regs? rest =>
        cases regs? with
        | none => rfl
        | some regs => exact hreturns _ _ _ hread
  cases event with
  | common => rfl
  | brk =>
      unfold EventConf.registers
      rw [hregs]
      rfl
  | uprobe => exact hsample .uprobe
  | syscall => exact hsample .syscall

/-- Without registers every name of `--reg` panics. -/
theorem getStackTracePanics_nil (h : conf.regName ≠ []) : conf.getStackTracePanics [] = true := by
  obtain ⟨name, rest, hnames⟩ := List.exists_cons_of_ne_nil (Text.splitOn_ne_nil ',' conf.regName)
  unfold ReplayConf.getStackTracePanics
  rw [hnames]
  simp [h, ReplayConf.getRegValue]

/-- With registers those panic that are not among them. -/
theorem getStackTracePanics_iff {regs : List u64} : conf.getStackTracePanics regs = true ↔
    conf.regName ≠ [] ∧
      ∃ name ∈ Text.splitOn ',' conf.regName, regs.length ≤ conf.regIndex name := by
  simp [ReplayConf.getStackTracePanics, ReplayConf.getRegValue]

theorem regIndex_lt (conf : ReplayConf) (name : Text) :
    conf.regIndex name < regArm64Max.toNat := by
  have harm : ∀ entry ∈ regsArmNameMap, entry.2.toNat < regArm64Max.toNat := by decide
  have harm64 : ∀ entry ∈ regsNameMap, entry.2.toNat < regArm64Max.toNat := by decide
  unfold ReplayConf.regIndex
  dsimp only
  split
  · rename_i entry hfind
    have hmem := List.mem_of_find?_eq_some hfind
    split at hmem
    · exact harm entry hmem
    · exact harm64 entry hmem
  · decide

/-- The registers that were read are as many as the abi says. -/
theorem length_readRegisters {options : EventConf} {buf : List u8} {regs : List u64}
    (hreads : options.unwindStack = true ∨ options.showRegs = true)
    (h : (options.readRegisters buf).1 = some regs) :
    LittleEndian.toWord 8 (buf.take 8) = perfSampleRegsAbi32 ∧ regs.length = regArmMax ∨
      LittleEndian.toWord 8 (buf.take 8) = perfSampleRegsAbi64 ∧
        regs.length = regArm64Max.toNat := by
  unfold EventConf.readRegisters at h
  split at h
  · obtain ⟨abi, mid, habi, h⟩ := Reader.bind_eq_some (Prod.ext h rfl)
    obtain ⟨rfl, rfl⟩ := Reader.word_eq_some habi
    obtain ⟨regs', mid', hregs, h⟩ := Reader.bind_eq_some h
    -- the stack behind the registers is read and left out
    have hreturns : regs = regs' := by
      refine Reader.Returns.bind (P := fun a => a = regs') (fun _ => ?_) _ _ _ h
      refine Reader.Returns.bind fun _ => ?_
      exact Reader.Returns.bind fun _ => Reader.returns_pure rfl
    rw [hreturns]
    exact length_readRegs hregs
  · rename_i hunwind
    rw [if_pos (hreads.resolve_left hunwind)] at h
    obtain ⟨abi, mid, habi, h⟩ := Reader.bind_eq_some (Prod.ext h rfl)
    obtain ⟨rfl, rfl⟩ := Reader.word_eq_some habi
    exact length_readRegs h

/-- A breakpoint has read its registers behind the pid, the tid and the address. -/
theorem brkParseContext_registers {options : EventConf} {fields : BrkFields}
    (h : (conf.brkParseContext options rec.rawSample).1 = some fields)
    (hpid : rec.pid = conf.getPid rec.pid) :
    ∃ regs, (options.readRegisters (rec.rawSample.drop 16)).1 = some regs := by
  unfold ReplayConf.brkParseContext at h
  obtain ⟨pid, mid, hword, h⟩ := Reader.bind_eq_some (Prod.ext h rfl)
  obtain ⟨rfl, rfl⟩ := Reader.word_eq_some hword
  have hsame : ¬ LittleEndian.toWord 4 (rec.rawSample.take 4) ≠ conf.getPid rec.pid :=
    not_not.mpr hpid
  rw [show LittleEndian.toWord 4 (rec.rawSample.take 4) = rec.pid from rfl] at h hsame
  rw [if_neg hsame] at h
  obtain ⟨tid, mid, hword, h⟩ := Reader.bind_eq_some h
  obtain ⟨-, rfl⟩ := Reader.word_eq_some hword
  obtain ⟨eventAddr, mid, hword, h⟩ := Reader.bind_eq_some h
  obtain ⟨-, rfl⟩ := Reader.word_eq_some hword
  obtain ⟨_, mid, hstack, h⟩ := Reader.bind_eq_some h
  rw [List.drop_drop, List.drop_drop] at hstack
  -- the registers are read where the stack is read as a whole
  apply Option.ne_none_iff_exists'.mp
  intro hnone
  have hstop := ((sameReads_readStack options).stops_iff _).mpr hnone
  rw [hstack] at hstop
  cases hstop

/-- The text of a breakpoint panics over a register that 32-bit processes do not have. -/
theorem brk_getStackTracePanics_iff {fields : BrkFields} (hunread : ¬ conf.RegsUnread)
    (h : (conf.brkParseContext conf.dumpOptions rec.rawSample).1 = some fields)
    (hpid : rec.pid = conf.getPid rec.pid) :
    conf.getStackTracePanics (conf.dumpOptions.registers .brk rec) = true ↔
      rec.brkAbi = 1 ∧ conf.NamesHighReg := by
  rw [getStackTracePanics_iff]
  by_cases hname : conf.regName = []
  · simp [ReplayConf.NamesHighReg, hname]
  · have hreads : conf.dumpOptions.unwindStack = true ∨ conf.dumpOptions.showRegs = true := by
      by_contra hneither
      rw [not_or, Bool.not_eq_true, Bool.not_eq_true] at hneither
      exact hunread ⟨hname, hneither⟩
    obtain ⟨regs, hregs⟩ := brkParseContext_registers h hpid
    have hall : conf.dumpOptions.registers .brk rec = regs := by
      unfold EventConf.registers
      rw [hregs]
      rfl
    rw [hall]
    -- every name has an index below 33, so that only the 32-bit abi with its 16 can miss one
    rcases length_readRegisters hreads hregs with ⟨habi, hlength⟩ | ⟨habi, hlength⟩
    · have habi : rec.brkAbi = 1 := habi
      rw [hlength]
      exact ⟨fun hhigh => ⟨habi, hhigh⟩, fun hhigh => hhigh.2⟩
    · have habi : rec.brkAbi = 2 := habi
      rw [hlength, habi]
      constructor
      · rintro ⟨-, name, -, hle⟩
        exact absurd (regIndex_lt conf name) (Nat.not_lt.mpr hle)
      · exact fun hlow => absurd hlow.1 (by decide)

end Options

/-! ## Records that are passed over -/

section Paths

variable {conf : ReplayConf} {event : BoundEvent} {rec : PerfRecord}
  {hbound : rec.rawSample.length < 2 ^ 32 - 9}

/-- A record that `ParseEvent` drops. -/
theorem passedOver_of_dropped (hread : conf.parseRecord conf.liveOptions event rec ≠ .panic)
    (hdropped : ¬ ∃ e, conf.parseRecord conf.liveOptions event rec = .event e) :
    conf.PassedOver ⟨event, rec, hbound⟩ := by
  cases event with
  | common =>
      have hcommon : conf.liveOptions.commonParseEvent rec ≠ .panic :=
        fun h => hread (Parsed.map_eq_panic.mpr h)
      have hevent : ¬ (rec.recordType ∈ commonTypes ∧ ¬ conf.OwnMmap2 rec) :=
        fun h => hdropped (Parsed.exists_map_eq_event.mpr
          ((commonParseEvent_event_iff hcommon).mpr h))
      show rec.recordType ∉ commonTypes ∨ conf.OwnMmap2 rec
      tauto
  | brk =>
      have hbrk : conf.brkParseEvent conf.liveOptions rec ≠ .panic :=
        fun h => hread (Parsed.map_eq_panic.mpr h)
      have hevent : ¬ (rec.pid ≠ conf.selfPid ∧ rec.pid = conf.getPid rec.pid) :=
        fun h => hdropped (Parsed.exists_map_eq_event.mpr
          ((brkParseEvent_event_iff hbrk).mpr h))
      show rec.pid = conf.selfPid ∨ rec.pid ≠ conf.getPid rec.pid ∨ _
      tauto
  | uprobe | syscall =>
      have hsample := parseEvent_event fun h => hread (Parsed.map_eq_panic.mpr h)
      exact absurd (Parsed.exists_map_eq_event.mpr hsample) hdropped

/-- A text with a stack trace panics in the replay when the registers are not read, and else
when it does on the live path. -/
theorem dump_panics_iff (hprinted : rec.recordType ∉ commonTypes →
      conf.getStackTracePanics (conf.liveOptions.registers event rec) = false)
    (hsample : rec.recordType = perfRecordSample) :
    conf.getStackTracePanics (conf.dumpOptions.registers event rec) = true ↔
      conf.RegsUnread := by
  by_cases hunread : conf.RegsUnread
  · rw [registers_unread hunread, getStackTracePanics_nil hunread.1]
    exact iff_of_true rfl hunread
  · rw [registers_live hunread, hprinted (by rw [hsample]; decide)]
    exact iff_of_false Bool.false_ne_true hunread

/-- The text of a breakpoint is also taken by the replay when the live path does not print it. -/
theorem brk_dump_panics_iff {fields : BrkFields} (hprinted : rec.recordType ∉ commonTypes →
      conf.getStackTracePanics (conf.liveOptions.registers .brk rec) = false)
    (hdump : conf.brkParseEvent conf.dumpOptions rec = .event fields)
    (hpid : rec.pid = conf.getPid rec.pid) :
    conf.getStackTracePanics (conf.dumpOptions.registers .brk rec) = true ↔
      conf.RegsUnread ∨
        (rec.recordType ∈ commonTypes ∧ rec.brkAbi = 1 ∧ conf.NamesHighReg) := by
  by_cases hunread : conf.RegsUnread
  · rw [registers_unread hunread, getStackTracePanics_nil hunread.1]
    exact iff_of_true rfl (Or.inl hunread)
  · rw [or_iff_right hunread]
    by_cases hcommon : rec.recordType ∈ commonTypes
    · obtain ⟨fields', hcontext⟩ : ∃ fields',
          (conf.brkParseContext conf.dumpOptions rec.rawSample).1 = some fields' := by
        unfold ReplayConf.brkParseEvent at hdump
        split at hdump
        · cases hdump
        · exact ⟨_, ‹_›⟩
      rw [brk_getStackTracePanics_iff hunread hcontext hpid]
      exact (and_iff_right hcommon).symm
    · rw [registers_live hunread, hprinted hcommon]
      exact iff_of_false Bool.false_ne_true fun hboth => hcommon hboth.1

/-- A record with an event is passed over when the text that the replay takes panics. -/
theorem passedOver_iff_of_event {e : ReplayEvent}
    (h : conf.parseRecord conf.liveOptions event rec = .event e)
    (hprinted : ¬ (rec.recordType ∉ commonTypes ∧
      conf.stringPanics (conf.liveOptions.registers event rec) e = true)) :
    conf.PassedOver ⟨event, rec, hbound⟩ ↔
      conf.stringPanics (conf.dumpOptions.registers event rec) e = true := by
  have hread : conf.parseRecord conf.liveOptions event rec ≠ .panic := by rw [h]; simp
  have hlive (hother : rec.recordType ∉ commonTypes) :
      conf.stringPanics (conf.liveOptions.registers event rec) e = false := by
    by_contra hpanics
    exact hprinted ⟨hother, by simpa using hpanics⟩
  cases event with
  | common =>
      obtain ⟨c, hc, rfl⟩ := Parsed.map_eq_event.mp h
      have hevent := (commonParseEvent_event_iff (by rw [hc]; simp)).mp ⟨c, hc⟩
      show rec.recordType ∉ commonTypes ∨ conf.OwnMmap2 rec ↔ false = true
      exact iff_of_false (by tauto) Bool.false_ne_true
  | brk =>
      obtain ⟨fields, hfields, rfl⟩ := Parsed.map_eq_event.mp h
      have hevent := (brkParseEvent_event_iff (by rw [hfields]; simp)).mp ⟨fields, hfields⟩
      have hdump : conf.brkParseEvent conf.dumpOptions rec = .event fields := by
        have hsame := (parseRecord_dump hread).trans h
        obtain ⟨fields', hdump, heq⟩ := Parsed.map_eq_event.mp hsame
        obtain rfl := ReplayEvent.brk.inj heq
        exact hdump
      show rec.pid = conf.selfPid ∨ rec.pid ≠ conf.getPid rec.pid ∨ conf.RegsUnread ∨
        (rec.recordType ∈ commonTypes ∧ rec.brkAbi = 1 ∧ conf.NamesHighReg) ↔
          conf.getStackTracePanics (conf.dumpOptions.registers .brk rec) = true
      rw [or_iff_right hevent.1, or_iff_right (not_not.mpr hevent.2)]
      exact (brk_dump_panics_iff hlive hdump hevent.2).symm
  | uprobe =>
      obtain ⟨p, hp, rfl⟩ := Parsed.map_eq_event.mp h
      show rec.recordType = perfRecordSample ∧ conf.RegsUnread ↔ _
      rcases parseEvent_cases hp with ⟨hother, c, rfl⟩ | ⟨hsample, hkind⟩
      · exact iff_of_false (fun hboth => hother hboth.1) Bool.false_ne_true
      · rcases hkind with ⟨-, context, fields, rfl⟩ | ⟨hkind, -⟩
        · rw [and_iff_right hsample]
          exact (dump_panics_iff hlive hsample).symm
        · cases hkind
  | syscall =>
      obtain ⟨p, hp, rfl⟩ := Parsed.map_eq_event.mp h
      show rec.recordType = perfRecordSample ∧ rec.eventId = syscallEnter ∧ conf.RegsUnread ↔ _
      rcases parseEvent_cases hp with ⟨hother, c, rfl⟩ | ⟨hsample, hkind⟩
      · exact iff_of_false (fun hboth => hother hboth.1) Bool.false_ne_true
      · rcases hkind with ⟨hkind, -⟩ | ⟨-, context, fields, rfl, hid⟩
        · cases hkind
        · rw [and_iff_right hsample, ← hid]
          show _ ↔ (context.eventId == syscallEnter && conf.getStackTracePanics _) = true
          rw [Bool.and_eq_true, beq_iff_eq]
          refine and_congr_right fun henter => (dump_panics_iff (fun hother => ?_) hsample).symm
          have hnone : (context.eventId == syscallEnter && conf.getStackTracePanics _) = false :=
            hlive hother
          rwa [henter, beq_self_eq_true, Bool.true_and] at hnone

/-- The index in the dump leads to the event that the record is bound to. -/
theorem replayRecord_dumpRecord (conf : ReplayConf) (r : BoundRecord) :
    conf.replayRecord r.dumpRecord.toDumpEntry = conf.printRecord r.event r.record := by
  unfold ReplayConf.replayRecord BoundRecord.dumpRecord
  rw [BoundEvent.ofIndex_index]

/-- A record that the live path gets through is treated alike when it is not passed over, and
else the replay panics over it. -/
theorem replayRecord_eq_iff {r : BoundRecord} (hlive : conf.dispatch r.event r.record ≠ .panic) :
    (conf.replayRecord r.dumpRecord.toDumpEntry = conf.dispatch r.event r.record ↔
        ¬ conf.PassedOver r) ∧
      (conf.replayRecord r.dumpRecord.toDumpEntry ≠ conf.dispatch r.event r.record →
        conf.replayRecord r.dumpRecord.toDumpEntry = .panic) := by
  rw [replayRecord_dumpRecord]
  obtain ⟨event, rec, hbound⟩ := r
  unfold ReplayConf.dispatch at hlive
  unfold ReplayConf.printRecord ReplayConf.dispatch
  dsimp only at hlive ⊢
  cases hparse : conf.parseRecord conf.liveOptions event rec with
  | panic =>
      rw [hparse] at hlive
      exact absurd rfl hlive
  | error | nil =>
      -- the replay panics over what the live path drops
      have hpassed : conf.PassedOver ⟨event, rec, hbound⟩ :=
        passedOver_of_dropped (by rw [hparse]; simp) (by rw [hparse]; simp)
      rw [parseRecord_dump (by rw [hparse]; simp), hparse]
      simp [hpassed]
  | event e =>
      rw [hparse] at hlive
      dsimp only at hlive
      have hprint : ¬ (rec.recordType ∉ commonTypes ∧
          conf.stringPanics (conf.liveOptions.registers event rec) e = true) :=
        fun h => hlive (if_pos h)
      rw [parseRecord_dump (by rw [hparse]; simp), hparse]
      dsimp only
      rw [passedOver_iff_of_event hparse hprint, if_neg hprint]
      by_cases hpanics : conf.stringPanics (conf.dumpOptions.registers event rec) e = true
      · simp [hpanics]
      · simp [hpanics]

end Paths

/-! ## Whole dumps -/

section Runs

variable {conf : ReplayConf}

theorem survived_cons_of_ne {r : BoundRecord} (h : conf.dispatch r.event r.record ≠ .panic)
    (rs : List BoundRecord) : conf.survived (r :: rs) = r :: conf.survived rs := by
  simp [ReplayConf.survived, h]

/-- The replay of a list of records gets to what the live path gets to, when it treats alike what
that gets through. -/
theorem replay_follows (conf : ReplayConf) (rs : List BoundRecord)
    (htreats : ∀ r ∈ conf.survived rs,
      conf.replayRecord r.dumpRecord.toDumpEntry = conf.dispatch r.event r.record) :
    (conf.dispatchAll rs).1 <+:
        (replay conf.handle () (rs.map BoundRecord.dumpRecord) .eof).1 ∧
      ((conf.dispatchAll rs).2 = .eof →
        replay conf.handle () (rs.map BoundRecord.dumpRecord) .eof = conf.dispatchAll rs) := by
  induction rs with
  | nil => exact ⟨List.prefix_refl _, fun _ => rfl⟩
  | cons r rs ih =>
      rw [List.map_cons, replay, ReplayConf.dispatchAll, ReplayConf.handle]
      by_cases hlive : conf.dispatch r.event r.record = .panic
      · -- the live path ends here, and nothing is asked of the replay behind this record
        rw [if_pos hlive]
        refine ⟨?_, fun heof => by cases heof⟩
        by_cases hreplay : conf.replayRecord r.dumpRecord.toDumpEntry = .panic
        · rw [if_pos hreplay]
        · rw [if_neg hreplay]
          exact List.cons_prefix_cons.mpr ⟨rfl, List.nil_prefix⟩
      · rw [survived_cons_of_ne hlive, List.forall_mem_cons] at htreats
        have hgoes : conf.replayRecord r.dumpRecord.toDumpEntry ≠ .panic :=
          fun h => hlive (htreats.1.symm.trans h)
        obtain ⟨hreaches, hends⟩ := ih htreats.2
        rw [if_neg hlive, if_neg hgoes]
        refine ⟨List.cons_prefix_cons.mpr ⟨rfl, hreaches⟩, fun heof => ?_⟩
        have hrest := hends heof
        dsimp only
        rw [hrest]

/-- **Replay.** The replay of a dump follows the live path exactly when the live path passes
over none of the records that it gets through. -/
theorem replay_followsLive_iff (conf : ReplayConf) (rs : List BoundRecord) :
    conf.FollowsLive rs ↔ ∀ r ∈ conf.survived rs, ¬ conf.PassedOver r := by
  have hlive : ∀ r ∈ conf.survived rs, conf.dispatch r.event r.record ≠ .panic := by
    intro r hr
    simpa using List.all_eq_true.mp List.all_takeWhile r hr
  have htreats : (∀ r ∈ conf.survived rs,
      conf.replayRecord r.dumpRecord.toDumpEntry = conf.dispatch r.event r.record) ↔
        ∀ r ∈ conf.survived rs, ¬ conf.PassedOver r :=
    forall₂_congr fun r hr => (replayRecord_eq_iff (hlive r hr)).1
  rw [← htreats]
  constructor
  · exact fun h => h.treats
  · intro h
    obtain ⟨hreaches, hends⟩ := replay_follows conf rs h
    rw [← parseDump_frames] at hreaches hends
    exact ⟨hreaches, hends, h⟩

/-- Under `--reg x0` the live path reads the registers of a breakpoint, and the replay panics over
its text. -/
example :
    let conf : ReplayConf := ⟨pidOneConf, false, "x0".toList, [], -1⟩
    let sample : PerfRecord := ⟨perfRecordSample,
      LittleEndian.encode 16 2 ++ LittleEndian.encode 8 2 ++ List.replicate 264 0⟩
    conf.dispatch .brk sample = .event (.brk ⟨2, 0, 0⟩) ∧
      conf.printRecord .brk sample = .panic := by
  decide +kernel

/-- A mapping of the tracer, and a command of process 2 behind it. -/
def mmap2ThenComm : List BoundRecord :=
  [⟨.common, pidOneMmap2, by decide⟩,
    ⟨.common, ⟨perfRecordComm, LittleEndian.encode 8 2⟩, by decide⟩]

/-- The live path drops the mapping and hands on the command; the replay panics over the
mapping. -/
theorem mmap2_stops_replay :
    let conf : ReplayConf := ⟨pidOneConf, false, [], [], -1⟩
    (conf.dispatch .common pidOneMmap2 = .dropped ∧
      (conf.dispatchAll mmap2ThenComm).2 = .eof ∧
      (conf.dispatchAll mmap2ThenComm).1.length = 2) ∧
    parseDump conf.handle () (frames (mmap2ThenComm.map BoundRecord.dumpRecord)) =
      ([⟨1, pidOneMmap2⟩], .panic) ∧
    ¬ conf.FollowsLive mmap2ThenComm := by
  intro conf
  have hlive : conf.dispatchAll mmap2ThenComm =
      (mmap2ThenComm.map fun r => r.dumpRecord.toDumpEntry, .eof) := by decide +kernel
  have hreplay : parseDump conf.handle () (frames (mmap2ThenComm.map BoundRecord.dumpRecord)) =
      ([⟨1, pidOneMmap2⟩], .panic) := by
    rw [parseDump_frames]
    decide +kernel
  refine ⟨⟨by decide +kernel, by rw [hlive], by rw [hlive]; rfl⟩, hreplay, fun hfollows => ?_⟩
  have hrun := hfollows.ends (by rw [hlive])
  rw [hlive, hreplay] at hrun
  exact absurd (congrArg Prod.snd hrun) (by decide)

end Runs

end Stackplz
