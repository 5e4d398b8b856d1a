import Stackplz.Probe.Submit
import Stackplz.User.ParseEvent
import Stackplz.User.SavedArgs
import Stackplz.User.UnwindTail

/-!
# From the submitted bytes to the event

A submitted event reaches the decoder as the raw part of a perf sample: its size, its bytes, the
padding of the kernel, and the tail with registers and stack. `ParseEvent` takes the parts off one
after the other. What its `ParseContext` makes of the arguments alone is therefore what it makes
of the whole sample (`parseEvent_syscall`, `parseEvent_uprobe`), and the arguments are read back
as the probe has saved them (`consumes_args`).
-/

set_option autoImplicit false

namespace Stackplz

/-! ## Arguments -/

/-- The decoder reads the data of an argument if the probe has saved it, and can read it back. -/
structure PointArg.ReadsBack (env : ProbeEnv) (program : PointType) (a : PointArg) (w : u64) :
    Prop where
  agrees : a.readMore = a.parseMore program ∨ a.ty.hasData = false
  readable : a.parseMore program = true → a.ty.Readable env w

/-- The argument as the decoder shows it: its word, and the payloads of its data. -/
def PointArg.shownAt (env : ProbeEnv) (program : PointType) (a : PointArg) (w : u64) : ReadArg :=
  (w, if a.parseMore program then a.ty.shownAt env w else [])

section Args

variable {env : ProbeEnv} {program : PointType}

/-- The decoder's side of one argument. -/
def PointArg.read (a : PointArg) (program : PointType) : Reader ReadArg := do
  let ptr ← readReg
  return (ptr, ← a.parse program)

/-- The data of an argument is read back. -/
theorem consumes_argData {a : PointArg} {w : u64} (h : a.ReadsBack env program w)
    {bytes : List u8} (hbytes : Encodes (if a.readMore then a.ty.dataAt env w else []) bytes) :
    Reader.Consumes (a.parse program) bytes (a.shownAt env program w).2 := by
  have hdata : Encodes (if a.parseMore program then a.ty.dataAt env w else []) bytes := by
    rcases h.agrees with hsame | hnone
    · rwa [hsame] at hbytes
    · rw [dataAt_of_hasData hnone, ite_self] at hbytes ⊢
      exact hbytes
  unfold PointArg.parse PointArg.shownAt
  cases hmore : a.parseMore program with
  | true =>
      rw [hmore, if_pos rfl] at hdata
      exact consumes_dataAt a.ty (h.readable hmore) hdata
  | false =>
      rw [hmore, if_neg Bool.false_ne_true] at hdata
      rw [hdata.nil_inv]
      exact fun rest => by
        cases a.ty <;> rfl

theorem consumes_arg {a : PointArg} {w : u64} (h : a.ReadsBack env program w) {bytes : List u8}
    (hbytes : Encodes (a.recordsAt env w) bytes) :
    Reader.Consumes (a.read program) bytes (a.shownAt env program w) := by
  obtain ⟨index, rest, rfl, hrest⟩ := hbytes.cons_inv
  have hdata := (consumes_argData h hrest).bind_pure fun data => ((w, data) : ReadArg)
  exact (consumes_readReg index w).bind hdata

/-- The arguments as the decoder shows them. -/
def shownArgs (env : ProbeEnv) (program : PointType) (args : List PointArg) (words : List u64) :
    List ReadArg :=
  args.zipWith (fun a w => a.shownAt env program w) words

/-- **What the probe has saved for a list of arguments is read back**, argument by argument. -/
theorem consumes_args {args : List PointArg} {words : List u64}
    (h : List.Forall₂ (fun a w => a.ReadsBack env program w) args words) :
    ∀ {bytes : List u8}, Encodes (recordsOf env args words) bytes →
      Reader.Consumes (readSyscallArgs program args) bytes (shownArgs env program args words) := by
  induction h with
  | nil =>
      intro bytes hbytes
      rw [hbytes.nil_inv]
      exact Reader.consumes_pure []
  | @cons a w args words ha hargs ih =>
      intro bytes hbytes
      obtain ⟨front, back, rfl, hfront, hback⟩ :=
        Encodes.append_inv (show Encodes (a.recordsAt env w ++ recordsOf env args words) bytes
          from hbytes)
      have hlater := (ih hback).bind_pure (a.shownAt env program w :: ·)
      exact (consumes_arg ha hfront).bind hlater

/-- The loop over the arguments of a uprobe reads them like those of a system call, as long as
there are bytes for them. -/
theorem consumes_pointArgs {args : List PointArg} {words : List u64}
    (h : List.Forall₂ (fun a w => a.ReadsBack env program w) args words) :
    ∀ {bytes : List u8}, Encodes (recordsOf env args words) bytes →
      Reader.Consumes (readPointArgs program args) bytes (shownArgs env program args words) := by
  induction h with
  | nil =>
      intro bytes hbytes
      rw [hbytes.nil_inv]
      exact Reader.consumes_pure []
  | @cons a w args words ha hargs ih =>
      intro bytes hbytes rest
      obtain ⟨front, back, rfl, hfront, hback⟩ :=
        Encodes.append_inv (show Encodes (a.recordsAt env w ++ recordsOf env args words) bytes
          from hbytes)
      obtain ⟨index, data, rfl, hdata⟩ := hfront.cons_inv
      have hlater := (ih hback).bind_pure (a.shownAt env program w :: ·)
      have hall := (consumes_argData ha hdata).bind (f := fun data => do
        let rest ← readPointArgs program args
        return ((w, data) : ReadArg) :: rest) hlater
      rw [List.append_assoc, List.append_assoc]
      refine ((consumes_readReg index w).bindOr [] _).trans ?_
      rw [← List.append_assoc]
      exact hall rest

end Args

/-! ## The sample -/

/-- The raw part of a sample as the kernel writes it: the size of the data with its padding, both
of them, and what the sample has besides. -/
def rawSample (data padding tail : List u8) : List u8 :=
  LittleEndian.ofWord 4 (BitVec.ofNat 32 (data.length + padding.length)) ++ data ++ padding ++ tail

/-- The tails that the options ask the kernel for. A stack is there when some of it was dumped. -/
inductive EventConf.Tail (conf : EventConf) : List u8 → Prop
  | none (hunwind : conf.unwindStack = false) (hregs : conf.showRegs = false) : conf.Tail []
  | regs {is32Bit : Bool} (regs : UserRegs (regMask is32Bit)) (hunwind : conf.unwindStack = false)
      (hregs : conf.showRegs = true) (habi : AbiFits is32Bit regs.abi) : conf.Tail regs.bytes
  | stack {is32Bit : Bool} (regs : UserRegs (regMask is32Bit)) (stack : UserStack)
      (hunwind : conf.unwindStack = true) (habi : AbiFits is32Bit regs.abi)
      (hdata : stack.data ≠ []) : conf.Tail (regs.bytes ++ stack.bytes)

/-- The fields of a submitted context. -/
def EventHeader.fields (h : EventHeader) (sampleSize : u32) : ContextFields where
  sampleSize := sampleSize
  ts := h.ts
  eventId := h.eventid
  hostTid := h.hostTid
  hostPid := h.hostPid
  tid := h.tid
  pid := h.pid
  uid := h.uid
  comm := h.comm.toList
  argnum := h.argnum

section Framing

variable {conf : EventConf} {padding tail : List u8}

theorem consumes_context (h : EventHeader) (sampleSize : u32) :
    Reader.Consumes readContext (LittleEndian.ofWord 4 sampleSize ++ h.bytes)
      (h.fields sampleSize) := by
  have hcomm : Reader.Consumes (Reader.take 16) h.comm.toList h.comm.toList :=
    Reader.consumes_take_of_length (Vector.length_toList)
  have hpadding : Reader.Consumes (Reader.take 7) (List.replicate 7 0) (List.replicate 7 0) :=
    Reader.consumes_take_of_length List.length_replicate
  have hlast : Reader.Consumes (do
      let _ ← Reader.take 7
      return h.fields sampleSize) (List.replicate 7 0) (h.fields sampleSize) :=
    hpadding.bind_pure fun _ => h.fields sampleSize
  unfold EventHeader.bytes
  simp only [List.append_assoc]
  refine (Reader.consumes_word 4 sampleSize).bind ?_
  refine (Reader.consumes_word 8 h.ts).bind ?_
  refine (Reader.consumes_word 4 h.eventid).bind ?_
  refine (Reader.consumes_word 4 h.hostTid).bind ?_
  refine (Reader.consumes_word 4 h.hostPid).bind ?_
  refine (Reader.consumes_word 4 h.tid).bind ?_
  refine (Reader.consumes_word 4 h.pid).bind ?_
  refine (Reader.consumes_word 4 h.uid).bind ?_
  exact hcomm.bind ((Reader.consumes_word 1 h.argnum).bind hlast)

/-- The padding is what the size has beyond the bytes that were consumed. -/
theorem readPadding_eq {data : List u8} (hpadding : padding.length < 2 ^ 32) :
    (PerfRecord.mk perfRecordSample (rawSample data padding tail)).readPadding
      (BitVec.ofNat 32 (data.length + padding.length)) (padding ++ tail) = (some (), tail) := by
  have hconsumed : (rawSample data padding tail).length - (padding ++ tail).length =
      4 + data.length := by
    unfold rawSample
    simp only [List.length_append, LittleEndian.length_ofWord]
    omega
  have hsize : BitVec.ofNat 32 (data.length + padding.length) + 4 -
      BitVec.ofNat 32 (4 + data.length) = BitVec.ofNat 32 padding.length := by
    rw [BitVec.ofNat_add, BitVec.ofNat_add]
    have hfour : BitVec.ofNat 32 4 = (4 : u32) := rfl
    rw [hfour]
    generalize BitVec.ofNat 32 data.length = d
    generalize BitVec.ofNat 32 padding.length = p
    bv_omega
  have hlen : (BitVec.ofNat 32 padding.length).toNat = padding.length := by
    rw [BitVec.toNat_ofNat, Nat.mod_eq_of_lt hpadding]
  unfold PerfRecord.readPadding
  dsimp only
  rw [hconsumed, hsize, hlen]
  exact (Reader.consumes_take padding).bind_append (fun _ => pure ()) tail

/-- A tail that was asked for is taken off the buffer. -/
theorem consumes_readStack (h : conf.Tail tail) : Reader.Consumes conf.readStack tail () := by
  unfold EventConf.readStack
  cases h with
  | none hunwind hregs =>
      rw [hunwind, hregs]
      exact Reader.consumes_pure ()
  | regs regs hunwind hregs habi =>
      rw [hunwind, hregs]
      exact (Reader.consumes_word 8 regs.abi.value).bind
        ((consumes_readRegs habi).bind_pure fun _ => ())
  | stack regs stack hunwind habi hdata =>
      have hlt := stack.length_lt
      have hsize : stack.size.toNat = stack.data.length := by
        rw [UserStack.size, BitVec.toNat_ofNat]
        omega
      have htake : Reader.Consumes (Reader.take stack.size.toNat) stack.data stack.data :=
        Reader.consumes_take_of_length hsize.symm
      have hdyn := (Reader.consumes_word 8 stack.dynSize).bind_pure fun _ => ()
      have hstack := (Reader.consumes_word 8 stack.size).bind (f := fun stackSize => do
        let _ ← Reader.take stackSize.toNat
        let _ ← Reader.word 8) (htake.bind hdyn)
      rw [hunwind]
      unfold UserRegs.bytes UserStack.bytes
      rw [if_neg hdata, List.append_assoc]
      refine (Reader.consumes_word 8 regs.abi.value).bind ((consumes_readRegs habi).bind ?_)
      rwa [List.append_assoc]

/-- The context of a submitted event is read, and `ParseContext` goes on behind it. -/
theorem contextParseEvent_sample (hbrk : conf.brkKernel = false) (c : ContextSource) {id : u32}
    (hid : id ∈ [syscallEnter, syscallExit, uprobeEnter, uprobeExit]) {event : EventData}
    (h : event.Within) (padding tail : List u8) :
    conf.contextParseEvent
        ⟨perfRecordSample, rawSample (c.eventsPerfSubmit id event) padding tail⟩ =
      (.nil, ⟨(c.initContext id event).fields
        (BitVec.ofNat 32 ((c.eventsPerfSubmit id event).length + padding.length)),
          some (event.args ++ (padding ++ tail))⟩) := by
  have hread : readContext (rawSample (c.eventsPerfSubmit id event) padding tail) =
      (some ((c.initContext id event).fields
        (BitVec.ofNat 32 ((c.eventsPerfSubmit id event).length + padding.length))),
          event.args ++ (padding ++ tail)) := by
    unfold rawSample
    rw [eventsPerfSubmit_eq c id h]
    simp only [List.append_assoc]
    rw [← List.append_assoc]
    exact consumes_context (c.initContext id event) _ _
  have heventId : ((c.initContext id event).fields
      (BitVec.ofNat 32 ((c.eventsPerfSubmit id event).length + padding.length))).eventId ∈
        [syscallEnter, syscallExit, uprobeEnter, uprobeExit] := hid
  unfold EventConf.contextParseEvent
  rw [if_pos rfl, hbrk, if_neg Bool.false_ne_true, hread]
  exact if_pos heventId

/-- Behind the arguments come the padding and the tail. -/
theorem consumes_sampleEnd {α : Type} (c : ContextSource) (id : u32) {event : EventData}
    (htail : conf.Tail tail) (hpadding : padding.length < 2 ^ 32) {r : Reader α} {a : α}
    (hargs : Reader.Consumes r event.args a) :
    (do
      let fields ← r
      PerfRecord.readPadding
        ⟨perfRecordSample, rawSample (c.eventsPerfSubmit id event) padding tail⟩
        (BitVec.ofNat 32 ((c.eventsPerfSubmit id event).length + padding.length))
      conf.readStack
      return fields : Reader α) (event.args ++ (padding ++ tail)) = (some a, []) := by
  rw [hargs.bind_append, Reader.bind_of_some (readPadding_eq hpadding),
    Reader.bind_of_some (consumes_readStack htail).run]
  rfl

/-- **A sample of a system call** becomes the event of its context and its arguments. -/
theorem parseEvent_syscall (hbrk : conf.brkKernel = false) (c : ContextSource) {id : u32}
    (hid : id = syscallEnter ∨ id = syscallExit) {event : EventData} (h : event.Within)
    {fields : SyscallFields}
    (hargs : Reader.Consumes (readSyscall id conf.syscallPoints) event.args fields)
    (hpadding : padding.length < 2 ^ 32) (htail : conf.Tail tail) :
    conf.parseEvent .syscall
        ⟨perfRecordSample, rawSample (c.eventsPerfSubmit id event) padding tail⟩ =
      ⟨true, .event (.syscall ((c.initContext id event).fields
        (BitVec.ofNat 32 ((c.eventsPerfSubmit id event).length + padding.length))) fields)⟩ := by
  have hids : id ∈ [syscallEnter, syscallExit, uprobeEnter, uprobeExit] := by
    rcases hid with rfl | rfl <;> decide
  have hparse := consumes_sampleEnd c id htail hpadding hargs
  unfold EventConf.parseEvent
  rw [contextParseEvent_sample hbrk c hids h]
  unfold EventConf.parseSample EventConf.syscallParseContext
  exact congrArg (fun r => Handling.mk true (.ofRead (.syscall _) r)) (congrArg Prod.fst hparse)

/-- **A sample of a uprobe.** -/
theorem parseEvent_uprobe (hbrk : conf.brkKernel = false) (c : ContextSource) {id : u32}
    (hid : id = uprobeEnter ∨ id = uprobeExit) {event : EventData} (h : event.Within)
    {fields : UprobeFields}
    (hargs : Reader.Consumes (parseContext id conf.points) event.args fields)
    (hpadding : padding.length < 2 ^ 32) (htail : conf.Tail tail) :
    conf.parseEvent .uprobe
        ⟨perfRecordSample, rawSample (c.eventsPerfSubmit id event) padding tail⟩ =
      ⟨true, .event (.uprobe ((c.initContext id event).fields
        (BitVec.ofNat 32 ((c.eventsPerfSubmit id event).length + padding.length))) fields)⟩ := by
  have hids : id ∈ [syscallEnter, syscallExit, uprobeEnter, uprobeExit] := by
    rcases hid with rfl | rfl <;> decide
  have hparse := consumes_sampleEnd c id htail hpadding hargs
  unfold EventConf.parseEvent
  rw [contextParseEvent_sample hbrk c hids h]
  unfold EventConf.parseSample EventConf.uprobeParseContext
  exact congrArg (fun r => Handling.mk true (.ofRead (.uprobe _) r)) (congrArg Prod.fst hparse)

end Framing

end Stackplz
