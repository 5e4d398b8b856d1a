import Stackplz.User.Backtrace

/-!
# The tail of a sample

Behind the raw sample the kernel writes the registers of the requested mask, if it has any, and
a part of the stack with its dynamic size, if it could dump one. `ParseContextStack` reads both,
counting registers by the abi and taking the dynamic size for granted.
-/

set_option autoImplicit false

namespace Stackplz

/-! ## What the kernel writes -/

/-- `PERF_SAMPLE_REGS_ABI_NONE`, `PERF_SAMPLE_REGS_ABI_32` and `PERF_SAMPLE_REGS_ABI_64`. -/
inductive SampleAbi where
  | none | abi32 | abi64
deriving DecidableEq

def SampleAbi.value : SampleAbi → u64
  | .none => 0
  | .abi32 => perfSampleRegsAbi32
  | .abi64 => perfSampleRegsAbi64

theorem SampleAbi.value_injective : Function.Injective SampleAbi.value := by
  intro abi abi' h
  cases abi <;> cases abi' <;> first | rfl | exact absurd h (by decide)

/-- `RegMask` of `getExtraOptions`. -/
def regMask (is32Bit : Bool) : u64 := if is32Bit then (1 <<< 16) - 1 else (1 <<< 33) - 1

/-- The number of bits of a mask. -/
def maskBits (mask : u64) : Nat := (List.range 64).countP fun i => mask.getLsbD i

/-- The registers of a sample: one for each bit of the mask, or none at all. -/
structure UserRegs (mask : u64) where
  abi : SampleAbi
  regs : List u64
  length_eq : regs.length = if abi = .none then 0 else maskBits mask

def UserRegs.bytes {mask : u64} (r : UserRegs mask) : List u8 :=
  LittleEndian.ofWord 8 r.abi.value ++ r.regs.flatMap (LittleEndian.ofWord 8)

/-- The stack of a sample; a record is a slice, whose length is an `int`. -/
structure UserStack where
  data : List u8
  dynSize : u64
  length_lt : data.length < 2 ^ 63

def UserStack.size (s : UserStack) : u64 := BitVec.ofNat 64 s.data.length

def UserStack.bytes (s : UserStack) : List u8 :=
  LittleEndian.ofWord 8 s.size ++ s.data ++
    if s.data = [] then [] else LittleEndian.ofWord 8 s.dynSize

/-! ## What is read of it -/

structure RegsBuf where
  abi : u64
  regs : List u64
deriving DecidableEq

/-- `RegsBuf.ParseContext` -/
def RegsBuf.parseContext : Reader RegsBuf := do
  let abi ← Reader.word 8
  let regs ← readRegs abi
  return ⟨abi, regs⟩

/-- The library that unwinds stacks: whether it could be loaded, and what it makes of a buffer
with the maps or the pid of the process. -/
structure StackLib where
  initErr : Option Text
  getStack : Text → UnwindBuf → Option Text
  getStackV2 : u32 → UnwindBuf → Option Text

/-- A call of the library, which is given the first register and the first byte of the stack;
`none` where one of them is missing. -/
def StackLib.call (lib : StackLib) (name : Text) (run : UnwindBuf → Option Text)
    (ubuf : UnwindBuf) : Option (Except Text Text) :=
  match lib.initErr with
  | some err => some (.error err)
  | none =>
      if ubuf.regs = [] ∨ ubuf.data = [] then none
      else
        match run ubuf with
        | none => some (.error (name ++ " from C returned null".toList))
        | some stack => some (.ok stack)

/-- `ParseStack` -/
def StackLib.parseStack (lib : StackLib) (mapBuffer : Text) (ubuf : UnwindBuf) :
    Option (Except Text Text) := lib.call "get_stack".toList (lib.getStack mapBuffer) ubuf

/-- `ParseStackV2` -/
def StackLib.parseStackV2 (lib : StackLib) (pid : u32) (ubuf : UnwindBuf) :
    Option (Except Text Text) := lib.call "get_stackv2".toList (lib.getStackV2 pid) ubuf

/-- The options that `ParseContextStack` looks at. -/
structure StackConf where
  unwindStack : Bool
  showRegs : Bool
  javaStack : Bool
  manualStack : Bool

/-- What `ParseContextStack` finds around the sample: the library, the maps file of the process,
the recorded maps and the order of loops over them. -/
structure StackEnv where
  lib : StackLib
  content : Option Text
  helper : MapsHelper
  ranges : Nat → MapRange

/-- `Stackinfo` of a result; an error is logged. -/
def stackinfoOf : Except Text Text → Text
  | .ok info => info
  | .error _ => []

/-- `ParseContextStack` after the buffer was read. -/
def StackEnv.stackinfo (env : StackEnv) (conf : StackConf) (pid : u32) (ubuf : UnwindBuf) :
    Option Text :=
  if conf.javaStack then (env.lib.parseStackV2 pid ubuf).map stackinfoOf
  else
    match env.content with
    | none => (getStack env.ranges env.helper pid ubuf).map stackinfoOf
    | some content =>
        if conf.manualStack then
          -- `TryManualUpdateMaps`
          let helper := env.helper.parseMapsContent pid content true
          (getStack env.ranges helper pid ubuf).map stackinfoOf
        else (env.lib.parseStack content ubuf).map stackinfoOf

/-- `ParseContextStack` -/
def StackEnv.parseContextStack (env : StackEnv) (conf : StackConf) (pid : u32) : Reader Text :=
  if conf.unwindStack then do
    let ubuf ← UnwindBuf.parseContext
    match env.stackinfo conf pid ubuf with
    | none => Reader.stop
    | some info => return info
  else if conf.showRegs then do
    let _ ← RegsBuf.parseContext
    return []
  else return []

/-! ## The tail that is read -/

/-- The part of the tail that the options ask for. -/
def StackConf.tail (conf : StackConf) {mask : u64} (regs : UserRegs mask) (stack : UserStack) :
    List u8 :=
  if conf.unwindStack then regs.bytes ++ stack.bytes
  else if conf.showRegs then regs.bytes
  else []

/-- The buffer holds what was written; without a stack there is no dynamic size. -/
structure UnwindBuf.Shows (ubuf : UnwindBuf) {mask : u64} (regs : UserRegs mask)
    (stack : UserStack) : Prop where
  abi : ubuf.abi = regs.abi.value
  regs : ubuf.regs = regs.regs
  stackSize : ubuf.stackSize = stack.size
  data : ubuf.data = stack.data
  dynSize : stack.data ≠ [] → ubuf.dynSize = stack.dynSize

/-- The values of the tail come back, and exactly the tail is taken for them. -/
def StackConf.Recovers (conf : StackConf) {mask : u64} (regs : UserRegs mask)
    (stack : UserStack) : Prop :=
  if conf.unwindStack then
    ∃ ubuf, Reader.Consumes UnwindBuf.parseContext (conf.tail regs stack) ubuf ∧
      ubuf.Shows regs stack
  else if conf.showRegs then
    Reader.Consumes RegsBuf.parseContext (conf.tail regs stack) ⟨regs.abi.value, regs.regs⟩
  else True

/-- `ParseContextStack` gets through the tail without a panic, and takes it off the buffer. -/
def StackEnv.GetsThrough (env : StackEnv) (conf : StackConf) (pid : u32) {mask : u64}
    (regs : UserRegs mask) (stack : UserStack) : Prop :=
  ∃ info, Reader.Consumes (env.parseContextStack conf pid) (conf.tail regs stack) info

/-- The abi is the one that the mask was chosen for. -/
def AbiFits (is32Bit : Bool) (abi : SampleAbi) : Prop :=
  abi = if is32Bit then .abi32 else .abi64

/-- The stack is unwound by `GetStack`, which finds maps for the process. -/
def StackEnv.Manual (env : StackEnv) (conf : StackConf) (pid : u32) : Prop :=
  conf.javaStack = false ∧
    match env.content with
    | none => env.helper.pidMaps pid ≠ none
    | some _ => conf.manualStack = true

/-- The abi fits the mask, there is a stack to unwind, and it is not unwound by hand for a
32-bit process. -/
def TailFits (is32Bit : Bool) (env : StackEnv) (conf : StackConf) (pid : u32)
    (regs : UserRegs (regMask is32Bit)) (stack : UserStack) : Prop :=
  if conf.unwindStack then
    AbiFits is32Bit regs.abi ∧ stack.data ≠ [] ∧ (is32Bit = true → ¬ env.Manual conf pid)
  else conf.showRegs = true → AbiFits is32Bit regs.abi

/-! ## Reading it back -/

theorem map_getD_range (xs : List u64) :
    (List.range xs.length).map (fun i => xs.getD i 0) = xs := by
  apply List.ext_getElem
  · rw [List.length_map, List.length_range]
  · intro i hi hi'
    rw [List.getElem_map, List.getElem_range, List.getD_eq_getElem?_getD,
      List.getElem?_eq_getElem hi', Option.getD_some]

theorem consumes_words {n : Nat} {xs : List u64} (h : xs.length = n) :
    Reader.Consumes (Reader.each (fun _ => Reader.word 8) (List.range n))
      (xs.flatMap (LittleEndian.ofWord 8)) xs := by
  subst h
  have heach := @Reader.consumes_each u64 Nat (fun _ => Reader.word 8)
    (fun i => LittleEndian.ofWord 8 (xs.getD i 0)) (fun i => xs.getD i 0) (List.range xs.length)
    fun i _ => Reader.consumes_word 8 (xs.getD i 0)
  rw [map_getD_range] at heach
  have hbytes : (List.range xs.length).flatMap (fun i => LittleEndian.ofWord 8 (xs.getD i 0)) =
      xs.flatMap (LittleEndian.ofWord 8) := by
    rw [← List.flatMap_map (fun i => xs.getD i 0) (LittleEndian.ofWord 8), map_getD_range]
  rwa [hbytes] at heach

theorem maskBits_regMask (is32Bit : Bool) :
    maskBits (regMask is32Bit) = if is32Bit then 16 else 33 := by
  cases is32Bit with
  | false => decide
  | true => decide

section

variable {is32Bit : Bool} {regs : UserRegs (regMask is32Bit)}

theorem length_of_abiFits (h : AbiFits is32Bit regs.abi) :
    regs.regs.length = if is32Bit then 16 else 33 := by
  have hlength := regs.length_eq
  rw [h, maskBits_regMask] at hlength
  cases is32Bit with
  | false => exact hlength
  | true => exact hlength

/-- The registers are read back if the abi fits the mask. -/
theorem consumes_readRegs (h : AbiFits is32Bit regs.abi) :
    Reader.Consumes (readRegs regs.abi.value) (regs.regs.flatMap (LittleEndian.ofWord 8))
      regs.regs := by
  have hlength := length_of_abiFits h
  rw [h]
  cases is32Bit with
  | false => exact consumes_words hlength
  | true => exact consumes_words hlength

/-- Only then: the registers that are read are counted by the abi. -/
theorem abiFits_of_length
    (h : regs.abi.value = perfSampleRegsAbi32 ∧ regs.regs.length = regArmMax ∨
      regs.abi.value = perfSampleRegsAbi64 ∧ regs.regs.length = regArm64Max.toNat) :
    AbiFits is32Bit regs.abi := by
  have hlength := regs.length_eq
  rw [maskBits_regMask] at hlength
  rcases h with ⟨hvalue, hread⟩ | ⟨hvalue, hread⟩
  · have habi : regs.abi = .abi32 := SampleAbi.value_injective hvalue
    rw [hread, habi, if_neg (by decide)] at hlength
    cases is32Bit with
    | false => exact absurd hlength (by decide)
    | true => exact habi
  · have habi : regs.abi = .abi64 := SampleAbi.value_injective hvalue
    rw [hread, habi, if_neg (by decide)] at hlength
    cases is32Bit with
    | false => exact habi
    | true => exact absurd hlength (by decide)

theorem consumes_regsBuf (h : AbiFits is32Bit regs.abi) :
    Reader.Consumes RegsBuf.parseContext regs.bytes ⟨regs.abi.value, regs.regs⟩ := by
  have hregs := (consumes_readRegs h).bind_pure fun read => (⟨regs.abi.value, read⟩ : RegsBuf)
  exact (Reader.consumes_word 8 regs.abi.value).bind hregs

/-- The header of a tail: the abi and the registers, in front of a stack. -/
theorem parseContext_header (h : AbiFits is32Bit regs.abi) (stack : UserStack)
    (rest : List u8) :
    UnwindBuf.parseContext (regs.bytes ++ (LittleEndian.ofWord 8 stack.size ++ rest)) =
      (do
        let data ← Reader.take stack.data.length
        let dynSize ← Reader.word 8
        return (⟨regs.abi.value, regs.regs, stack.size, data, dynSize⟩ : UnwindBuf)) rest := by
  have hlt := stack.length_lt
  have hsize : stack.size.toNat = stack.data.length := by
    rw [UserStack.size, BitVec.toNat_ofNat]
    omega
  unfold UnwindBuf.parseContext UserRegs.bytes
  rw [List.append_assoc, (Reader.consumes_word 8 regs.abi.value).bind_append,
    (consumes_readRegs h).bind_append, (Reader.consumes_word 8 stack.size).bind_append, hsize,
    if_pos stack.length_lt]

/-- A stack that was dumped is read back with its dynamic size. -/
theorem consumes_unwindBuf (h : AbiFits is32Bit regs.abi) {stack : UserStack}
    (hdata : stack.data ≠ []) :
    Reader.Consumes UnwindBuf.parseContext (regs.bytes ++ stack.bytes)
      ⟨regs.abi.value, regs.regs, stack.size, stack.data, stack.dynSize⟩ := by
  intro rest
  unfold UserStack.bytes
  rw [if_neg hdata]
  simp only [List.append_assoc]
  rw [parseContext_header h, (Reader.consumes_take stack.data).bind_append,
    (Reader.consumes_word 8 stack.dynSize).bind_append]
  rfl

/-- Behind an empty stack the dynamic size is missed. -/
theorem parseContext_empty (h : AbiFits is32Bit regs.abi) {stack : UserStack}
    (hdata : stack.data = []) :
    (UnwindBuf.parseContext (regs.bytes ++ stack.bytes)).1 = none := by
  unfold UserStack.bytes
  rw [if_pos hdata, hdata]
  simp only [List.append_nil]
  have hheader := parseContext_header h stack []
  rw [List.append_nil, hdata] at hheader
  rw [hheader]
  rfl

end

/-! ## Unwinding -/

/-- `GetStack` panics only on registers that are missing. -/
theorem getStack_isSome_iff (ranges : Nat → MapRange) (this : MapsHelper) (pid : u32)
    (ubuf : UnwindBuf) : (getStack ranges this pid ubuf).isSome ↔
      this.pidMaps pid = none ∨ 33 ≤ ubuf.regs.length := by
  unfold getStack
  cases hmaps : this.pidMaps pid with
  | none => simp
  | some maps =>
      by_cases hlength : 33 ≤ ubuf.regs.length
      · have hreg (i : Nat) (hi : i < 33) : ubuf.regs[i]? = some ubuf.regs[i] :=
          List.getElem?_eq_getElem (by omega)
        simp [hlength, hreg]
      · have hpc : ubuf.regs[32]? = none := List.getElem?_eq_none (by omega)
        simp only [hpc, hlength, or_false, reduceCtorEq, iff_false]
        cases ubuf.regs[29]? with
        | none => simp
        | some fp => cases ubuf.regs[30]? with
          | none => simp
          | some lr => cases ubuf.regs[31]? <;> simp

/-- The library is called with what it needs. -/
theorem call_isSome {ubuf : UnwindBuf} (hregs : ubuf.regs ≠ []) (hdata : ubuf.data ≠ [])
    (lib : StackLib) (name : Text) (run : UnwindBuf → Option Text) :
    (lib.call name run ubuf).isSome := by
  unfold StackLib.call
  split
  · rfl
  · rw [if_neg (by simp [hregs, hdata])]
    split <;> rfl

/-- What is done with a buffer panics only when a stack is unwound by hand without the
registers of the 64-bit abi. -/
theorem stackinfo_isSome_iff {ubuf : UnwindBuf} (hregs : ubuf.regs ≠ []) (hdata : ubuf.data ≠ [])
    (env : StackEnv) (conf : StackConf) (pid : u32) :
    (env.stackinfo conf pid ubuf).isSome ↔ (env.Manual conf pid → 33 ≤ ubuf.regs.length) := by
  unfold StackEnv.stackinfo StackEnv.Manual
  cases hjava : conf.javaStack with
  | true => simp [StackLib.parseStackV2, call_isSome hregs hdata]
  | false =>
      cases hcontent : env.content with
      | none =>
          simp only [Bool.false_eq_true, if_false, Option.isSome_map, getStack_isSome_iff,
            true_and]
          exact Decidable.or_iff_not_imp_left
      | some content =>
          cases hmanual : conf.manualStack with
          | false => simp [StackLib.parseStack, call_isSome hregs hdata]
          | true =>
              have hmaps :
                  (env.helper.parseMapsContent pid content true).pidMaps pid ≠ none := by
                simp [MapsHelper.parseMapsContent, MapsHelper.setMaps]
              simp [getStack_isSome_iff, hmaps]

/-- After the buffer was read nothing else is taken. -/
theorem parseContextStack_unwind {conf : StackConf} (hunwind : conf.unwindStack = true)
    {bytes : List u8} {ubuf : UnwindBuf}
    (hparse : Reader.Consumes UnwindBuf.parseContext bytes ubuf) (env : StackEnv) (pid : u32)
    (rest : List u8) :
    env.parseContextStack conf pid (bytes ++ rest) = (env.stackinfo conf pid ubuf, rest) := by
  unfold StackEnv.parseContextStack
  rw [if_pos hunwind, hparse.bind_append]
  cases env.stackinfo conf pid ubuf with
  | none => rfl
  | some info => rfl

/-! ## The tail of a sample -/

section

variable {is32Bit : Bool} {regs : UserRegs (regMask is32Bit)} {stack : UserStack}
  {env : StackEnv} {conf : StackConf} {pid : u32}

/-- With registers and a stack, the abi, the stack and the way of unwinding all matter. -/
theorem unwind_iff (hunwind : conf.unwindStack = true) :
    conf.Recovers regs stack ∧ env.GetsThrough conf pid regs stack ↔
      AbiFits is32Bit regs.abi ∧ stack.data ≠ [] ∧ (is32Bit = true → ¬ env.Manual conf pid) := by
  have htail : conf.tail regs stack = regs.bytes ++ stack.bytes := if_pos hunwind
  unfold StackConf.Recovers StackEnv.GetsThrough
  rw [if_pos hunwind, htail]
  -- once the tail is read back, only the unwinding can panic
  have hthrough {ubuf : UnwindBuf} (hfits : AbiFits is32Bit regs.abi) (hdata : stack.data ≠ [])
      (hparse : Reader.Consumes UnwindBuf.parseContext (regs.bytes ++ stack.bytes) ubuf)
      (hshows : ubuf.Shows regs stack) :
      (∃ info, Reader.Consumes (env.parseContextStack conf pid) (regs.bytes ++ stack.bytes) info)
        ↔ (is32Bit = true → ¬ env.Manual conf pid) := by
    have hlength : ubuf.regs.length = if is32Bit then 16 else 33 := by
      rw [hshows.regs]
      exact length_of_abiFits hfits
    have hregs : ubuf.regs ≠ [] := by
      intro hnil
      rw [hnil] at hlength
      cases is32Bit <;> cases hlength
    have hinfo := stackinfo_isSome_iff hregs (hshows.data ▸ hdata) env conf pid
    have hrange : (env.Manual conf pid → 33 ≤ ubuf.regs.length) ↔
        (is32Bit = true → ¬ env.Manual conf pid) := by
      rw [hlength]
      cases is32Bit <;> simp
    rw [← hrange, ← hinfo, Option.isSome_iff_exists]
    refine exists_congr fun info => ?_
    constructor
    · intro h
      have hat := h []
      rw [parseContextStack_unwind hunwind hparse] at hat
      exact (Prod.mk.inj hat).1
    · intro h rest
      rw [parseContextStack_unwind hunwind hparse, h]
  constructor
  · rintro ⟨⟨ubuf, hparse, hshows⟩, hinfo⟩
    have hat := hparse.run
    have hspec := (parseContext_spec hat).2
    rw [hshows.abi, hshows.regs] at hspec
    have hfits := abiFits_of_length hspec
    have hdata : stack.data ≠ [] := by
      intro hnil
      have hnone := parseContext_empty hfits hnil
      rw [hat] at hnone
      cases hnone
    exact ⟨hfits, hdata, (hthrough hfits hdata hparse hshows).mp hinfo⟩
  · rintro ⟨hfits, hdata, hmanual⟩
    have hparse := consumes_unwindBuf hfits hdata
    have hshows : UnwindBuf.Shows
        ⟨regs.abi.value, regs.regs, stack.size, stack.data, stack.dynSize⟩ regs stack :=
      ⟨rfl, rfl, rfl, rfl, fun _ => rfl⟩
    exact ⟨⟨_, hparse, hshows⟩, (hthrough hfits hdata hparse hshows).mpr hmanual⟩

/-- With registers only, the abi has to fit the mask. -/
theorem showRegs_iff (hunwind : conf.unwindStack = false) (hregs : conf.showRegs = true) :
    conf.Recovers regs stack ∧ env.GetsThrough conf pid regs stack ↔ AbiFits is32Bit regs.abi := by
  have htail : conf.tail regs stack = regs.bytes := by
    simp [StackConf.tail, hunwind, hregs]
  unfold StackConf.Recovers
  rw [hunwind, if_neg Bool.false_ne_true, if_pos hregs, htail]
  constructor
  · rintro ⟨hparse, -⟩
    have hat := hparse []
    obtain ⟨abi, buf, -, hat⟩ := Reader.bind_eq_some hat
    obtain ⟨read, buf', hread, hat⟩ := Reader.bind_eq_some hat
    obtain ⟨rfl, rfl⟩ := RegsBuf.mk.inj (Option.some.inj (Prod.mk.inj hat).1)
    exact abiFits_of_length (length_readRegs hread)
  · intro hfits
    have hparse := consumes_regsBuf hfits
    refine ⟨hparse, [], fun rest => ?_⟩
    rw [htail]
    unfold StackEnv.parseContextStack
    rw [hunwind, if_neg Bool.false_ne_true, if_pos hregs, hparse.bind_append]
    rfl

/-- **When the tail of a sample is read back.** For every mask, abi, stack and way of unwinding,
the values come back from exactly the tail and nothing panics exactly when `TailFits`. -/
theorem parseContextStack_iff :
    conf.Recovers regs stack ∧ env.GetsThrough conf pid regs stack ↔
      TailFits is32Bit env conf pid regs stack := by
  unfold TailFits
  cases hunwind : conf.unwindStack with
  | true => exact unwind_iff hunwind
  | false =>
      cases hregs : conf.showRegs with
      | true =>
          rw [showRegs_iff hunwind hregs]
          simp
      | false =>
          have htail : conf.tail regs stack = [] := by simp [StackConf.tail, hunwind, hregs]
          refine iff_of_true ⟨?_, [], fun rest => ?_⟩ (by simp)
          · simp [StackConf.Recovers, hunwind, hregs]
          · rw [htail]
            unfold StackEnv.parseContextStack
            rw [hunwind, hregs]
            rfl

end

/-- A 64-bit process with registers, of whose stack nothing could be dumped. -/
def zeroRegs : UserRegs (regMask false) := ⟨.abi64, List.replicate 33 0, by decide⟩

def noStack : UserStack := ⟨[], 0, by decide⟩

/-- A loaded library without an answer, and no maps. -/
def bareStackEnv : StackEnv :=
  ⟨⟨none, fun _ _ => none, fun _ _ => none⟩, none, ⟨fun _ => none, fun _ => none⟩,
    fun _ => GoRange.entries⟩

/-- Without a stack there is no dynamic size behind it, which is read all the same. -/
theorem noStack_not_recovered :
    ¬ ∀ (is32Bit : Bool) (env : StackEnv) (conf : StackConf) (pid : u32)
      (regs : UserRegs (regMask is32Bit)) (stack : UserStack),
      conf.Recovers regs stack ∧ env.GetsThrough conf pid regs stack := by
  intro h
  have hread := h false bareStackEnv ⟨true, false, false, false⟩ 7 zeroRegs noStack
  exact ((unwind_iff rfl).mp hread).2.1 rfl

end Stackplz
