import Stackplz.User.MapsHelper
import Stackplz.User.ParseEvent

/-!
# The manual backtrace

`UnwindBuf` holds the registers and a part of the stack of a sample, and `GetStack` walks the
frame pointers through it. The walk is compared with the chain of frames that lie inside the
dump: the two part only where a seek fails, because the error of a seek is not looked at.
-/

set_option autoImplicit false

namespace Stackplz

/-! ## The buffer -/

/-- `PERF_SAMPLE_REGS_ABI_32` and `PERF_SAMPLE_REGS_ABI_64` -/
def perfSampleRegsAbi32 : u64 := 1
def perfSampleRegsAbi64 : u64 := 2

structure UnwindBuf where
  abi : u64
  regs : List u64
  stackSize : u64
  data : List u8
  dynSize : u64
deriving DecidableEq

/-- `UnwindBuf.ParseContext`. Its caller panics on an error, so that an error stops the program,
too, like a size that is too large for a slice. -/
def UnwindBuf.parseContext : Reader UnwindBuf := do
  let abi ← Reader.word 8
  let regs ← readRegs abi
  let stackSize ← Reader.word 8
  if stackSize.toNat < 2 ^ 63 then do
    let data ← Reader.take stackSize.toNat
    let dynSize ← Reader.word 8
    return ⟨abi, regs, stackSize, data, dynSize⟩
  else Reader.stop

/-! ## The walk -/

/-- `binary.Read` of a word at a place of the dump. -/
def readWordAt (data : List u8) (pos : Nat) : Option u64 :=
  if pos + 8 ≤ data.length then some (LittleEndian.toWord 8 ((data.drop pos).take 8)) else none

/-- A frame record: where it was read, and what it holds. -/
structure StackFrame where
  pos : Nat
  nextFp : u64
  nextLr : u64
deriving DecidableEq

/-- `stack_buf.Seek(int64(fp_offset), io.SeekStart)`: an offset that is negative as an `int64` is
an error, and the place stays. -/
def seek (pos : Nat) (fpOffset : u64) : Nat :=
  if fpOffset.toNat < 2 ^ 63 then fpOffset.toNat else pos

/-- The loop of `GetStack`, with the rounds that are left. -/
def walkFrames (data : List u8) (sp : u64) : Nat → u64 → Nat → List StackFrame
  | 0, _, _ => []
  | n + 1, fp, pos =>
      if fp < sp then []
      else
        let pos := seek pos (fp - sp)
        match readWordAt data pos with
        | none => []
        | some nextFp =>
            match readWordAt data (pos + 8) with
            | none => []
            | some nextLr => ⟨pos, nextFp, nextLr⟩ :: walkFrames data sp n nextFp (pos + 16)

/-- The addresses of the backtrace; a return address of zero is left out. -/
def stackAddrs (pc lr : u64) (frames : List StackFrame) : List u64 :=
  pc :: lr :: (frames.map StackFrame.nextLr).filter fun nextLr => nextLr ≠ 0

/-- `GetRegionInfo`, in the order of a loop over the maps. -/
def regionInfo (order : List PathRegions) (addr : u64) : Text :=
  order.foldl (fun info entry => entry.2.foldl (fun info libInfo =>
    if libInfo.contains addr then
      hexText addr ++ " <".toList ++ libInfo.libName ++ " + ".toList ++
        hexText (libInfo.off + (addr - libInfo.baseAddr)) ++ ">".toList
    else info) info) (hexText addr ++ " <unknown>".toList)

/-- The text of a backtrace; every address is looked up in a loop of its own. -/
def stackText (ranges : Nat → MapRange) (maps : ProcMaps) (addrs : List u64) : Text :=
  "\t".toList ++ List.intercalate "\n\t".toList
    (addrs.mapIdx fun i addr => regionInfo ((ranges i).order maps) addr)

/-- `GetStack`; `none` is an index that is out of range. -/
def getStack (ranges : Nat → MapRange) (this : MapsHelper) (pid : u32) (ubuf : UnwindBuf) :
    Option (Except Text Text) :=
  match this.pidMaps pid with
  | none =>
      some (.error ("[GetStack] get pid_maps failed by pid:".toList ++ Nat.toDigits 10 pid.toNat))
  | some maps => do
      let fp ← ubuf.regs[29]?
      let lr ← ubuf.regs[30]?
      let sp ← ubuf.regs[31]?
      let pc ← ubuf.regs[32]?
      return .ok (stackText ranges maps (stackAddrs pc lr (walkFrames ubuf.data sp 20 fp 0)))

/-! ## The chain of frames -/

/-- The frame record at a place. -/
def frameAt (data : List u8) (pos : Nat) : StackFrame :=
  ⟨pos, LittleEndian.toWord 8 ((data.drop pos).take 8),
    LittleEndian.toWord 8 ((data.drop (pos + 8)).take 8)⟩

/-- The frames that lie inside the dump, each at its own offset from `sp`. -/
def frameChain (data : List u8) (sp : u64) : Nat → u64 → List StackFrame
  | 0, _ => []
  | n + 1, fp =>
      if sp ≤ fp ∧ (fp - sp).toNat + 16 ≤ data.length then
        let frame := frameAt data (fp - sp).toNat
        frame :: frameChain data sp n frame.nextFp
      else []

/-- The chain ends before its last step at a frame pointer that a seek cannot go to, while
there are sixteen bytes left behind the last frame. -/
def SeekLost (data : List u8) (sp : u64) (n : Nat) (fp : u64) (pos : Nat) : Prop :=
  let frames := frameChain data sp n fp
  let lastFp := (frames.getLast?.map StackFrame.nextFp).getD fp
  let lastPos := (frames.getLast?.map fun frame => frame.pos + 16).getD pos
  frames.length < n ∧ sp ≤ lastFp ∧ 2 ^ 63 ≤ (lastFp - sp).toNat ∧ lastPos + 16 ≤ data.length

/-- A round of the loop at a place where both words can be read. -/
theorem walkFrames_succ {data : List u8} {sp fp : u64} (n : Nat) {pos : Nat} (hsp : sp ≤ fp)
    (hinside : seek pos (fp - sp) + 16 ≤ data.length) :
    walkFrames data sp (n + 1) fp pos =
      frameAt data (seek pos (fp - sp)) :: walkFrames data sp n
        (frameAt data (seek pos (fp - sp))).nextFp (seek pos (fp - sp) + 16) := by
  have hfp : readWordAt data (seek pos (fp - sp)) =
      some (frameAt data (seek pos (fp - sp))).nextFp := if_pos (by omega)
  have hlr : readWordAt data (seek pos (fp - sp) + 8) =
      some (frameAt data (seek pos (fp - sp))).nextLr := if_pos (by omega)
  rw [walkFrames, if_neg (BitVec.not_lt.mpr hsp)]
  dsimp only
  rw [hfp]
  dsimp only
  rw [hlr]
  rfl

/-- A round that ends the loop. -/
theorem walkFrames_succ_end {data : List u8} {sp fp : u64} (n : Nat) {pos : Nat}
    (hend : sp ≤ fp → data.length < seek pos (fp - sp) + 16) :
    walkFrames data sp (n + 1) fp pos = [] := by
  rw [walkFrames]
  split
  · rfl
  · rename_i hsp
    have hshort := hend (BitVec.not_lt.mp hsp)
    have hlr : readWordAt data (seek pos (fp - sp) + 8) = none := if_neg (by omega)
    dsimp only
    rw [hlr]
    cases readWordAt data (seek pos (fp - sp)) with
    | none => rfl
    | some nextFp => rfl

theorem frameChain_succ {data : List u8} {sp fp : u64} (n : Nat) (hsp : sp ≤ fp)
    (hinside : (fp - sp).toNat + 16 ≤ data.length) : frameChain data sp (n + 1) fp =
      frameAt data (fp - sp).toNat ::
        frameChain data sp n (frameAt data (fp - sp).toNat).nextFp := by
  rw [frameChain]
  exact if_pos ⟨hsp, hinside⟩

theorem frameChain_succ_end {data : List u8} {sp fp : u64} (n : Nat)
    (h : sp ≤ fp → data.length < (fp - sp).toNat + 16) : frameChain data sp (n + 1) fp = [] := by
  rw [frameChain]
  refine if_neg ?_
  rintro ⟨hsp, hinside⟩
  have hshort := h hsp
  omega

theorem getLast_cons_map {α : Type} (f : StackFrame → α) (frame : StackFrame)
    (frames : List StackFrame) (a : α) : ((frame :: frames).getLast?.map f).getD a =
      (frames.getLast?.map f).getD (f frame) := by
  cases frames with
  | nil => rfl
  | cons next frames =>
      rw [List.getLast?_cons_cons, List.getLast?_eq_some_getLast (List.cons_ne_nil _ _)]
      rfl

/-- Behind a frame of the chain the same question is asked with one step less. -/
theorem seekLost_succ {data : List u8} {sp fp : u64} (n pos : Nat) (hsp : sp ≤ fp)
    (hinside : (fp - sp).toNat + 16 ≤ data.length) : SeekLost data sp (n + 1) fp pos ↔
      SeekLost data sp n (frameAt data (fp - sp).toNat).nextFp ((fp - sp).toNat + 16) := by
  unfold SeekLost
  rw [frameChain_succ n hsp hinside]
  simp only [getLast_cons_map, List.length_cons, Nat.add_lt_add_iff_right]
  rfl

theorem seekLost_succ_end {data : List u8} {sp fp : u64} (n pos : Nat)
    (h : sp ≤ fp → data.length < (fp - sp).toNat + 16) : SeekLost data sp (n + 1) fp pos ↔
      sp ≤ fp ∧ 2 ^ 63 ≤ (fp - sp).toNat ∧ pos + 16 ≤ data.length := by
  unfold SeekLost
  rw [frameChain_succ_end n h]
  simp

/-- **The walk is the chain** unless a seek is lost. The induction is on the rounds that are
left; both go on from the same frame until the chain ends. -/
theorem walkFrames_eq_iff {data : List u8} {sp : u64} (hdata : data.length < 2 ^ 63) :
    ∀ (n : Nat) (fp : u64) (pos : Nat),
      walkFrames data sp n fp pos = frameChain data sp n fp ↔ ¬ SeekLost data sp n fp pos := by
  intro n
  induction n with
  | zero =>
      intro fp pos
      refine iff_of_true rfl fun h => ?_
      exact absurd h.1 (Nat.not_lt_zero _)
  | succ n ih =>
      intro fp pos
      by_cases hin : sp ≤ fp ∧ (fp - sp).toNat + 16 ≤ data.length
      · obtain ⟨hsp, hinside⟩ := hin
        have hseek : seek pos (fp - sp) = (fp - sp).toNat := if_pos (by omega)
        rw [walkFrames_succ n hsp (by rw [hseek]; exact hinside), hseek,
          frameChain_succ n hsp hinside, seekLost_succ n pos hsp hinside, List.cons.injEq,
          and_iff_right rfl]
        exact ih _ _
      · have hend (hsp : sp ≤ fp) : data.length < (fp - sp).toNat + 16 := by
          by_contra hlt
          exact hin ⟨hsp, Nat.not_lt.mp hlt⟩
        rw [frameChain_succ_end n hend, seekLost_succ_end n pos hend]
        by_cases hlost : sp ≤ fp ∧ 2 ^ 63 ≤ (fp - sp).toNat ∧ pos + 16 ≤ data.length
        · obtain ⟨hsp, hfar, hleft⟩ := hlost
          have hseek : seek pos (fp - sp) = pos := if_neg (by omega)
          rw [walkFrames_succ n hsp (by rw [hseek]; exact hleft)]
          exact iff_of_false (List.cons_ne_nil _ _) (not_not_intro ⟨hsp, hfar, hleft⟩)
        · refine iff_of_true (walkFrames_succ_end n fun hsp => ?_) hlost
          unfold seek
          split
          · exact hend hsp
          · rename_i hfar
            by_contra hleft
            exact hlost ⟨hsp, by omega, by omega⟩

/-! ## The backtrace of a sample -/

/-- What the manual backtrace should be: the addresses of the chain of frames, and no frame from
any other place. -/
def StackIsChain (this : MapsHelper) (pid : u32) (maps : ProcMaps) (ubuf : UnwindBuf) : Prop :=
  ∃ fp lr sp pc, ubuf.regs[29]? = some fp ∧ ubuf.regs[30]? = some lr ∧ ubuf.regs[31]? = some sp ∧
    ubuf.regs[32]? = some pc ∧
    walkFrames ubuf.data sp 20 fp 0 = frameChain ubuf.data sp 20 fp ∧
    ∀ ranges, getStack ranges this pid ubuf =
      some (.ok (stackText ranges maps (stackAddrs pc lr (frameChain ubuf.data sp 20 fp))))

theorem length_each {α β : Type} {f : β → Reader α} {xs : List β} {as : List α}
    {buf rest : List u8} (h : Reader.each f xs buf = (some as, rest)) : as.length = xs.length := by
  induction xs generalizing as buf rest with
  | nil =>
      obtain rfl := Option.some.inj (Prod.mk.inj h).1
      rfl
  | cons x xs ih =>
      obtain ⟨a, mid, -, h⟩ := Reader.bind_eq_some h
      obtain ⟨as', mid', hrest, h⟩ := Reader.bind_eq_some h
      obtain rfl := Option.some.inj (Prod.mk.inj h).1
      rw [List.length_cons, List.length_cons, ih hrest]

theorem length_readRegs {abi : u64} {regs : List u64} {buf rest : List u8}
    (h : readRegs abi buf = (some regs, rest)) :
    abi = perfSampleRegsAbi32 ∧ regs.length = regArmMax ∨
      abi = perfSampleRegsAbi64 ∧ regs.length = regArm64Max.toNat := by
  unfold readRegs at h
  split at h
  · exact Or.inl ⟨‹_›, by rw [length_each h, List.length_range]⟩
  · split at h
    · exact Or.inr ⟨‹_›, by rw [length_each h, List.length_range]⟩
    · cases h

/-- The buffers that a sample can be parsed to. -/
theorem parseContext_spec {buf rest : List u8} {ubuf : UnwindBuf}
    (h : UnwindBuf.parseContext buf = (some ubuf, rest)) :
    ubuf.data.length < 2 ^ 63 ∧
      (ubuf.abi = perfSampleRegsAbi32 ∧ ubuf.regs.length = regArmMax ∨
        ubuf.abi = perfSampleRegsAbi64 ∧ ubuf.regs.length = regArm64Max.toNat) := by
  obtain ⟨abi, buf₁, -, h⟩ := Reader.bind_eq_some h
  obtain ⟨regs, buf₂, hregs, h⟩ := Reader.bind_eq_some h
  obtain ⟨stackSize, buf₃, -, h⟩ := Reader.bind_eq_some h
  split at h
  · rename_i hsize
    obtain ⟨data, buf₄, hdata, h⟩ := Reader.bind_eq_some h
    obtain ⟨dynSize, buf₅, -, h⟩ := Reader.bind_eq_some h
    obtain rfl := Option.some.inj (Prod.mk.inj h).1
    exact ⟨by rw [Reader.length_of_take hdata]; exact hsize, length_readRegs hregs⟩
  · cases h

/-- **When the manual backtrace is the chain of frames.** For every parsed buffer and known maps,
exactly when the registers are those of the 64-bit abi and no seek is lost. -/
theorem getStack_exact_iff {buf rest : List u8} {ubuf : UnwindBuf}
    (hparse : UnwindBuf.parseContext buf = (some ubuf, rest)) {this : MapsHelper} {pid : u32}
    {maps : ProcMaps} (hmaps : this.pidMaps pid = some maps) :
    StackIsChain this pid maps ubuf ↔ ubuf.abi = perfSampleRegsAbi64 ∧
      ∀ fp sp, ubuf.regs[29]? = some fp → ubuf.regs[31]? = some sp →
        ¬ SeekLost ubuf.data sp 20 fp 0 := by
  obtain ⟨hdata, hregs⟩ := parseContext_spec hparse
  constructor
  · rintro ⟨fp, lr, sp, pc, hfp, hlr, hsp, hpc, hwalk, -⟩
    have habi : ubuf.abi = perfSampleRegsAbi64 := by
      rcases hregs with ⟨-, hlength⟩ | ⟨habi, -⟩
      · rw [List.getElem?_eq_none (by rw [hlength]; decide)] at hpc
        cases hpc
      · exact habi
    refine ⟨habi, fun fp' sp' hfp' hsp' => ?_⟩
    obtain rfl := Option.some.inj (hfp.symm.trans hfp')
    obtain rfl := Option.some.inj (hsp.symm.trans hsp')
    exact (walkFrames_eq_iff hdata 20 fp 0).mp hwalk
  · rintro ⟨habi, hlost⟩
    have hlength : ubuf.regs.length = 33 := by
      rcases hregs with ⟨habi', -⟩ | ⟨-, hlength⟩
      · rw [habi'] at habi
        exact absurd habi (by decide)
      · exact hlength
    have hreg (i : Nat) (hi : i < 33) : ∃ value, ubuf.regs[i]? = some value :=
      ⟨_, List.getElem?_eq_getElem (hlength ▸ hi)⟩
    obtain ⟨fp, hfp⟩ := hreg 29 (by omega)
    obtain ⟨lr, hlr⟩ := hreg 30 (by omega)
    obtain ⟨sp, hsp⟩ := hreg 31 (by omega)
    obtain ⟨pc, hpc⟩ := hreg 32 (by omega)
    have hwalk := (walkFrames_eq_iff hdata 20 fp 0).mpr (hlost fp sp hfp hsp)
    refine ⟨fp, lr, sp, pc, hfp, hlr, hsp, hpc, hwalk, fun ranges => ?_⟩
    rw [← hwalk]
    unfold getStack
    simp [hmaps, hfp, hlr, hsp, hpc]

/-! ### Two frames -/

/-- The registers of a function of `libc.so` whose caller has a caller, with `fp` and `sp` at
`0x8000`, `lr` at `0x7110` and `pc` at `0x7200`. -/
def nestedRegs : List u64 := List.replicate 29 0 ++ [0x8000, 0x7110, 0x8000, 0x7200]

/-- Its stack: the frame of the function, eight bytes of locals and the frame of its caller. -/
def nestedStack : List u8 :=
  [0x8018, 0x7120, 0xabcd, 0, 0x7130].flatMap (LittleEndian.ofWord 8)

def nestedSample : List u8 :=
  (perfSampleRegsAbi64 :: nestedRegs ++ [40]).flatMap (LittleEndian.ofWord 8) ++ nestedStack ++
    LittleEndian.ofWord 8 40

def nestedBuf : UnwindBuf := ⟨perfSampleRegsAbi64, nestedRegs, 40, nestedStack, 40⟩

/-- Both frames are in the backtrace, with their return addresses in `libc.so`. -/
theorem getStack_exact_nested :
    StackIsChain libcHelper 7 libcMaps nestedBuf ∧
      stackAddrs 0x7200 0x7110 (frameChain nestedBuf.data 0x8000 20 0x8000) =
        [0x7200, 0x7110, 0x7120, 0x7130] := by
  have hparse : UnwindBuf.parseContext nestedSample = (some nestedBuf, []) := by decide +kernel
  refine ⟨(getStack_exact_iff hparse rfl).mpr ⟨rfl, fun fp sp hfp hsp => ?_⟩, by decide +kernel⟩
  obtain rfl := Option.some.inj hfp
  obtain rfl := Option.some.inj hsp
  unfold SeekLost
  decide +kernel

/-! ### A sample of a 32-bit process -/

/-- A sample of zeros with sixteen bytes of stack, for an abi and its number of registers. -/
def zeroSample (abi : u64) (regs : Nat) : List u8 :=
  LittleEndian.ofWord 8 abi ++ List.replicate (8 * regs) 0 ++ LittleEndian.ofWord 8 16 ++
    List.replicate 16 0 ++ LittleEndian.ofWord 8 16

def zeroBuf (abi : u64) (regs : Nat) : UnwindBuf :=
  ⟨abi, List.replicate regs 0, 16, List.replicate 16 0, 16⟩

/-- A sample of a 32-bit process has no register 29, so that the backtrace panics. -/
theorem arm_sample_not_chain :
    ¬ ∀ (buf rest : List u8) (ubuf : UnwindBuf),
      UnwindBuf.parseContext buf = (some ubuf, rest) →
      ∀ (this : MapsHelper) (pid : u32) (maps : ProcMaps), this.pidMaps pid = some maps →
        StackIsChain this pid maps ubuf := by
  intro h
  have hchain := h (zeroSample perfSampleRegsAbi32 16) [] (zeroBuf perfSampleRegsAbi32 16)
    (by decide +kernel) ⟨fun _ => some ∅, fun _ => none⟩ 7 ∅ rfl
  obtain ⟨fp, -, -, -, hfp, -⟩ := hchain
  cases hfp

end Stackplz
