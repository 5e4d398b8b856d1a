import Stackplz.Basic.Numeral
import Stackplz.Basic.Reader
import Stackplz.Probe.Types

/-!
# Breakpoints

A breakpoint is set by `--brk` (`root.go`) or by a message to the server (`rpc.go`). The command
line writes the address and the type into one text; a message has a field for each and comes in a
frame, a length and that many bytes of JSON. The server answers every frame with one:

* `handleConnection_frames` — the frames of a connection are answered one for one, in order, up to
  a breakpoint that cannot be set;
* `answers_readBack` — a client reads back as many answers as it sent requests;
* `brk_agree_iff` — both ways set the same breakpoint, except without `0x`, at zero and in the
  kernel.
-/

set_option autoImplicit false

namespace Stackplz

/-! ## The two ways -/

def hwBreakpointR : u32 := 1
def hwBreakpointW : u32 := 2
def hwBreakpointRW : u32 := hwBreakpointR ||| hwBreakpointW
def hwBreakpointX : u32 := 4

/-- The type of a breakpoint by its letters. -/
def brkTypeOf (type : Text) : Option u32 :=
  match String.ofList type with
  | "r" => some hwBreakpointR
  | "w" => some hwBreakpointW
  | "x" => some hwBreakpointX
  | "rw" => some hwBreakpointRW
  | _ => none

/-- `strings.TrimPrefix` of `0x`. -/
def trimHexPrefix : Text → Text
  | '0' :: 'x' :: rest => rest
  | s => s

/-- The fields of `ModuleConfig` for a breakpoint. -/
structure BrkConf where
  brkPid : Int
  brkLen : u64
  brkType : u32
  brkAddr : u64
  brkKernel : Bool
deriving DecidableEq

/-- An address with any of the highest bits is one of the kernel. -/
def BrkConf.setBrkKernel (conf : BrkConf) : BrkConf :=
  { conf with brkKernel := decide (conf.brkAddr &&& 0xffff000000000000 > 0) }

/-- The options `--brk-pid`, `--brk` and `--brk-len`. -/
structure BrkFlags where
  brkPid : Int
  brkAddr : Text
  brkLen : u64

/-- What `strconv` says about a text that it does not parse. -/
abbrev NumError := Text → Text

/-- The part of `persistentPreRunEFunc` for breakpoints, with the base of `--brk-lib`. There is
none when the address is zero. -/
def BrkFlags.parse (flags : BrkFlags) (numError : NumError) (brkBase : u64) :
    Except Text (Option BrkConf) :=
  if "0x".toList.isPrefixOf flags.brkAddr then
    if flags.brkLen ≤ 0 && decide (flags.brkLen > 8) then
      .error ("BrkLen ".toList ++ Numeral.formatInt flags.brkLen.toNat 10 ++
        " invaild, support [1, 8]".toList)
    else
      match Text.splitOn ':' flags.brkAddr with
      | [_] => .error "BrkType not set, choose:r,w,x,rw".toList
      | [addr, type] =>
          match brkTypeOf type with
          | none => .error ("parse BrkType for ".toList ++ type ++
              " failed, choose:r,w,x,rw".toList)
          | some brkType =>
              match Text.parseUint (trimHexPrefix addr) 16 64 with
              | none => .error ("parse for ".toList ++ flags.brkAddr ++ " failed, err:".toList ++
                  numError (trimHexPrefix addr))
              | some addr =>
                  let brkAddr := brkBase + BitVec.ofNat 64 addr
                  let conf : BrkConf := ⟨flags.brkPid, flags.brkLen, brkType, brkAddr, false⟩
                  .ok (if brkAddr > 0 then some conf.setBrkKernel else none)
      | _ => .error ("parse for ".toList ++ flags.brkAddr ++ " failed, format invaild".toList)
  else .ok none

/-- `BrkOptionsRaw` -/
structure BrkOptionsRaw where
  brkPid : Int
  brkLen : u64
  brkType : Text
  brkAddr : Text

/-- `BrkOptions` -/
structure BrkOptions where
  brkPid : Int
  brkLen : u64
  brkType : u32
  brkAddr : u64

/-- `ParseMsg` behind the JSON. -/
def BrkOptionsRaw.parse (raw : BrkOptionsRaw) (numError : NumError) : Except Text BrkOptions :=
  match brkTypeOf raw.brkType with
  | none => .error ("breakpoint type:".toList ++ raw.brkType ++ " is not supported".toList)
  | some brkType =>
      match Text.parseUint (trimHexPrefix raw.brkAddr) 16 64 with
      | none => .error ("parse for ".toList ++ raw.brkAddr ++ " failed, err:".toList ++
          numError (trimHexPrefix raw.brkAddr))
      | some addr => .ok ⟨raw.brkPid, raw.brkLen, brkType, BitVec.ofNat 64 addr⟩

/-- What `BrkIt` puts into the configuration. -/
def BrkOptions.conf (opts : BrkOptions) : BrkConf :=
  ⟨opts.brkPid, opts.brkLen, opts.brkType, opts.brkAddr, false⟩

/-- The part of `ExtraPerfOptions` for breakpoints. -/
structure PerfBrk where
  brkPid : Int
  brkAddr : u64
  brkLen : u64
  brkType : u32
deriving DecidableEq

/-- `getExtraOptions`: a breakpoint in the kernel cannot ask for a process. -/
def BrkConf.getExtraOptions (conf : BrkConf) : PerfBrk :=
  ⟨if conf.brkKernel then -1 else conf.brkPid, conf.brkAddr, conf.brkLen, conf.brkType⟩

/-! ## When the two ways agree -/

/-- No type has a colon. -/
theorem brkTypeOf_colon {type : Text} (h : ':' ∈ type) : brkTypeOf type = none := by
  have hletters {name : String} (hname : ':' ∉ name.toList) : String.ofList type ≠ name := by
    rintro rfl
    rw [String.toList_ofList] at hname
    exact hname h
  unfold brkTypeOf
  split
  · exact absurd ‹_› (hletters (by decide))
  · exact absurd ‹_› (hletters (by decide))
  · exact absurd ‹_› (hletters (by decide))
  · exact absurd ‹_› (hletters (by decide))
  · rfl

/-- No address has a colon. -/
theorem parseUint_colon {s : Text} {base bits : Nat} (hbase : base ≠ 0) (h : ':' ∈ s) :
    Text.parseUint s base bits = none := by
  cases hparse : Text.parseUint s base bits with
  | none => rfl
  | some n =>
      have hne : s ≠ [] := List.ne_nil_of_mem h
      unfold Text.parseUint at hparse
      rw [if_neg hne, if_neg hbase] at hparse
      rcases Text.parseDigits_chars hparse ':' h with hsep | ⟨d, -, hdigit⟩
      · exact absurd hsep (by decide)
      · exact absurd hdigit (by simp [Text.digitValue])

section Agree

variable {addr type : Text}

/-- A text with three pieces or more. -/
theorem splitOn_long {s front back : Text} (hs : s = front ++ ':' :: back) (hfront : ':' ∉ front)
    (hback : ':' ∈ back) : ∃ a b c rest, Text.splitOn ':' s = a :: b :: c :: rest := by
  rcases Text.splitOn_cases ':' back with ⟨hnone, -⟩ | ⟨mid, last, -, -, hsplit⟩
  · exact absurd hback hnone
  · obtain ⟨c, rest, hlast⟩ := List.exists_cons_of_ne_nil (Text.splitOn_ne_nil ':' last)
    refine ⟨front, mid, c, rest, ?_⟩
    rw [hs, Text.splitOn_append hfront, hsplit, hlast]

/-- The command line cuts the text at its only colon. -/
theorem splitOn_brkAddr (haddr : ':' ∉ addr) (htype : ':' ∉ type) :
    Text.splitOn ':' (addr ++ ':' :: type) = [addr, type] := by
  rw [Text.splitOn_append haddr, Text.splitOn_of_not_mem htype]

/-- Another colon is an error. -/
theorem splitOn_colon (h : ':' ∈ addr ∨ ':' ∈ type) :
    ∃ a b c rest, Text.splitOn ':' (addr ++ ':' :: type) = a :: b :: c :: rest := by
  by_cases haddr : ':' ∈ addr
  · rcases Text.splitOn_cases ':' addr with ⟨hnone, -⟩ | ⟨front, back, heq, hfront, -⟩
    · exact absurd haddr hnone
    · have hpieces : addr ++ ':' :: type = front ++ ':' :: (back ++ ':' :: type) := by
        rw [heq, List.append_assoc, List.cons_append]
      exact splitOn_long hpieces hfront (by simp)
  · exact splitOn_long rfl haddr (h.resolve_left haddr)

end Agree

/-- The breakpoint that the command line sets. -/
def BrkFlags.breakpoint (flags : BrkFlags) (numError : NumError) : Option PerfBrk :=
  (flags.parse numError 0).toOption.bind fun conf => conf.map BrkConf.getExtraOptions

/-- The breakpoint that a message sets. -/
def BrkOptionsRaw.breakpoint (raw : BrkOptionsRaw) (numError : NumError) : Option PerfBrk :=
  (raw.parse numError).toOption.map fun opts => opts.conf.getExtraOptions

/-- The mask of the kernel addresses. -/
theorem kernelMask_eq_zero_iff (addr : u64) :
    addr &&& 0xffff000000000000 = 0 ↔ addr.toNat < 2 ^ 48 := by
  have hmask : ∀ i < 64, (0xffff000000000000 : u64).getLsbD i = decide (48 ≤ i) := by decide
  have hzero (i : Nat) : (0 : u64).getLsbD i = false := BitVec.getLsbD_zero
  constructor
  · intro h
    apply Nat.lt_pow_two_of_testBit
    intro i hi
    by_cases hlt : i < 64
    · have hbit := congrArg (fun x => BitVec.getLsbD x i) h
      rw [BitVec.getLsbD_and, hmask i hlt, decide_eq_true hi, Bool.and_true, hzero] at hbit
      exact hbit
    · exact BitVec.getLsbD_of_ge addr i (by omega)
  · intro h
    apply BitVec.eq_of_getLsbD_eq
    intro i hi
    rw [BitVec.getLsbD_and, hmask i hi, hzero]
    by_cases hhigh : 48 ≤ i
    · have hlt : addr.toNat < 2 ^ i :=
        Nat.lt_of_lt_of_le h (Nat.pow_le_pow_right (by omega) hhigh)
      have hbit : addr.getLsbD i = false := Nat.testBit_lt_two_pow hlt
      rw [hbit, Bool.false_and]
    · rw [decide_eq_false hhigh, Bool.and_false]

section Parse

variable (brkPid : Int) (brkLen : u64) {digits type : Text} (numError : NumError)

/-- A message with a colon in its type or address is an error. -/
theorem parse_raw_colon (h : ':' ∈ digits ∨ ':' ∈ type) :
    ∃ msg, BrkOptionsRaw.parse ⟨brkPid, brkLen, type, "0x".toList ++ digits⟩ numError =
      .error msg := by
  unfold BrkOptionsRaw.parse
  cases htype : brkTypeOf type with
  | none => exact ⟨_, rfl⟩
  | some brkType =>
      have hdigits : ':' ∈ digits := by
        refine h.resolve_right fun hmem => ?_
        rw [brkTypeOf_colon hmem] at htype
        cases htype
      have hparse : Text.parseUint (trimHexPrefix ("0x".toList ++ digits)) 16 64 = none :=
        parseUint_colon (by decide) hdigits
      rw [hparse]
      exact ⟨_, rfl⟩

/-- The length is never turned down: no length is below one and above eight. -/
theorem brkLen_checked : (decide (brkLen ≤ 0) && decide (brkLen > 8)) = false := by
  rw [Bool.and_eq_false_iff, decide_eq_false_iff_not, decide_eq_false_iff_not]
  by_cases hzero : brkLen ≤ 0
  · right
    bv_omega
  · exact Or.inl hzero

theorem isPrefixOf_brkAddr (digits type : Text) :
    "0x".toList.isPrefixOf ("0x".toList ++ digits ++ ':' :: type) = true := rfl

/-- A text with another colon is an error. -/
theorem parse_flags_colon (h : ':' ∈ digits ∨ ':' ∈ type) :
    ∃ msg, BrkFlags.parse ⟨brkPid, "0x".toList ++ digits ++ ':' :: type, brkLen⟩ numError 0 =
      .error msg := by
  have haddr : ':' ∈ "0x".toList ++ digits ∨ ':' ∈ type :=
    h.imp_left (List.mem_append_right _)
  obtain ⟨a, b, c, rest, hsplit⟩ := splitOn_colon haddr
  unfold BrkFlags.parse
  dsimp only
  rw [if_pos (isPrefixOf_brkAddr digits type), brkLen_checked, if_neg Bool.false_ne_true, hsplit]
  exact ⟨_, rfl⟩

/-- Without one, the command line reads what the message says. -/
theorem parse_flags_eq (h : ¬ (':' ∈ digits ∨ ':' ∈ type)) :
    (BrkFlags.parse ⟨brkPid, "0x".toList ++ digits ++ ':' :: type, brkLen⟩ numError 0).toOption =
      (BrkOptionsRaw.parse ⟨brkPid, brkLen, type, "0x".toList ++ digits⟩ numError).toOption.map
        fun opts => if opts.brkAddr > 0 then some opts.conf.setBrkKernel else none := by
  have haddr : ':' ∉ "0x".toList ++ digits := by
    intro hmem
    rcases List.mem_append.mp hmem with hprefix | hdigits
    · exact absurd hprefix (by decide)
    · exact h (Or.inl hdigits)
  unfold BrkFlags.parse BrkOptionsRaw.parse
  dsimp only
  rw [if_pos (isPrefixOf_brkAddr digits type), brkLen_checked, if_neg Bool.false_ne_true,
    splitOn_brkAddr haddr fun hmem => h (Or.inr hmem)]
  dsimp only
  cases brkTypeOf type with
  | none => rfl
  | some brkType =>
      cases Text.parseUint (trimHexPrefix ("0x".toList ++ digits)) 16 64 with
      | none => rfl
      | some addr =>
          have hbase : (0 : u64) + BitVec.ofNat 64 addr = BitVec.ofNat 64 addr :=
            BitVec.zero_add _
          dsimp only
          rw [hbase]
          rfl

end Parse

theorem gt_zero_iff (x : u64) : x > 0 ↔ x ≠ 0 := by
  constructor
  · rintro h rfl
    exact absurd h (by decide)
  · intro h
    bv_omega

/-- The two configurations ask for the same breakpoint unless it is in the kernel. -/
theorem getExtraOptions_eq_iff (conf : BrkConf) (h : conf.brkKernel = false) :
    conf.setBrkKernel.getExtraOptions = conf.getExtraOptions ↔
      conf.brkPid = -1 ∨ conf.brkAddr.toNat < 2 ^ 48 := by
  have hkernel : conf.setBrkKernel.brkKernel = true ↔ ¬ conf.brkAddr.toNat < 2 ^ 48 := by
    rw [← kernelMask_eq_zero_iff, ← ne_eq, ← gt_zero_iff]
    exact decide_eq_true_iff
  unfold BrkConf.getExtraOptions
  by_cases hlow : conf.brkAddr.toNat < 2 ^ 48
  · rw [if_neg fun hk => hkernel.mp hk hlow, h, if_neg Bool.false_ne_true]
    exact iff_of_true rfl (Or.inr hlow)
  · rw [if_pos (hkernel.mpr hlow), h, if_neg Bool.false_ne_true, PerfBrk.mk.injEq]
    constructor
    · exact fun heq => Or.inl heq.1.symm
    · intro hpid
      exact ⟨(hpid.resolve_right hlow).symm, rfl, rfl, rfl⟩

/-- With the prefix the two ways agree up to the address. -/
theorem brk_agree_prefixed (brkPid : Int) (brkLen : u64) (digits type : Text)
    (numError : NumError) :
    let raw : BrkOptionsRaw := ⟨brkPid, brkLen, type, "0x".toList ++ digits⟩
    BrkFlags.breakpoint ⟨brkPid, "0x".toList ++ digits ++ ':' :: type, brkLen⟩ numError =
        raw.breakpoint numError ↔
      ∀ opts, raw.parse numError = .ok opts →
        opts.brkAddr ≠ 0 ∧ (opts.brkPid = -1 ∨ opts.brkAddr.toNat < 2 ^ 48) := by
  intro raw
  unfold BrkFlags.breakpoint BrkOptionsRaw.breakpoint
  -- another colon makes both refuse the text
  by_cases hcolon : ':' ∈ digits ∨ ':' ∈ type
  · obtain ⟨msg, hflags⟩ := parse_flags_colon brkPid brkLen numError hcolon
    obtain ⟨msg', hraw⟩ := parse_raw_colon brkPid brkLen numError hcolon
    rw [hflags, hraw]
    refine iff_of_true rfl fun opts hopts => ?_
    cases hopts
  · rw [parse_flags_eq brkPid brkLen numError hcolon]
    cases hraw : raw.parse numError with
    | error msg =>
        refine iff_of_true rfl fun opts hopts => ?_
        cases hopts
    | ok opts =>
        show (if opts.brkAddr > 0 then some opts.conf.setBrkKernel else none).map
            BrkConf.getExtraOptions = some opts.conf.getExtraOptions ↔ _
        by_cases hzero : opts.brkAddr = 0
        · have hnot : ¬ opts.brkAddr > 0 := fun hpos => (gt_zero_iff _).mp hpos hzero
          rw [if_neg hnot]
          exact iff_of_false (by simp) fun h => (h opts rfl).1 hzero
        · rw [if_pos ((gt_zero_iff _).mpr hzero), Option.map_some, Option.some.injEq,
            getExtraOptions_eq_iff opts.conf rfl]
          constructor
          · intro hagree opts' heq
            obtain rfl := Except.ok.inj heq
            exact ⟨hzero, hagree⟩
          · exact fun hall => (hall opts rfl).2

/-- The type does not make up for a missing prefix of the address. -/
theorem isPrefixOf_colon {addr : Text} (type : Text) (h : ¬ "0x".toList <+: addr) :
    "0x".toList.isPrefixOf (addr ++ ':' :: type) = false := by
  match addr, h with
  | [], _ => rfl
  | [_], _ => exact Bool.and_false _
  | c :: d :: rest, h =>
      apply Bool.eq_false_iff.mpr
      intro hprefix
      obtain ⟨tail, htail⟩ := List.isPrefixOf_iff_prefix.mp hprefix
      obtain ⟨hc, htail⟩ := List.cons.inj htail
      obtain ⟨hd, -⟩ := List.cons.inj htail
      exact h ⟨rest, by rw [← hc, ← hd]; rfl⟩

/-- Without the prefix the command line sets no breakpoint, whatever the text says. -/
theorem breakpoint_unprefixed (brkPid : Int) (brkLen : u64) {addr : Text} (type : Text)
    (numError : NumError) (h : ¬ "0x".toList <+: addr) :
    BrkFlags.breakpoint ⟨brkPid, addr ++ ':' :: type, brkLen⟩ numError = none := by
  unfold BrkFlags.breakpoint BrkFlags.parse
  dsimp only
  rw [isPrefixOf_colon type h, if_neg Bool.false_ne_true]
  rfl

/-- **The command line and the server set the same breakpoint,** exactly when the address of the
message, if it has one, is written with its `0x`, is not zero and is not one of the kernel's asked
for in one process. -/
theorem brk_agree_iff (brkPid : Int) (brkLen : u64) (addr type : Text) (numError : NumError) :
    let raw : BrkOptionsRaw := ⟨brkPid, brkLen, type, addr⟩
    BrkFlags.breakpoint ⟨brkPid, addr ++ ':' :: type, brkLen⟩ numError =
        raw.breakpoint numError ↔
      ∀ opts, raw.parse numError = .ok opts → "0x".toList <+: addr ∧
        opts.brkAddr ≠ 0 ∧ (opts.brkPid = -1 ∨ opts.brkAddr.toNat < 2 ^ 48) := by
  intro raw
  by_cases hprefix : "0x".toList <+: addr
  · obtain ⟨digits, rfl⟩ := hprefix
    apply (brk_agree_prefixed brkPid brkLen digits type numError).trans
    constructor
    · exact fun hall opts hopts => ⟨⟨digits, rfl⟩, hall opts hopts⟩
    · exact fun hall opts hopts => (hall opts hopts).2
  · -- `--brk` sets nothing, so that the message must not be read
    rw [breakpoint_unprefixed brkPid brkLen type numError hprefix]
    unfold BrkOptionsRaw.breakpoint
    cases hraw : raw.parse numError with
    | error msg =>
        refine iff_of_true rfl fun opts hopts => ?_
        cases hopts
    | ok opts =>
        apply iff_of_false
        · simp [Except.toOption]
        · exact fun hall => hprefix (hall opts rfl).1

/-! ## The server -/

/-- `RespMsg` -/
structure RespMsg where
  status : Text
  msg : Text
deriving DecidableEq

/-- What the server calls: the JSON library, `strconv`, and the start of the module. -/
structure RpcServer where
  unmarshal : List u8 → Except Text BrkOptionsRaw
  marshal : RespMsg → List u8
  numError : NumError
  /-- Whether the module of `BrkIt` starts; the process exits otherwise. -/
  run : BrkConf → Bool

/-- What a frame has led to: the breakpoint that was set, if any, and the answer. -/
structure Served where
  conf : Option BrkConf
  resp : RespMsg
deriving DecidableEq

/-- A length and that many bytes. -/
def frame (payload : List u8) : List u8 :=
  LittleEndian.ofWord 4 (BitVec.ofNat 32 payload.length) ++ payload

/-- The two reads of `handleConnection`. -/
def readFrame : Reader (List u8) := do
  let size ← Reader.word 4
  Reader.take size.toNat

theorem length_readFrame_lt {buf rest payload : List u8}
    (h : readFrame buf = (some payload, rest)) : rest.length < buf.length := by
  have hlen : 4 ≤ buf.length := by
    by_contra hshort
    have hnone : (readFrame buf).1 = none :=
      Reader.bind_of_none ((Reader.takes_word 4 buf).2 (by omega)) _
    rw [h] at hnone
    cases hnone
  obtain ⟨_, mid, hsize, h⟩ := Reader.bind_eq_some h
  obtain ⟨-, rfl⟩ := Reader.word_eq_some hsize
  obtain ⟨-, rfl⟩ := Reader.take_eq_some h
  simp only [List.length_drop]
  omega

namespace RpcServer

variable (server : RpcServer)

/-- `ParseMsg` -/
def parseMsg (payload : List u8) : Except Text BrkOptions :=
  (server.unmarshal payload).bind fun raw => raw.parse server.numError

/-- The answer to a frame; `none` when the process exits. -/
def answer (payload : List u8) : Option Served :=
  match server.parseMsg payload with
  | .error err => some ⟨none, "error".toList, "ParseMsg failed, err:".toList ++ err⟩
  | .ok opts =>
      if server.run opts.conf then
        some ⟨some opts.conf, "ok".toList, "register breakpoint success".toList⟩
      else none

/-- `handleConnection` on what a client sends. -/
def handleConnection (buf : List u8) : List Served :=
  match _h : readFrame buf with
  | (none, _) => []
  | (some payload, rest) =>
      match server.answer payload with
      | none => []
      | some served => served :: handleConnection rest
termination_by buf.length
decreasing_by exact length_readFrame_lt ‹_›

/-- What the server writes. -/
def output (answers : List Served) : List u8 :=
  answers.flatMap fun served => frame (server.marshal served.resp)

end RpcServer

section Server

variable {server : RpcServer}

/-- A frame is read as its payload, and nothing less is. -/
theorem delimits_frame_payload {payload : List u8} (h : payload.length < 2 ^ 32) :
    Reader.Delimits readFrame (frame payload) payload := by
  have hlen : payload.length = (BitVec.ofNat 32 payload.length).toNat := by
    rw [BitVec.toNat_ofNat, Nat.mod_eq_of_lt (by omega)]
  exact (Reader.delimits_word 4 (BitVec.ofNat 32 payload.length)).bind (Reader.delimits_take hlen)

theorem handleConnection_of_none {buf : List u8} (h : (readFrame buf).1 = none) :
    server.handleConnection buf = [] := by
  rw [RpcServer.handleConnection]
  split
  · rfl
  · rename_i payload rest hread
    rw [hread] at h
    cases h

/-- A whole frame is answered, and the loop goes on behind it. -/
theorem handleConnection_frame {payload : List u8} (h : payload.length < 2 ^ 32)
    (rest : List u8) :
    server.handleConnection (frame payload ++ rest) =
      match server.answer payload with
      | none => []
      | some served => served :: server.handleConnection rest := by
  have hframe := (delimits_frame_payload h).consumes rest
  rw [RpcServer.handleConnection]
  split
  · rename_i hread
    rw [hframe] at hread
    cases hread
  · rename_i payload' rest' hread
    obtain ⟨heq, rfl⟩ := Prod.mk.inj (hframe.symm.trans hread)
    obtain rfl := Option.some.inj heq
    rfl

/-- The frames of a connection are answered one for one, in order, while the breakpoints can be
set. -/
theorem handleConnection_frames {requests : List (List u8)}
    (hrequests : ∀ p ∈ requests, p.length < 2 ^ 32)
    (hruns : ∀ p ∈ requests, (server.answer p).isSome) {rest : List u8}
    (hrest : (readFrame rest).1 = none) :
    (server.handleConnection (requests.flatMap frame ++ rest)).map some =
      requests.map server.answer := by
  induction requests with
  | nil => rw [List.flatMap_nil, List.nil_append, handleConnection_of_none hrest]; rfl
  | cons p requests ih =>
      obtain ⟨hp, hrequests⟩ := List.forall_mem_cons.mp hrequests
      obtain ⟨hrun, hruns⟩ := List.forall_mem_cons.mp hruns
      obtain ⟨served, hserved⟩ := Option.isSome_iff_exists.mp hrun
      rw [List.flatMap_cons, List.append_assoc, handleConnection_frame hp, hserved]
      dsimp only
      rw [List.map_cons, List.map_cons, ih hrequests hruns, hserved]

/-- **The server answers every request.** Whatever the client sends, with the last frame cut off
anywhere, each whole frame gets one answer, in order, as long as the breakpoints can be set; and
the client reads as many answers as it sent requests off what the server writes. -/
theorem answers_readBack (server : RpcServer) {requests : List (List u8)}
    (hrequests : ∀ p ∈ requests, p.length < 2 ^ 32)
    (hruns : ∀ p ∈ requests, (server.answer p).isSome)
    (hresp : ∀ p ∈ requests, ∀ served, server.answer p = some served →
      (server.marshal served.resp).length < 2 ^ 32) {last : List u8}
    (hlast : last.length < 2 ^ 32) {cut : Nat} (hcut : cut < (frame last).length) :
    let answers := server.handleConnection (requests.flatMap frame ++ (frame last).take cut)
    answers.map some = requests.map server.answer ∧
      Reader.each (fun _ => readFrame) requests (server.output answers) =
        (some (answers.map fun served => server.marshal served.resp), []) := by
  intro answers
  have hanswers : answers.map some = requests.map server.answer :=
    handleConnection_frames hrequests hruns ((delimits_frame_payload hlast).cut cut hcut)
  have hlen : requests.length = answers.length := by
    have hmapped := congrArg List.length hanswers
    rw [List.length_map, List.length_map] at hmapped
    exact hmapped.symm
  have hread : Reader.Consumes (Reader.each (fun _ => readFrame) answers) (server.output answers)
      (answers.map fun served => server.marshal served.resp) := by
    refine Reader.consumes_each fun served hserved => ?_
    have hmem := List.mem_map_of_mem (f := some) hserved
    rw [hanswers] at hmem
    obtain ⟨p, hp, heq⟩ := List.mem_map.mp hmem
    exact (delimits_frame_payload (hresp p hp served heq)).consumes
  rw [Reader.each_const readFrame hlen]
  exact ⟨hanswers, hread.run⟩

end Server

/-! ### Two requests -/

/-- `{"brk_pid":-1,"brk_len":4,"brk_type":"x","brk_addr":"0x1000"}` -/
def brkRequest : List u8 :=
  ("\x7b\"brk_pid\":-1,\"brk_len\":4,\"brk_type\":\"x\",\"brk_addr\":\"0x1000\"\x7d".toList).map
    fun c => BitVec.ofNat 8 c.toNat

/-- The JSON library on texts without escapes. -/
def plainServer : RpcServer where
  unmarshal payload :=
    if payload = brkRequest then .ok ⟨-1, 4, "x".toList, "0x1000".toList⟩
    else .error "unexpected end of JSON input".toList
  marshal resp :=
    ("\x7b\"status\":\"".toList ++ resp.status ++ "\",\"msg\":\"".toList ++ resp.msg ++
      "\"\x7d".toList).map fun c => BitVec.ofNat 8 c.toNat
  numError s := s
  run _ := true

/-- A breakpoint is set, an empty request is refused, and a third one does not arrive. -/
theorem answers_readBack_two :
    let answers := plainServer.handleConnection (frame brkRequest ++ frame [] ++ [1, 0, 0])
    answers.map Served.conf = [some ⟨-1, 4, hwBreakpointX, 0x1000, false⟩, none] ∧
      Reader.each (fun _ => readFrame) [brkRequest, []] (plainServer.output answers) =
        (some (answers.map fun served => plainServer.marshal served.resp), []) := by
  intro answers
  have hrequests : ∀ p ∈ [brkRequest, []], p.length < 2 ^ 32 := by decide
  have hruns : ∀ p ∈ [brkRequest, []], (plainServer.answer p).isSome := by decide +kernel
  have hresp : ∀ p ∈ [brkRequest, []], ∀ served, plainServer.answer p = some served →
      (plainServer.marshal served.resp).length < 2 ^ 32 := by
    have hall : ∀ p ∈ [brkRequest, []], ∀ served ∈ plainServer.answer p,
        (plainServer.marshal served.resp).length < 2 ^ 32 := by decide +kernel
    exact fun p hp served h => hall p hp served h
  have hlast : ([0] : List u8).length < 2 ^ 32 := by decide
  have hcut : 3 < (frame [0]).length := by decide
  obtain ⟨hanswers, hread⟩ := answers_readBack plainServer hrequests hruns hresp hlast hcut
  have hconfs := congrArg (List.map fun served => served.bind Served.conf) hanswers
  rw [List.map_map] at hconfs
  refine ⟨?_, hread⟩
  calc answers.map Served.conf
      = [brkRequest, []].map fun p => (plainServer.answer p).bind Served.conf := hconfs
    _ = [some ⟨-1, 4, hwBreakpointX, 0x1000, false⟩, none] := by decide +kernel

end Stackplz
