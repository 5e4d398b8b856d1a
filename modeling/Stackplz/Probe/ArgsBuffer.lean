import Stackplz.Basic.Overwrite
import Stackplz.Probe.Buffer

/-!
# The bytes of the event buffer

`save_to_submit_buf`, `save_bytes_to_buf` and `save_str_to_buf` (`buffer.h`) as they write into
`args`: an index byte and a size are written before a save has succeeded, and a failed read
leaves anything in its destination. What counts is the part in front of `buf_off`. The event
buffer of the other modules is this part.
-/

set_option autoImplicit false

namespace Stackplz

/-- The argument part of `event_data_t`, with all bytes of `args`. -/
structure ArgsBuf where
  args : List u8
  size : args.length = argsBufSize
  bufOff : u32
  argnum : u8

namespace ArgsBuf

/-- The buffer after `init_program_data`; `args` is not cleared. -/
def init (args : Vector u8 argsBufSize) : ArgsBuf := ⟨args.toList, by simp, 0, 0⟩

/-- What `args` holds in front of `buf_off`. -/
def committed (b : ArgsBuf) : List u8 := b.args.take b.bufOff.toNat

/-- A write at an offset of `args`; `none` when it goes beyond the end. -/
def write (b : ArgsBuf) (off : Nat) (bytes : List u8) : Option ArgsBuf :=
  if h : off + bytes.length ≤ b.args.length then
    some { b with
      args := Overwrite.write b.args off bytes
      size := (Overwrite.length_write h).trans b.size }
  else none

/-- `buf_off += n; argnum++`. -/
def advance (b : ArgsBuf) (n : u32) : ArgsBuf :=
  { b with bufOff := b.bufOff + n, argnum := b.argnum + 1 }

end ArgsBuf

/-! ## The reads of the helpers -/

/-- `bpf_probe_read` of `n` bytes: what it leaves in its destination, and whether it succeeds. -/
structure ProbeRead (n : Nat) where
  bytes : Vector u8 n
  ok : Bool

/-- `bpf_probe_read_str` into `MAX_STRING_SIZE` bytes: the string when it succeeds, and what it
leaves behind that. -/
structure ProbeReadStr where
  str : Option (List u8)
  behind : List u8
  bound : (str.getD []).length + behind.length ≤ maxStringSize

/-- The size that is read, where it is neither zero nor `MAX_BYTES_ARR_SIZE`. -/
def maskedSize (size : u32) : u32 :=
  if size ≠ BitVec.ofNat 32 maxBytesArrSize then size &&& (BitVec.ofNat 32 maxBytesArrSize - 1)
  else size

namespace ArgsBuf

/-- `save_to_submit_buf`. -/
def saveToSubmitBuf (b : ArgsBuf) (size : u32) (index : u8) (read : ProbeRead size.toNat) :
    Option (ArgsBuf × Bool) := do
  if size = 0 then return (b, false)
  if b.bufOff.toNat > argsBufSize - 1 then return (b, false)
  let b ← b.write b.bufOff.toNat [index]
  if b.bufOff.toNat > argsBufSize - (maxElementSize + 1) then return (b, false)
  let b ← b.write (b.bufOff + 1).toNat read.bytes.toList
  if read.ok then return (b.advance (size + 1), true)
  return (b, false)

/-- `save_bytes_to_buf`. `header` is the read of the size itself: what it leaves when it
fails. -/
def saveBytesToBuf (b : ArgsBuf) (size : u32) (index : u8) (header : Option (Vector u8 4))
    (read : ProbeRead (maskedSize size).toNat) : Option (ArgsBuf × Bool) := do
  if b.bufOff.toNat > argsBufSize - 1 then return (b, false)
  let b ← b.write b.bufOff.toNat [index]
  if b.bufOff.toNat > argsBufSize - (4 + 1) then return (b, false)
  match header with
  | some left =>
      let b ← b.write (b.bufOff + 1).toNat left.toList
      return (b, false)
  | none =>
      let b ← b.write (b.bufOff + 1).toNat (LittleEndian.ofWord 4 size)
      if b.bufOff.toNat > argsBufSize - (maxBytesArrSize + 1 + 4) then return (b, false)
      if size > 0 then
        let b ← b.write ((b.bufOff + 1).toNat + 4) read.bytes.toList
        if read.ok then return (b.advance (maskedSize size + 1 + 4), true)
        return (b, false)
      return (b.advance (size + 1 + 4), true)

/-- `save_str_to_buf`. The second check of the space is the first one again. -/
def saveStrToBuf (b : ArgsBuf) (index : u8) (read : ProbeReadStr) : Option (ArgsBuf × Bool) := do
  if b.bufOff.toNat > argsBufSize - 1 then return (b, false)
  let b ← b.write b.bufOff.toNat [index]
  if b.bufOff.toNat > argsBufSize - (maxStringSize + 1 + 4) then return (b, false)
  let b ← b.write ((b.bufOff + 1).toNat + 4) (read.str.getD [] ++ read.behind)
  match read.str with
  | none => return (b, false)
  | some str =>
      if b.bufOff.toNat > argsBufSize - (maxStringSize + 1 + 4) then return (b, false)
      let sz : u32 := BitVec.ofNat 32 str.length
      let b ← b.write (b.bufOff + 1).toNat (LittleEndian.ofWord 4 sz)
      return (b.advance (sz + 4 + 1), true)

end ArgsBuf

/-! ## Calls -/

/-- A call of one of the three functions, with what its reads do. -/
inductive SaveCall where
  | submit (size : u32) (index : u8) (read : ProbeRead size.toNat)
      (bound : 1 ≤ size.toNat ∧ size.toNat ≤ maxElementSize)
  | bytes (size : u32) (index : u8) (header : Option (Vector u8 4))
      (read : ProbeRead (maskedSize size).toNat)
      (bound : size.toNat ≤ maxBytesArrSize ∨ size = strarrMagicLen)
  | str (index : u8) (read : ProbeReadStr)

namespace SaveCall

/-- What a call appends when it succeeds. -/
def encoding : SaveCall → List u8
  | submit _ index read _ => index :: read.bytes.toList
  | bytes size index _ read _ =>
      index :: (LittleEndian.ofWord 4 size ++
        if size = strarrMagicLen then [] else read.bytes.toList)
  | str index read =>
      let str := read.str.getD []
      index :: (LittleEndian.ofWord 4 (BitVec.ofNat 32 str.length) ++ str)

/-- The call; `none` when it writes outside `args`. -/
def run (b : ArgsBuf) : SaveCall → Option (ArgsBuf × Bool)
  | submit size index read _ => b.saveToSubmitBuf size index read
  | bytes size index header read _ => b.saveBytesToBuf size index header read
  | str index read => b.saveStrToBuf index read

end SaveCall

/-- Calls one after the other: the buffer behind them, and those that returned 1. -/
def ArgsBuf.runAll (b : ArgsBuf) : List SaveCall → Option (ArgsBuf × List SaveCall)
  | [] => some (b, [])
  | c :: cs => do
      let (b, saved) ← c.run b
      let (b, done) ← b.runAll cs
      return (b, if saved then c :: done else done)

/-! ## What a call does -/

namespace ArgsBuf

variable {b b' : ArgsBuf} {bytes : List u8}

theorem write_of_le {off : Nat} (h : off + bytes.length ≤ argsBufSize) :
    ∃ b', b.write off bytes = some b' ∧ b'.args = Overwrite.write b.args off bytes ∧
      b'.bufOff = b.bufOff ∧ b'.argnum = b.argnum := by
  unfold write
  rw [dif_pos (by rw [b.size]; exact h)]
  exact ⟨_, rfl, rfl, rfl, rfl⟩

/-- A buffer in the midst of a save: behind the committed bytes there are those written so
far. -/
structure Front (b b' : ArgsBuf) (bytes : List u8) : Prop where
  bufOff : b'.bufOff = b.bufOff
  argnum : b'.argnum = b.argnum
  front : b'.args.take (b.bufOff.toNat + bytes.length) = b.committed ++ bytes

theorem Front.refl (b : ArgsBuf) : Front b b [] :=
  ⟨rfl, rfl, by rw [List.length_nil, Nat.add_zero, List.append_nil]; rfl⟩

theorem Front.of_append (more : List u8) (h : Front b b' (bytes ++ more))
    (hroom : b.bufOff.toNat ≤ argsBufSize) : Front b b' bytes := by
  refine ⟨h.bufOff, h.argnum, ?_⟩
  have hcommitted : b.committed.length = b.bufOff.toNat := by
    unfold committed
    rw [List.length_take, b.size]
    omega
  have hfront := congrArg (List.take (b.bufOff.toNat + bytes.length)) h.front
  rw [List.take_take, List.length_append, Nat.min_eq_left (by omega), ← List.append_assoc] at hfront
  rw [hfront, List.take_append_of_le_length (by rw [List.length_append]; omega),
    List.take_of_length_le (by rw [List.length_append]; omega)]

/-- The next write of a save goes behind what it has written. -/
theorem Front.overwrite {b'' : ArgsBuf} {more : List u8} {off : Nat} (h : Front b b' bytes)
    (hoff : off = b.bufOff.toNat + bytes.length) (hroom : off ≤ argsBufSize)
    (hargs : b''.args = Overwrite.write b'.args off more) (hbufOff : b''.bufOff = b'.bufOff)
    (hargnum : b''.argnum = b'.argnum) : Front b b'' (bytes ++ more) := by
  refine ⟨hbufOff.trans h.bufOff, hargnum.trans h.argnum, ?_⟩
  rw [hargs, List.length_append, ← Nat.add_assoc, ← hoff,
    Overwrite.take_write_end (by rw [b'.size]; exact hroom), hoff, h.front, List.append_assoc]

theorem Front.write {off : Nat} (h : Front b b' bytes) (more : List u8)
    (hoff : off = b.bufOff.toNat + bytes.length) (hroom : off + more.length ≤ argsBufSize) :
    ∃ b'', b'.write off more = some b'' ∧ Front b b'' (bytes ++ more) := by
  obtain ⟨b'', hwrite, hargs, hbufOff, hargnum⟩ := write_of_le (b := b') hroom
  exact ⟨b'', hwrite, h.overwrite hoff (by omega) hargs hbufOff hargnum⟩

/-- What a call may do to the buffer: `bytes` are appended and counted, or the committed part
is as it was. -/
inductive Outcome (b : ArgsBuf) (bytes : List u8) : ArgsBuf × Bool → Prop where
  | saved {b' : ArgsBuf} (room : b'.bufOff.toNat ≤ argsBufSize)
      (committed : b'.committed = b.committed ++ bytes) (argnum : b'.argnum = b.argnum + 1) :
      Outcome b bytes (b', true)
  | refused {b' : ArgsBuf} (bufOff : b'.bufOff = b.bufOff) (argnum : b'.argnum = b.argnum)
      (committed : b'.committed = b.committed) : Outcome b bytes (b', false)

theorem Front.refused {bytes' : List u8} (h : Front b b' bytes')
    (hroom : b.bufOff.toNat ≤ argsBufSize) : Outcome b bytes (b', false) := by
  have hnone : Front b b' [] := Front.of_append bytes' h hroom
  refine .refused h.bufOff h.argnum ?_
  have hfront := hnone.front
  rw [List.length_nil, Nat.add_zero, List.append_nil] at hfront
  unfold committed
  rw [h.bufOff]
  exact hfront

theorem Front.saved {n : u32} (h : Front b b' bytes) (hn : n.toNat = bytes.length)
    (hroom : b.bufOff.toNat + bytes.length ≤ argsBufSize) :
    Outcome b bytes (b'.advance n, true) := by
  have hsmall : argsBufSize < 2 ^ 32 := by decide
  have hbufOff : (b'.advance n).bufOff.toNat = b.bufOff.toNat + bytes.length := by
    show (b'.bufOff + n).toNat = _
    rw [h.bufOff, BitVec.toNat_add, hn, Nat.mod_eq_of_lt (by omega)]
  refine .saved (by rw [hbufOff]; exact hroom) ?_ ?_
  · unfold committed
    rw [hbufOff]
    exact h.front
  · show b'.argnum + 1 = _
    rw [h.argnum]

theorem toNat_succ (h : b.bufOff.toNat ≤ argsBufSize) :
    (b.bufOff + 1).toNat = b.bufOff.toNat + 1 := by
  have hsmall : argsBufSize < 2 ^ 32 - 1 := by decide
  rw [BitVec.toNat_add]
  exact Nat.mod_eq_of_lt (by show b.bufOff.toNat + 1 < 2 ^ 32; omega)

/-- The index byte fits behind every offset that passes the first check. -/
theorem Front.index (index : u8) (h : ¬ b.bufOff.toNat > argsBufSize - 1) :
    ∃ b', b.write b.bufOff.toNat [index] = some b' ∧ Front b b' [index] := by
  have hpos : 0 < argsBufSize := by decide
  exact (Front.refl b).write [index] (by simp) (by simp; omega)

theorem saveToSubmitBuf_outcome {size : u32} (index : u8) (read : ProbeRead size.toNat)
    (hroom : b.bufOff.toNat ≤ argsBufSize) (hmax : size.toNat ≤ maxElementSize) :
    ∃ r, b.saveToSubmitBuf size index read = some r ∧
      Outcome b (index :: read.bytes.toList) r ∧
        (r.2 = true ↔ size ≠ 0 ∧ b.bufOff.toNat ≤ wordLimit ∧ read.ok = true) := by
  have hlimit : maxElementSize + 1 ≤ argsBufSize := by decide
  have hlast : wordLimit ≤ argsBufSize - 1 := by decide
  have hsmall : argsBufSize < 2 ^ 32 := by decide
  unfold saveToSubmitBuf
  split
  · rename_i hzero
    exact ⟨_, rfl, (Front.refl b).refused hroom, by simp [hzero]⟩
  rename_i hsize
  split
  · rename_i hoff
    exact ⟨_, rfl, (Front.refl b).refused hroom, by simp; omega⟩
  rename_i hoff
  obtain ⟨b₁, hwrite, hfront⟩ := Front.index index hoff
  rw [hwrite, Option.bind_eq_bind, Option.bind_some, hfront.bufOff]
  split
  · rename_i hspace
    have hfull : ¬ b.bufOff.toNat ≤ wordLimit := Nat.not_le.mpr hspace
    exact ⟨_, rfl, hfront.refused hroom, by simp [hfull]⟩
  rename_i hspace
  have hword : b.bufOff.toNat ≤ wordLimit := Nat.not_lt.mp hspace
  obtain ⟨b₂, hwrite₂, hfront₂⟩ := hfront.write read.bytes.toList
    (toNat_succ hroom) (by rw [toNat_succ hroom, Vector.length_toList]; omega)
  rw [hwrite₂, Option.bind_some]
  have hlen : ([index] ++ read.bytes.toList).length = size.toNat + 1 := by simp
  split
  · rename_i hok
    refine ⟨_, rfl, hfront₂.saved ?_ ?_, iff_of_true rfl ⟨hsize, hword, hok⟩⟩
    · rw [hlen, BitVec.toNat_add]
      exact Nat.mod_eq_of_lt (by show size.toNat + 1 < 2 ^ 32; omega)
    · rw [hlen]
      omega
  · rename_i hok
    exact ⟨_, rfl, hfront₂.refused hroom, by simp [hok]⟩

theorem maskedSize_of_le {size : u32} (h : size.toNat ≤ maxBytesArrSize) :
    maskedSize size = size := masked_eq h

theorem toNat_maskedSize_le {size : u32}
    (h : size.toNat ≤ maxBytesArrSize ∨ size = strarrMagicLen) :
    (maskedSize size).toNat ≤ maxBytesArrSize := by
  rcases h with hle | rfl
  · rw [maskedSize_of_le hle]
    exact hle
  · decide

/-- Under the mark no bytes are read. -/
theorem saveBytes_data {size : u32} (read : ProbeRead (maskedSize size).toNat) :
    (if size = strarrMagicLen then [] else read.bytes.toList) = read.bytes.toList := by
  split
  · rename_i hmagic
    have hzero : (maskedSize size).toNat = 0 := by
      rw [hmagic]
      decide
    refine (List.eq_nil_of_length_eq_zero ?_).symm
    rw [Vector.length_toList, hzero]
  · rfl

theorem saveBytesToBuf_outcome {size : u32} (index : u8) (header : Option (Vector u8 4))
    (read : ProbeRead (maskedSize size).toNat) (hroom : b.bufOff.toNat ≤ argsBufSize)
    (hsize : size.toNat ≤ maxBytesArrSize ∨ size = strarrMagicLen) :
    ∃ r, b.saveBytesToBuf size index header read = some r ∧
      Outcome b (index :: (LittleEndian.ofWord 4 size ++
        if size = strarrMagicLen then [] else read.bytes.toList)) r ∧
      (r.2 = true ↔
        b.bufOff.toNat ≤ saveLimit ∧ header = none ∧ (size ≠ 0 → read.ok = true)) := by
  have hlimit : maxBytesArrSize + 1 + 4 ≤ argsBufSize := by decide
  have hlast : saveLimit ≤ argsBufSize - (4 + 1) := by decide
  have hheaders : argsBufSize - (4 + 1) ≤ argsBufSize - 1 := by decide
  have hsmall : argsBufSize < 2 ^ 32 := by decide
  have hmasked := toNat_maskedSize_le hsize
  rw [saveBytes_data read]
  unfold saveBytesToBuf
  split
  · rename_i hoff
    exact ⟨_, rfl, (Front.refl b).refused hroom, by simp; omega⟩
  rename_i hoff
  obtain ⟨b₁, hwrite, hfront⟩ := Front.index index hoff
  rw [hwrite, Option.bind_eq_bind, Option.bind_some, hfront.bufOff]
  split
  · rename_i hheader
    exact ⟨_, rfl, hfront.refused hroom, by simp; omega⟩
  rename_i hheader
  cases header with
  | some left =>
      obtain ⟨b₂, hwrite₂, hfront₂⟩ := hfront.write left.toList
        (toNat_succ hroom) (by rw [toNat_succ hroom, Vector.length_toList]; omega)
      dsimp only
      rw [hwrite₂, Option.bind_some]
      exact ⟨_, rfl, hfront₂.refused hroom, by simp⟩
  | none =>
      obtain ⟨b₂, hwrite₂, hfront₂⟩ := hfront.write (LittleEndian.ofWord 4 size)
        (toNat_succ hroom) (by rw [toNat_succ hroom, LittleEndian.length_ofWord]; omega)
      dsimp only
      rw [hwrite₂, Option.bind_some, hfront₂.bufOff]
      split
      · rename_i hspace
        have hfull : ¬ b.bufOff.toNat ≤ saveLimit := Nat.not_le.mpr hspace
        exact ⟨_, rfl, hfront₂.refused hroom, by simp [hfull]⟩
      rename_i hspace
      have hlow : b.bufOff.toNat ≤ saveLimit := Nat.not_lt.mp hspace
      split
      · rename_i hpos
        have hsome : size ≠ 0 := by
          rintro rfl
          exact absurd hpos (by decide)
        obtain ⟨b₃, hwrite₃, hfront₃⟩ := hfront₂.write read.bytes.toList
          (show (b.bufOff + 1).toNat + 4 = _ by rw [toNat_succ hroom]; simp)
          (by rw [toNat_succ hroom, Vector.length_toList]; omega)
        rw [hwrite₃, Option.bind_some]
        split
        · rename_i hok
          have hlen : ([index] ++ LittleEndian.ofWord 4 size ++ read.bytes.toList).length =
              (maskedSize size).toNat + 5 := by
            simp only [List.length_append, List.length_singleton, LittleEndian.length_ofWord,
              Vector.length_toList]
            omega
          refine ⟨_, rfl, hfront₃.saved ?_ ?_, iff_of_true rfl ⟨hlow, rfl, fun _ => hok⟩⟩
          · rw [hlen]
            bv_omega
          · rw [hlen]
            omega
        · rename_i hok
          exact ⟨_, rfl, hfront₃.refused hroom,
            iff_of_false Bool.false_ne_true fun h => hok (h.2.2 hsome)⟩
      · rename_i hpos
        have hzero : size = 0 := by bv_omega
        subst hzero
        have hnone : read.bytes.toList = [] :=
          List.eq_nil_of_length_eq_zero (by rw [Vector.length_toList]; decide)
        rw [hnone, List.append_nil]
        refine ⟨_, rfl, hfront₂.saved (by simp) ?_,
          iff_of_true rfl ⟨hlow, rfl, fun h => absurd rfl h⟩⟩
        simp
        omega

theorem saveStrToBuf_outcome (index : u8) (read : ProbeReadStr)
    (hroom : b.bufOff.toNat ≤ argsBufSize) :
    ∃ r, b.saveStrToBuf index read = some r ∧
      Outcome b (index :: (LittleEndian.ofWord 4 (BitVec.ofNat 32 (read.str.getD []).length) ++
        read.str.getD [])) r ∧
      (r.2 = true ↔ b.bufOff.toNat ≤ saveLimit ∧ read.str.isSome = true) := by
  have hlast : saveLimit ≤ argsBufSize - 1 := by decide
  have hlimit : maxStringSize + 1 + 4 ≤ argsBufSize := by decide
  have hsmall : argsBufSize < 2 ^ 32 := by decide
  have hread := read.bound
  unfold saveStrToBuf
  split
  · rename_i hoff
    exact ⟨_, rfl, (Front.refl b).refused hroom, by simp; omega⟩
  rename_i hoff
  obtain ⟨b₁, hwrite, hfront⟩ := Front.index index hoff
  rw [hwrite, Option.bind_eq_bind, Option.bind_some, hfront.bufOff]
  split
  · rename_i hspace
    have hfull : ¬ b.bufOff.toNat ≤ saveLimit := Nat.not_le.mpr hspace
    exact ⟨_, rfl, hfront.refused hroom, by simp [hfull]⟩
  rename_i hspace
  have hdata : (b.bufOff + 1).toNat + 4 + (read.str.getD [] ++ read.behind).length ≤
      argsBufSize := by
    rw [toNat_succ hroom, List.length_append]
    omega
  obtain ⟨b₂, hwrite₂, hargs₂, hbufOff₂, hargnum₂⟩ := write_of_le (b := b₁) hdata
  have hfront₂ : Front b b₂ [index] := by
    refine ⟨hbufOff₂.trans hfront.bufOff, hargnum₂.trans hfront.argnum, ?_⟩
    rw [hargs₂, Overwrite.take_write (by rw [toNat_succ hroom]; simp) (by rw [b₁.size]; omega)]
    exact hfront.front
  rw [hwrite₂, Option.bind_some, hfront₂.bufOff]
  cases hstr : read.str with
  | none => exact ⟨_, rfl, hfront₂.refused hroom, by simp⟩
  | some str =>
      dsimp only
      rw [if_neg hspace]
      have hheader (l : u32) :
          (b.bufOff + 1).toNat + (LittleEndian.ofWord 4 l).length ≤ argsBufSize := by
        rw [toNat_succ hroom, LittleEndian.length_ofWord]
        omega
      obtain ⟨b₃, hwrite₃, hargs₃, hbufOff₃, hargnum₃⟩ :=
        write_of_le (b := b₂) (hheader (BitVec.ofNat 32 str.length))
      -- the size in front of the string, as if it had been written first
      obtain ⟨c₂, -, hargsc, hbufOffc, hargnumc⟩ :=
        write_of_le (b := b₁) (hheader (BitVec.ofNat 32 str.length))
      have hfrontc := hfront.overwrite (toNat_succ hroom) (by omega) hargsc hbufOffc hargnumc
      have hfront₃ : Front b b₃ ([index] ++ LittleEndian.ofWord 4 (BitVec.ofNat 32 str.length) ++
          (read.str.getD [] ++ read.behind)) := by
        have hoff₃ : (b.bufOff + 1).toNat + 4 = b.bufOff.toNat +
            ([index] ++ LittleEndian.ofWord 4 (BitVec.ofNat 32 str.length)).length := by
          rw [toNat_succ hroom]
          simp
        refine hfrontc.overwrite hoff₃ (by omega) ?_ ?_ ?_
        · rw [hargs₃, hargs₂, hargsc, Overwrite.write_comm (by simp) (by rw [b₁.size]; exact hdata)]
        · rw [hbufOff₃, hbufOff₂, hbufOffc]
        · rw [hargnum₃, hargnum₂, hargnumc]
      rw [hwrite₃, Option.bind_some]
      rw [hstr, ← List.append_assoc, Option.getD_some] at hfront₃
      have hshort : str.length ≤ maxStringSize := by
        rw [hstr, Option.getD_some] at hread
        omega
      have hlen : ([index] ++ LittleEndian.ofWord 4 (BitVec.ofNat 32 str.length) ++ str).length =
          str.length + 5 := by
        simp only [List.length_append, List.length_singleton, LittleEndian.length_ofWord]
        omega
      have hmax : maxStringSize < 2 ^ 31 := by decide
      refine ⟨_, rfl, (hfront₃.of_append _ hroom).saved ?_ ?_,
        iff_of_true rfl ⟨Nat.not_lt.mp hspace, rfl⟩⟩
      · have hsz : (BitVec.ofNat 32 str.length).toNat = str.length := by
          rw [BitVec.toNat_ofNat, Nat.mod_eq_of_lt (by omega)]
        rw [hlen]
        bv_omega
      · rw [hlen]
        omega

end ArgsBuf

/-- There is room for what a call saves, and its reads succeed. -/
def SaveCall.Succeeds (b : ArgsBuf) : SaveCall → Prop
  | submit size _ read _ => size ≠ 0 ∧ b.bufOff.toNat ≤ wordLimit ∧ read.ok = true
  | bytes size _ header read _ =>
      b.bufOff.toNat ≤ saveLimit ∧ header = none ∧ (size ≠ 0 → read.ok = true)
  | str _ read => b.bufOff.toNat ≤ saveLimit ∧ read.str.isSome = true

/-- Every call stays inside `args`, and returns 1 or leaves what is committed as it was. -/
theorem SaveCall.run_outcome {b : ArgsBuf} (hroom : b.bufOff.toNat ≤ argsBufSize) (c : SaveCall) :
    ∃ r, c.run b = some r ∧ b.Outcome c.encoding r ∧ (r.2 = true ↔ c.Succeeds b) := by
  cases c with
  | submit size index read bound =>
      exact ArgsBuf.saveToSubmitBuf_outcome index read hroom bound.2
  | bytes size index header read bound =>
      exact ArgsBuf.saveBytesToBuf_outcome index header read hroom bound
  | str index read => exact ArgsBuf.saveStrToBuf_outcome index read hroom

/-! ## The committed part

The event buffer of the other modules has no bytes behind `buf_off`. It is what the calls above
commit when their reads do what user memory says. -/

/-- The committed part; `refused` is the mark that no code looks at. -/
def ArgsBuf.eventData (b : ArgsBuf) (refused : Bool) : EventData := ⟨b.committed, b.argnum, refused⟩

/-- `bpf_probe_read`; a read that faults leaves zeros. -/
def UserMem.probeRead (mem : UserMem) (ptr : u64) (n : Nat) : ProbeRead n :=
  match h : mem.read ptr n with
  | some bytes => ⟨⟨bytes.toArray, by simp [UserMem.length_read h]⟩, true⟩
  | none => ⟨Vector.replicate n 0, false⟩

/-- `bpf_probe_read_str`. -/
def UserMem.probeReadStr (mem : UserMem) (ptr : u64) : ProbeReadStr where
  str := mem.readStr ptr maxStringSize
  behind := []
  bound := by
    cases h : mem.readStr ptr maxStringSize with
    | none => exact Nat.zero_le _
    | some str => exact UserMem.length_readStr_le h

namespace ArgsBuf

variable {b : ArgsBuf} {mem : UserMem} {ptr : u64} {refused : Bool}

theorem bufOff_eventData (refused : Bool) (hroom : b.bufOff.toNat ≤ argsBufSize) :
    (b.eventData refused).bufOff = b.bufOff.toNat := by
  show b.committed.length = _
  unfold committed
  rw [List.length_take, b.size]
  omega

/-- A save of the committed part ends as a call does, up to the mark. -/
def Refines (r : ArgsBuf × Bool) (e : EventData × Bool) : Prop :=
  e.2 = r.2 ∧ e.1 = r.1.eventData e.1.refused

/-- A save of the committed part does what the call does when it succeeds under the same
condition. -/
theorem Outcome.refines {bytes : List u8} {cond : Prop} {r : ArgsBuf × Bool}
    {e : EventData × Bool} (refused : Bool) (h : Outcome b bytes r) (hr : r.2 = true ↔ cond)
    (hsave : cond → e = ((b.eventData refused).commit bytes, true))
    (hkeep : ¬ cond → e.2 = false ∧ e.1.args = b.committed ∧ e.1.argnum = b.argnum) :
    Refines r e := by
  cases h with
  | saved room committed argnum =>
      rw [hsave (hr.mp rfl)]
      refine ⟨rfl, ?_⟩
      simp only [eventData, EventData.commit, committed, argnum]
  | refused bufOff argnum committed =>
      obtain ⟨hfalse, hargs, hargnum⟩ := hkeep fun hcond => Bool.false_ne_true (hr.mpr hcond)
      refine ⟨hfalse, ?_⟩
      unfold eventData
      rw [committed, argnum, ← hargs, ← hargnum]

theorem saveToSubmitBuf_refines (hroom : b.bufOff.toNat ≤ argsBufSize) (value : List u8)
    (index : u8) {size : u32} (hsize : value.length = size.toNat) (hpos : size ≠ 0)
    (hmax : size.toNat ≤ maxElementSize) :
    ∃ r, b.saveToSubmitBuf size index ⟨⟨value.toArray, hsize⟩, true⟩ = some r ∧
      Refines r (Stackplz.saveToSubmitBuf (b.eventData refused) value index) := by
  obtain ⟨r, hrun, houtcome, hsaved⟩ :=
    saveToSubmitBuf_outcome index ⟨⟨value.toArray, hsize⟩, true⟩ hroom hmax
  have hvalue : value.length ≠ 0 := fun h => hpos (BitVec.eq_of_toNat_eq (hsize.symm.trans h))
  have hoff := bufOff_eventData refused hroom
  refine ⟨r, hrun, houtcome.refines refused hsaved (fun h => ?_) fun h => ?_⟩
  · rw [saveToSubmitBuf_of_room hvalue (hoff ▸ h.2.1)]
    rfl
  · have hfull : wordLimit < b.bufOff.toNat := Nat.not_le.mp fun hle => h ⟨hpos, hle, rfl⟩
    rw [saveToSubmitBuf_of_full hvalue (hoff ▸ hfull)]
    exact ⟨rfl, rfl, rfl⟩

theorem probeRead_of_some {n : Nat} {bytes : List u8} (h : mem.read ptr n = some bytes) :
    (mem.probeRead ptr n).bytes.toList = bytes ∧ (mem.probeRead ptr n).ok = true := by
  unfold UserMem.probeRead
  split
  · rename_i bytes' h'
    rw [h] at h'
    obtain rfl := Option.some.inj h'
    exact ⟨rfl, rfl⟩
  · rename_i h'
    rw [h] at h'
    cases h'

theorem probeRead_of_none {n : Nat} (h : mem.read ptr n = none) :
    (mem.probeRead ptr n).ok = false := by
  unfold UserMem.probeRead
  split
  · rename_i bytes' h'
    rw [h] at h'
    cases h'
  · rfl

theorem saveBytesToBuf_of_low {event : EventData} {index : u8} {size : u32}
    (hlow : event.bufOff ≤ saveLimit) :
    Stackplz.saveBytesToBuf mem event ptr size index =
      if size > 0 then
        match mem.read ptr (maskedSize size).toNat with
        | some bytes => (event.commit (index :: (LittleEndian.ofWord 4 size ++ bytes)), true)
        | none => (event, false)
      else (event.commit (index :: LittleEndian.ofWord 4 size), true) :=
  Stackplz.saveBytesToBuf_of_low hlow

theorem saveBytesToBuf_refines (hroom : b.bufOff.toNat ≤ argsBufSize) (index : u8) {size : u32}
    (hsize : size.toNat ≤ maxBytesArrSize ∨ size = strarrMagicLen) :
    ∃ r, b.saveBytesToBuf size index none (mem.probeRead ptr (maskedSize size).toNat) = some r ∧
      Refines r (Stackplz.saveBytesToBuf mem (b.eventData refused) ptr size index) := by
  obtain ⟨r, hrun, houtcome, hsaved⟩ := saveBytesToBuf_outcome index none
    (mem.probeRead ptr (maskedSize size).toNat) hroom hsize
  rw [saveBytes_data] at houtcome
  have hoff := bufOff_eventData refused hroom
  refine ⟨r, hrun, ?_⟩
  rcases Nat.lt_or_ge saveLimit b.bufOff.toNat with hfull | hlow
  · rw [saveBytesToBuf_of_full ptr size (hoff ▸ hfull)]
    refine houtcome.refines refused hsaved (fun h => ?_) fun _ => ⟨rfl, rfl, rfl⟩
    exact absurd h.1 (Nat.not_le.mpr hfull)
  rw [saveBytesToBuf_of_low (hoff ▸ hlow)]
  by_cases hzero : size = 0
  · subst hzero
    have hnone : (mem.probeRead ptr (maskedSize 0).toNat).bytes.toList = [] :=
      List.eq_nil_of_length_eq_zero (by rw [Vector.length_toList]; decide)
    rw [hnone, List.append_nil] at houtcome
    rw [if_neg (by decide)]
    refine houtcome.refines refused hsaved (fun _ => rfl) fun h => ?_
    exact absurd ⟨hlow, rfl, fun h => absurd rfl h⟩ h
  · rw [if_pos (show size > 0 by bv_omega)]
    cases hread : mem.read ptr (maskedSize size).toNat with
    | some bytes =>
        obtain ⟨hbytes, hok⟩ := probeRead_of_some hread
        rw [hbytes] at houtcome
        refine houtcome.refines refused hsaved (fun _ => rfl) fun h => ?_
        exact absurd ⟨hlow, rfl, fun _ => hok⟩ h
    | none =>
        have hok := probeRead_of_none hread
        refine houtcome.refines refused hsaved (fun h => ?_) fun _ => ⟨rfl, rfl, rfl⟩
        have htrue := h.2.2 hzero
        rw [hok] at htrue
        cases htrue

theorem saveStrToBuf_refines (hroom : b.bufOff.toNat ≤ argsBufSize) (index : u8) :
    ∃ r, b.saveStrToBuf index (mem.probeReadStr ptr) = some r ∧
      Refines r (Stackplz.saveStrToBuf mem (b.eventData refused) ptr index) := by
  obtain ⟨r, hrun, houtcome, hsaved⟩ := saveStrToBuf_outcome index (mem.probeReadStr ptr) hroom
  have hoff := bufOff_eventData refused hroom
  refine ⟨r, hrun, houtcome.refines refused hsaved (fun h => ?_) fun h => ?_⟩
  · obtain ⟨str, hstr⟩ := Option.isSome_iff_exists.mp h.2
    rw [saveStrToBuf_of_room (hoff ▸ h.1), show mem.readStr ptr maxStringSize = some str from hstr]
    rw [hstr]
    rfl
  · rcases Nat.lt_or_ge saveLimit b.bufOff.toNat with hfull | hlow
    · rw [saveStrToBuf_of_full ptr (hoff ▸ hfull)]
      exact ⟨rfl, rfl, rfl⟩
    · have hnone : mem.readStr ptr maxStringSize = none :=
        Option.not_isSome_iff_eq_none.mp fun hsome => h ⟨hlow, hsome⟩
      rw [saveStrToBuf_of_room (hoff ▸ hlow), hnone]
      exact ⟨rfl, rfl, rfl⟩

end ArgsBuf

/-! ## Sequences of calls -/

/-- The buffer holds what the calls that returned 1 have saved. -/
structure ArgsBuf.Holds (b : ArgsBuf) (done : List SaveCall) : Prop where
  room : b.bufOff.toNat ≤ argsBufSize
  contents : b.committed = done.flatMap SaveCall.encoding
  count : b.argnum = BitVec.ofNat 8 done.length

theorem ArgsBuf.holds_init (args : Vector u8 argsBufSize) : (ArgsBuf.init args).Holds [] :=
  ⟨Nat.zero_le _, List.take_zero, rfl⟩

/-- One call: it is added to those that have saved, or the buffer holds what it held. -/
theorem ArgsBuf.Holds.run {b : ArgsBuf} {done : List SaveCall} (h : b.Holds done) (c : SaveCall) :
    ∃ b' saved, c.run b = some (b', saved) ∧ b'.Holds (done ++ if saved then [c] else []) := by
  obtain ⟨r, hrun, houtcome, -⟩ := SaveCall.run_outcome h.room c
  cases houtcome with
  | saved room committed argnum =>
      refine ⟨_, true, hrun, room, ?_, ?_⟩
      · rw [committed, h.contents, if_pos rfl, List.flatMap_append, List.flatMap_singleton]
      · rw [argnum, h.count, if_pos rfl, List.length_append, List.length_singleton,
          BitVec.ofNat_add]
        rfl
  | refused bufOff argnum committed =>
      refine ⟨_, false, hrun, by rw [bufOff]; exact h.room, ?_, ?_⟩
      · rw [committed, h.contents]
        simp
      · rw [argnum, h.count]
        simp

theorem ArgsBuf.Holds.runAll (cs : List SaveCall) : ∀ {b : ArgsBuf} {done : List SaveCall},
    b.Holds done → ∃ b' more, b.runAll cs = some (b', more) ∧ b'.Holds (done ++ more) := by
  induction cs with
  | nil => exact fun {b done} h => ⟨b, [], rfl, by rwa [List.append_nil]⟩
  | cons c cs ih =>
      intro b done h
      obtain ⟨b₁, saved, hrun, h₁⟩ := h.run c
      obtain ⟨b₂, more, hrest, h₂⟩ := ih h₁
      refine ⟨b₂, (if saved then [c] else []) ++ more, ?_, by rwa [← List.append_assoc]⟩
      rw [ArgsBuf.runAll, hrun, Option.bind_eq_bind, Option.bind_some]
      dsimp only
      rw [hrest, Option.bind_eq_bind, Option.bind_some]
      cases saved <;> rfl

/-- **The event buffer.** Whatever was called and whatever the reads have done, no write has
left `args`, and `args` holds in front of `buf_off` what the calls that returned 1 have saved.
A next call that returns 0 changes nothing of it. -/
theorem saves_keep_buffer (args : Vector u8 argsBufSize) (calls : List SaveCall) :
    ∃ b done, (ArgsBuf.init args).runAll calls = some (b, done) ∧ b.Holds done ∧
      ∀ c : SaveCall, ∃ b' saved, c.run b = some (b', saved) ∧
        (saved = false → b'.bufOff = b.bufOff ∧ b'.argnum = b.argnum ∧
          b'.args.take b.bufOff.toNat = b.args.take b.bufOff.toNat) := by
  obtain ⟨b, done, hrun, hholds⟩ := ArgsBuf.Holds.runAll calls (ArgsBuf.holds_init args)
  refine ⟨b, done, hrun, hholds, fun c => ?_⟩
  obtain ⟨r, hcall, houtcome, -⟩ := SaveCall.run_outcome hholds.room c
  cases houtcome with
  | saved room committed argnum => exact ⟨_, true, hcall, fun h => by cases h⟩
  | @refused b' bufOff argnum committed =>
      refine ⟨b', false, hcall, fun _ => ⟨bufOff, argnum, ?_⟩⟩
      unfold ArgsBuf.committed at committed
      rwa [bufOff] at committed

end Stackplz
