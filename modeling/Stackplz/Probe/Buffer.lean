import Stackplz.Basic.Bytes
import Stackplz.Probe.Types

/-!
# User memory and the event buffer

What the BPF helpers read from user memory, and the three save functions of `buffer.h`
that append to the event buffer. A save appends all of its bytes or leaves the committed
part of the buffer alone, so the buffer is modelled by its committed bytes and `buf_off` is
their number.
-/

set_option autoImplicit false

namespace Stackplz

/-! ## User memory -/

/-- User memory: `none` marks an address whose read faults. -/
abbrev UserMem := u64 → Option u8

/-- `bpf_probe_read` of `n` bytes; `none` when any of them faults. -/
def UserMem.read (mem : UserMem) : u64 → Nat → Option (List u8)
  | _, 0 => some []
  | addr, n + 1 => do
      let b ← mem addr
      let rest ← UserMem.read mem (addr + 1) n
      return b :: rest

theorem UserMem.length_read {mem : UserMem} {n : Nat} :
    ∀ {addr : u64} {bytes : List u8}, mem.read addr n = some bytes → bytes.length = n := by
  induction n with
  | zero =>
      intro addr bytes h
      obtain rfl : [] = bytes := by simpa [UserMem.read] using h
      rfl
  | succ n ih =>
      intro addr bytes h
      obtain ⟨b, _, rest, hrest, rfl⟩ : ∃ b, mem addr = some b ∧
          ∃ rest, mem.read (addr + 1) n = some rest ∧ b :: rest = bytes := by
        simpa [UserMem.read, Option.bind_eq_some_iff] using h
      rw [List.length_cons, ih hrest]

/-- A part of what was read reads the same. -/
theorem UserMem.read_take {mem : UserMem} {n m : Nat} :
    ∀ {addr : u64} {bytes : List u8}, mem.read addr (n + m) = some bytes →
      mem.read addr n = some (bytes.take n) := by
  induction n with
  | zero =>
      intro addr bytes _
      rw [List.take_zero]
      rfl
  | succ n ih =>
      intro addr bytes h
      rw [Nat.add_right_comm] at h
      simp only [UserMem.read, Option.bind_eq_bind, Option.bind_eq_some_iff] at h ⊢
      obtain ⟨b, hb, rest, hrest, heq⟩ := h
      obtain rfl := Option.some.inj heq
      exact ⟨b, hb, rest.take n, ih hrest, rfl⟩

theorem UserMem.read_drop {mem : UserMem} {n m : Nat} :
    ∀ {addr : u64} {bytes : List u8}, mem.read addr (n + m) = some bytes →
      mem.read (addr + BitVec.ofNat 64 n) m = some (bytes.drop n) := by
  induction n with
  | zero =>
      intro addr bytes h
      rw [Nat.zero_add] at h
      rw [show addr + BitVec.ofNat 64 0 = addr from BitVec.add_zero addr]
      exact h
  | succ n ih =>
      intro addr bytes h
      rw [Nat.add_right_comm] at h
      simp only [UserMem.read, Option.bind_eq_bind, Option.bind_eq_some_iff] at h
      obtain ⟨b, hb, rest, hrest, heq⟩ := h
      obtain rfl := Option.some.inj heq
      have hnext : addr + BitVec.ofNat 64 (n + 1) = addr + 1 + BitVec.ofNat 64 n := by
        rw [BitVec.ofNat_add, BitVec.add_comm (BitVec.ofNat 64 n), ← BitVec.add_assoc]
        rfl
      rw [hnext]
      exact ih hrest

/-- `bpf_probe_read_str` into `size` bytes: the bytes up to and with the terminator, cut to
`size` with a terminator in the last place; `none` when a byte it looks at faults. -/
def UserMem.readStr (mem : UserMem) : u64 → Nat → Option (List u8)
  | _, 0 => some []
  | addr, 1 => (mem addr).map fun _ => [0]
  | addr, n + 2 => do
      let b ← mem addr
      if b = 0 then return [0]
      let rest ← UserMem.readStr mem (addr + 1) (n + 1)
      return b :: rest

theorem UserMem.length_readStr_le {mem : UserMem} {n : Nat} :
    ∀ {addr : u64} {bytes : List u8}, mem.readStr addr n = some bytes → bytes.length ≤ n := by
  induction n with
  | zero =>
      intro addr bytes h
      obtain rfl : [] = bytes := by simpa [UserMem.readStr] using h
      exact Nat.le_refl 0
  | succ n ih =>
      intro addr bytes h
      cases n with
      | zero =>
          obtain ⟨_, _, rfl⟩ : ∃ b, mem addr = some b ∧ [0] = bytes := by
            simpa [UserMem.readStr] using h
          exact Nat.le_refl 1
      | succ n =>
          simp only [UserMem.readStr, Option.bind_eq_bind, Option.bind_eq_some_iff] at h
          obtain ⟨b, _, h⟩ := h
          split at h
          · obtain rfl : [0] = bytes := by simpa using h
            simp
          · obtain ⟨rest, hrest, rfl⟩ : ∃ rest, mem.readStr (addr + 1) (n + 1) = some rest ∧
                b :: rest = bytes := by
              simpa [Option.bind_eq_some_iff] using h
            have := ih hrest
            rw [List.length_cons]
            omega

/-- `bpf_probe_read_user` of one word; a read that faults leaves zero. -/
def UserMem.readWord (mem : UserMem) (addr : u64) : u64 :=
  match mem.read addr ptrSize with
  | some bytes => LittleEndian.toWord 8 bytes
  | none => 0

theorem UserMem.length_getD_read_le (mem : UserMem) (addr : u64) (n : Nat) :
    ((mem.read addr n).getD []).length ≤ n := by
  cases hread : mem.read addr n with
  | none => exact Nat.zero_le n
  | some bytes => exact Nat.le_of_eq (UserMem.length_read hread)

/-- The length of what is read of a string fits in its header. -/
theorem UserMem.length_getD_readStr_lt (mem : UserMem) (addr : u64) :
    ((mem.readStr addr maxStringSize).getD []).length < 2 ^ 32 := by
  have hmax : maxStringSize < 2 ^ 32 := by decide
  cases hread : mem.readStr addr maxStringSize with
  | none => decide
  | some bytes => exact Nat.lt_of_le_of_lt (UserMem.length_readStr_le hread) hmax

/-- Bytes of full length are bytes that could be read. -/
theorem UserMem.length_getD_read_eq_iff (mem : UserMem) (addr : u64) {n : Nat} (hn : n ≠ 0) :
    ((mem.read addr n).getD []).length = n ↔ (mem.read addr n).isSome = true := by
  cases hread : mem.read addr n with
  | none => exact ⟨fun h => absurd h.symm hn, fun h => absurd h Bool.false_ne_true⟩
  | some bytes => exact ⟨fun _ => rfl, fun _ => UserMem.length_read hread⟩

/-- A word inside a struct that was read. -/
theorem UserMem.readWord_of_read {mem : UserMem} {addr : u64} {n m : Nat} {bytes : List u8}
    (h : mem.read addr (n + (ptrSize + m)) = some bytes) :
    mem.readWord (addr + BitVec.ofNat 64 n) = LittleEndian.toWord 8 ((bytes.drop n).take 8) := by
  unfold UserMem.readWord
  rw [UserMem.read_take (UserMem.read_drop h)]
  rfl

/-! ## The event buffer -/

/-- The argument part of `event_data_t`. -/
structure EventData where
  /-- The committed bytes, `args[0 .. buf_off)`. -/
  args : List u8
  argnum : u8
  /-- A ghost: some save was refused because the buffer had too little room. -/
  refused : Bool
deriving DecidableEq

/-- The buffer after `init_program_data`. -/
def EventData.init : EventData := ⟨[], 0, false⟩

def EventData.bufOff (event : EventData) : Nat := event.args.length

/-- A save that is committed: `buf_off` moves past the bytes. -/
def EventData.commit (event : EventData) (bytes : List u8) : EventData :=
  { event with args := event.args ++ bytes, argnum := event.argnum + 1 }

/-- A save that the bounds checks turn down. -/
def EventData.refuse (event : EventData) : EventData := { event with refused := true }

def maxElementSize : Nat := 110

/-- `save_to_submit_buf`: `[index][value]`. The value is a word of the program, whose read
does not fault. The result says whether the save was committed. -/
def saveToSubmitBuf (event : EventData) (value : List u8) (index : u8) : EventData × Bool :=
  if value.length = 0 then (event, false)
  else if event.bufOff > argsBufSize - 1 then (event.refuse, false)
  else if event.bufOff > argsBufSize - (maxElementSize + 1) then (event.refuse, false)
  else (event.commit (index :: value), true)

/-- `save_bytes_to_buf`: `[index][size][bytes]`. Sizes other than `MAX_BYTES_ARR_SIZE` are
masked, so the bytes that follow can be fewer than the size written. -/
def saveBytesToBuf (mem : UserMem) (event : EventData) (ptr : u64) (size : u32) (index : u8) :
    EventData × Bool :=
  if event.bufOff > argsBufSize - 1 then (event.refuse, false)
  else if event.bufOff > argsBufSize - (4 + 1) then (event.refuse, false)
  else if event.bufOff > argsBufSize - (maxBytesArrSize + 1 + 4) then (event.refuse, false)
  else if size > 0 then
    let masked := if size ≠ BitVec.ofNat 32 maxBytesArrSize then
      size &&& (BitVec.ofNat 32 maxBytesArrSize - 1) else size
    match mem.read ptr masked.toNat with
    | some bytes => (event.commit (index :: (LittleEndian.ofWord 4 size ++ bytes)), true)
    | none => (event, false)
  else (event.commit (index :: LittleEndian.ofWord 4 size), true)

/-- `save_str_to_buf`: `[index][size][string]`, terminator included. -/
def saveStrToBuf (mem : UserMem) (event : EventData) (ptr : u64) (index : u8) :
    EventData × Bool :=
  if event.bufOff > argsBufSize - 1 then (event.refuse, false)
  else if event.bufOff > argsBufSize - (maxStringSize + 1 + 4) then (event.refuse, false)
  else
    match mem.readStr ptr maxStringSize with
    | some bytes =>
        (event.commit (index :: (LittleEndian.ofWord 4 (BitVec.ofNat 32 bytes.length) ++ bytes)),
          true)
    | none => (event, false)

/-! ## What a save appends

A save that finds room appends its record; one that does not leaves the mark of a refusal,
which no later save takes back. -/

/-- The last offset at which bytes or a string can still be saved, however few they are. -/
def saveLimit : Nat := argsBufSize - (maxBytesArrSize + 1 + 4)

/-- The last offset at which a word can still be saved. -/
def wordLimit : Nat := argsBufSize - (maxElementSize + 1)

section Specs

variable {mem : UserMem} {event : EventData} {index : u8}

/-- A save of one word into a buffer with room. -/
theorem saveToSubmitBuf_of_room {value : List u8} (hvalue : value.length ≠ 0)
    (hroom : event.bufOff ≤ wordLimit) :
    saveToSubmitBuf event value index = (event.commit (index :: value), true) := by
  have hmax : wordLimit ≤ argsBufSize - 1 := by decide
  unfold saveToSubmitBuf
  rw [if_neg hvalue, if_neg (by omega),
    if_neg (show ¬ event.bufOff > argsBufSize - (maxElementSize + 1) from Nat.not_lt.mpr hroom)]

theorem saveToSubmitBuf_of_full {value : List u8} (hvalue : value.length ≠ 0)
    (hfull : wordLimit < event.bufOff) :
    saveToSubmitBuf event value index = (event.refuse, false) := by
  unfold saveToSubmitBuf
  rw [if_neg hvalue]
  split
  · rfl
  · exact if_pos hfull

theorem saveToSubmitBuf_spec {value : List u8} (hvalue : value.length ≠ 0)
    (h : (saveToSubmitBuf event value index).1.refused = false) :
    event.refused = false ∧
      (saveToSubmitBuf event value index).1.args = event.args ++ index :: value := by
  rcases Nat.lt_or_ge wordLimit event.bufOff with hfull | hroom
  · rw [saveToSubmitBuf_of_full hvalue hfull] at h
    cases h
  · rw [saveToSubmitBuf_of_room hvalue hroom] at h ⊢
    exact ⟨h, rfl⟩

/-- Below the maximum the mask of `save_bytes_to_buf` changes nothing. -/
theorem masked_eq {size : u32} (h : size.toNat ≤ maxBytesArrSize) :
    (if size ≠ BitVec.ofNat 32 maxBytesArrSize then
      size &&& (BitVec.ofNat 32 maxBytesArrSize - 1) else size) = size := by
  split
  · rename_i hne
    have hlt : size.toNat < maxBytesArrSize := by
      have hne' : size.toNat ≠ maxBytesArrSize := fun heq => hne (BitVec.eq_of_toNat_eq heq)
      omega
    apply BitVec.eq_of_toNat_eq
    have hmask : (BitVec.ofNat 32 maxBytesArrSize - 1).toNat = 2 ^ 12 - 1 := by decide
    rw [BitVec.toNat_and, hmask, Nat.and_two_pow_sub_one_eq_mod]
    exact Nat.mod_eq_of_lt hlt
  · rfl

/-- With room, a save of bytes is committed with what was read of the masked size, or nothing could
be read. -/
theorem saveBytesToBuf_of_low {ptr : u64} {size : u32} (hlow : event.bufOff ≤ saveLimit) :
    saveBytesToBuf mem event ptr size index =
      if size > 0 then
        match mem.read ptr (if size ≠ BitVec.ofNat 32 maxBytesArrSize then
          size &&& (BitVec.ofNat 32 maxBytesArrSize - 1) else size).toNat with
        | some bytes => (event.commit (index :: (LittleEndian.ofWord 4 size ++ bytes)), true)
        | none => (event, false)
      else (event.commit (index :: LittleEndian.ofWord 4 size), true) := by
  have hlast : saveLimit ≤ argsBufSize - (4 + 1) := by decide
  have hheader : argsBufSize - (4 + 1) ≤ argsBufSize - 1 := by decide
  unfold saveBytesToBuf
  rw [if_neg (by omega), if_neg (by omega), if_neg
    (show ¬ event.bufOff > argsBufSize - (maxBytesArrSize + 1 + 4) from Nat.not_lt.mpr hlow)]

/-- Up to the maximum the whole size is read. -/
theorem saveBytesToBuf_of_room {ptr : u64} {size : u32} (hsize : size.toNat ≤ maxBytesArrSize)
    (hroom : event.bufOff ≤ saveLimit) :
    saveBytesToBuf mem event ptr size index =
      match mem.read ptr size.toNat with
      | some bytes => (event.commit (index :: (LittleEndian.ofWord 4 size ++ bytes)), true)
      | none => (event, false) := by
  rw [saveBytesToBuf_of_low hroom, masked_eq hsize]
  by_cases hpos : size > 0
  · rw [if_pos hpos]
  · have hzero : size.toNat = 0 := by
      have hle : ¬ 0 < size.toNat := hpos
      omega
    rw [if_neg hpos, hzero]
    show _ = (event.commit (index :: (LittleEndian.ofWord 4 size ++ [])), true)
    rw [List.append_nil]

theorem saveBytesToBuf_of_full (ptr : u64) (size : u32) (hfull : saveLimit < event.bufOff) :
    saveBytesToBuf mem event ptr size index = (event.refuse, false) := by
  unfold saveBytesToBuf
  split
  · rfl
  · split
    · rfl
    · exact if_pos hfull

/-- A save of bytes is committed with what was read, or nothing could be read. -/
theorem saveBytesToBuf_spec {ptr : u64} {size : u32} (hsize : size.toNat ≤ maxBytesArrSize)
    (h : (saveBytesToBuf mem event ptr size index).1.refused = false) :
    (∃ bytes, mem.read ptr size.toNat = some bytes ∧
      saveBytesToBuf mem event ptr size index =
        (event.commit (index :: (LittleEndian.ofWord 4 size ++ bytes)), true)) ∨
      mem.read ptr size.toNat = none ∧
        saveBytesToBuf mem event ptr size index = (event, false) := by
  rcases Nat.lt_or_ge saveLimit event.bufOff with hfull | hroom
  · rw [saveBytesToBuf_of_full ptr size hfull] at h
    cases h
  · rw [saveBytesToBuf_of_room hsize hroom]
    cases mem.read ptr size.toNat with
    | some bytes => exact Or.inl ⟨bytes, rfl, rfl⟩
    | none => exact Or.inr ⟨rfl, rfl⟩

/-- With room, a save of a string is committed with the string, or nothing could be read. -/
theorem saveStrToBuf_of_room {ptr : u64} (hroom : event.bufOff ≤ saveLimit) :
    saveStrToBuf mem event ptr index =
      match mem.readStr ptr maxStringSize with
      | some bytes => (event.commit (index ::
          (LittleEndian.ofWord 4 (BitVec.ofNat 32 bytes.length) ++ bytes)), true)
      | none => (event, false) := by
  have hlast : saveLimit ≤ argsBufSize - 1 := by decide
  unfold saveStrToBuf
  rw [if_neg (by omega), if_neg
    (show ¬ event.bufOff > argsBufSize - (maxStringSize + 1 + 4) from Nat.not_lt.mpr hroom)]

theorem saveStrToBuf_of_full (ptr : u64) (hfull : saveLimit < event.bufOff) :
    saveStrToBuf mem event ptr index = (event.refuse, false) := by
  unfold saveStrToBuf
  split
  · rfl
  · exact if_pos hfull

/-- A save of a string is committed with the string, or nothing could be read. -/
theorem saveStrToBuf_spec {ptr : u64}
    (h : (saveStrToBuf mem event ptr index).1.refused = false) :
    (∃ bytes, mem.readStr ptr maxStringSize = some bytes ∧
      saveStrToBuf mem event ptr index =
        (event.commit (index ::
          (LittleEndian.ofWord 4 (BitVec.ofNat 32 bytes.length) ++ bytes)), true)) ∨
      mem.readStr ptr maxStringSize = none ∧
        saveStrToBuf mem event ptr index = (event, false) := by
  rcases Nat.lt_or_ge saveLimit event.bufOff with hfull | hroom
  · rw [saveStrToBuf_of_full ptr hfull] at h
    cases h
  · rw [saveStrToBuf_of_room hroom]
    cases mem.readStr ptr maxStringSize with
    | some bytes => exact Or.inl ⟨bytes, rfl, rfl⟩
    | none => exact Or.inr ⟨rfl, rfl⟩

end Specs

end Stackplz
