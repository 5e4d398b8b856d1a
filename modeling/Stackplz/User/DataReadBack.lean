import Stackplz.User.RetArg

/-!
# Reading the data of a type back

`dataAt` says which records the op list of a type appends, for every type and with its loops.
This file is the other side: the parser of the type takes these records off the front of the
buffer, under whatever indices they were saved, and shows the payloads of all of them
(`consumes_dataAt`). `Readable` lists what the parser asks of the memory: a struct of the size
that it decodes, a vector of as many elements as it looks for, an array whose null entry is not
a string.
-/

set_option autoImplicit false

namespace Stackplz

/-! ## Records one by one -/

/-- The payload of a record, where it is shown; a word that is saved beside a payload is not. -/
def DataRecord.shown : DataRecord → Option (List u8)
  | word _ => none
  | bytes payload => some payload
  | entry s => s

namespace Encodes

theorem nil_inv {bytes : List u8} (h : Encodes [] bytes) : bytes = [] := by
  cases h
  rfl

theorem cons_inv {r : DataRecord} {records : List DataRecord} {bytes : List u8}
    (h : Encodes (r :: records) bytes) :
    ∃ index rest, bytes = r.encode index ++ rest ∧ Encodes records rest := by
  cases h with
  | @cons _ index _ rest h => exact ⟨index, rest, rfl, h⟩

theorem append_inv {records records' : List DataRecord} :
    ∀ {bytes : List u8}, Encodes (records ++ records') bytes →
      ∃ front back, bytes = front ++ back ∧ Encodes records front ∧ Encodes records' back := by
  induction records with
  | nil => exact fun h => ⟨[], _, rfl, .nil, h⟩
  | cons r records ih =>
      intro bytes h
      obtain ⟨index, rest, rfl, hrest⟩ := cons_inv h
      obtain ⟨front, back, rfl, hfront, hback⟩ := ih hrest
      exact ⟨_, back, (List.append_assoc ..).symm, .cons r index hfront, hback⟩

/-- Records that are no array entries are records of the probe. -/
theorem written {log : List Saved} :
    ∀ {bytes : List u8}, Encodes (log.map DataRecord.ofSaved) bytes → Written log bytes := by
  induction log with
  | nil =>
      intro bytes h
      rw [nil_inv h]
      exact .nil
  | cons s log ih =>
      intro bytes h
      obtain ⟨index, rest, rfl, hrest⟩ := cons_inv h
      cases s with
      | word value => exact .cons (.word value) index (ih hrest)
      | bytes payload => exact .cons (.bytes payload) index (ih hrest)

/-- A vector of payloads is the log of the structs with their buffers. -/
theorem written_iovecs {records : List (List u8 × List u8)} {bytes : List u8}
    (h : Encodes ((iovecPayloads records).map DataRecord.bytes) bytes) :
    Written (iovecLog records) bytes := by
  rw [← map_iovecLog] at h
  exact h.written

end Encodes

/-! ## What a parser asks of the memory -/

/-- The header that a struct parser reads before its `record` bytes: nothing was saved, or as many
bytes as it decodes. -/
def WholeStruct (mem : UserMem) (addr : u64) (size : u32) (record : Nat) : Prop :=
  structBytes mem addr size = [] ∨ (size.toNat ≤ maxBytesArrSize ∧ record = size.toNat)

/-- The vector at an address has one to six elements, each of which can be read. -/
def WholeVector (mem : UserMem) (count addr : u64) : Prop :=
  1 ≤ count.toNat ∧ count.toNat ≤ 6 ∧ ∀ i < count.toNat,
    (mem.read (untag (addr + BitVec.ofNat 64 (iovecSize * i))) iovecSize).isSome = true

namespace ArgType

/-- The data at an address is such that the parser of the type reads it back. -/
def Readable (env : ProbeEnv) : ArgType → u64 → Prop
  | num _ _, _ | pointer _, _ => True
  | string, _ | stdString, _ | buffer, _ | bufferLen _, _ | bufferReg _, _ => True
  | pointerTo target _, addr => target.Readable env (untag addr)
  | stringArray, _ => env.mem 0 = none
  | struct type, addr => WholeStruct env.mem addr type.size type.record
  | array elem _ length, addr =>
      structBytes env.mem addr (elem.size * length) = [] ∨
        ∃ size, elem.elemSize = some size ∧ size * length.toNat ≤ maxBytesArrSize
  -- the parser starts with a count, which the op list of a single `iovec` does not save
  | iovec, _ => False
  | iovecReg regIndex, addr => WholeVector env.mem ((iovecReg regIndex).vectorCount env addr) addr
  | msghdr, addr =>
      msghdr.HeaderReadable env addr ∧
        WholeVector env.mem (msghdr.vectorCount env addr) (msghdr.vectorBase env addr)
  | parent, _ => False

/-- What the parser shows of the data at an address. -/
def shownAt (env : ProbeEnv) (ty : ArgType) (addr : u64) : List (List u8) :=
  (ty.dataAt env addr).filterMap DataRecord.shown

end ArgType

/-! ## Single records -/

section Single

variable {mem : UserMem} {addr : u64} {bytes payload : List u8}

/-- One record of bytes, whatever its index. -/
theorem encodes_bytes (h : Encodes [.bytes payload] bytes) :
    ∃ index, bytes = Saved.encode index (.bytes payload) := by
  obtain ⟨index, rest, rfl, hrest⟩ := h.cons_inv
  rw [hrest.nil_inv, List.append_nil]
  exact ⟨index, rfl⟩

theorem consumes_one (hlen : payload.length < 2 ^ 32) (h : Encodes [.bytes payload] bytes) :
    Reader.Consumes (do return [← readPayload]) bytes [payload] := by
  obtain ⟨index, rfl⟩ := encodes_bytes h
  exact (consumes_bytes index hlen).bind_pure fun payload => [payload]

/-- The header of a record, for a reader that looks at the length itself. -/
theorem consumes_header {α : Type} {f : u32 → Reader α} {a : α} (index : u8)
    (hf : Reader.Consumes (f (BitVec.ofNat 32 payload.length)) payload a) :
    Reader.Consumes (readLen >>= f) (Saved.encode index (.bytes payload)) a :=
  (consumes_readLen index (BitVec.ofNat 32 payload.length)).bind hf

/-- The bytes of a struct have its size, cut to what one save holds, or there are none. -/
theorem structBytes_length (mem : UserMem) (addr : u64) {size : u32}
    (hsize : size.toNat ≤ maxBytesArrSize) :
    structBytes mem addr size = [] ∨ (structBytes mem addr size).length = size.toNat := by
  have hcut : ¬ size > BitVec.ofNat 32 maxBytesArrSize := Nat.not_lt.mpr hsize
  unfold structBytes
  rw [if_neg hcut]
  cases hread : mem.read (untag addr) size.toNat with
  | none => exact Or.inl rfl
  | some bytes => exact Or.inr (UserMem.length_read hread)

theorem ofNat_structBytes {size : u32} (h : payload.length = size.toNat) :
    BitVec.ofNat 32 payload.length = size := by
  rw [h]
  exact BitVec.ofNat_toNat 32 size ▸ BitVec.setWidth_eq size

/-- A reader that stops at a length other than the expected one, and shows nothing for none. -/
theorem consumes_sized {size : u32} {r : Reader (List u8)} (index : u8)
    (h : payload = [] ∨ (payload.length = size.toNat ∧ Reader.Consumes r payload payload)) :
    Reader.Consumes (readLen >>= fun len =>
      if (len > 0 && decide (len ≠ size)) = true then Reader.stop
      else if len = 0 then return [] else r) (Saved.encode index (.bytes payload)) payload := by
  refine consumes_header index ?_
  rcases h with rfl | ⟨hlen, hread⟩
  · exact Reader.consumes_pure []
  · rw [ofNat_structBytes hlen, if_neg (by simp)]
    by_cases hzero : size = 0
    · have hnil : payload = [] := by
        apply List.eq_nil_of_length_eq_zero
        rw [hlen, hzero]
        rfl
      rw [if_pos hzero, hnil]
      exact Reader.consumes_pure []
    · rw [if_neg hzero]
      exact hread

end Single

/-! ## Arrays of strings -/

section Strings

variable {mem : UserMem}

/-- A pointer without a string ends the array. -/
theorem consumes_mark (ptr : u64) (index index' : u8) (n : Nat) :
    Reader.Consumes (readStrings (n + 1))
      (Saved.encode index (.word ptr) ++ stringRecord index' none) [] := by
  have hmark : Reader.Consumes readString (stringRecord index' none) none :=
    consumes_stringRecord index' nofun
  rw [readStrings_succ, ← List.append_nil (stringRecord _ _)]
  exact (consumes_readReg index ptr).bind (hmark.bind (Reader.consumes_pure []))

/-- A pointer with its string, and the rest of the array. -/
theorem consumes_string {ptr : u64} (hptr : ptr ≠ 0) {s : List u8}
    (hlen : s.length ≤ maxStringSize) (index index' : u8) {n : Nat} {bytes : List u8}
    {strings : List (List u8)} (hrest : Reader.Consumes (readStrings n) bytes strings) :
    Reader.Consumes (readStrings (n + 1))
      (Saved.encode index (.word ptr) ++ (stringRecord index' (some s) ++ bytes))
      (s :: strings) := by
  have hstring : Reader.Consumes readString (stringRecord index' (some s)) (some s) := by
    refine consumes_stringRecord index' fun payload hpayload => ?_
    obtain rfl := Option.some.inj hpayload
    exact hlen
  have hlater := hrest.bind_pure (s :: ·)
  rw [readStrings_succ]
  refine (consumes_readReg index ptr).bind (hstring.bind ?_)
  show Reader.Consumes (if ptr = 0 then _ else _) bytes _
  rw [if_neg hptr]
  exact hlater

/-- The entries of an array are shown as their strings, up to the one without. -/
theorem consumes_ofEntries (hnull : mem 0 = none) (n : Nat) : ∀ (addr : u64) {bytes : List u8},
    Encodes (Encodes.ofEntries (arrayEntries mem n addr)) bytes →
    Reader.Consumes (readStrings n) bytes
      ((Encodes.ofEntries (arrayEntries mem n addr)).filterMap DataRecord.shown) := by
  induction n with
  | zero =>
      intro addr bytes h
      rw [h.nil_inv]
      exact Reader.consumes_pure []
  | succ n ih =>
      intro addr bytes h
      have hstring : (arrayEntry mem addr).2 = stringEntry mem addr := readStr_readWord hnull addr
      cases hentry : (arrayEntry mem addr).2 with
      | none =>
          -- the pointer without a string; its mark ends the array
          rw [arrayEntries_last (by simp [hentry])] at h ⊢
          obtain ⟨index, rest, rfl, hrest⟩ := h.cons_inv
          obtain ⟨index', rest', rfl, hend⟩ := hrest.cons_inv
          rw [hend.nil_inv, List.append_nil]
          simp only [Encodes.ofEntries, List.flatMap_cons, List.flatMap_nil, DataRecord.encode,
            hentry]
          exact consumes_mark _ index index' n
      | some s =>
          -- a string, and behind it the entries from the next pointer on
          rw [arrayEntries_next (by simp [hentry])] at h ⊢
          obtain ⟨index, rest, rfl, hrest⟩ := h.cons_inv
          obtain ⟨index', rest', rfl, hlater⟩ := hrest.cons_inv
          have hlen : s.length ≤ maxStringSize := UserMem.length_readStr_le hentry
          have hptr : (arrayEntry mem addr).1 ≠ 0 :=
            readWord_ne_zero hnull (hstring.symm.trans hentry)
          have hread := consumes_string hptr hlen index index' (ih (addr + 8) hlater)
          have hshown (es : List (u64 × Option (List u8))) :
              (Encodes.ofEntries (arrayEntry mem addr :: es)).filterMap DataRecord.shown =
                s :: (Encodes.ofEntries es).filterMap DataRecord.shown := by
            simp [Encodes.ofEntries, DataRecord.shown, List.filterMap_cons, hentry]
          rw [hshown]
          simpa [DataRecord.encode, hentry] using hread

end Strings

/-! ## Vectors -/

section Vectors

variable {mem : UserMem} {count addr : u64} {bytes : List u8}

theorem filterMap_bytes (payloads : List (List u8)) :
    (payloads.map DataRecord.bytes).filterMap DataRecord.shown = payloads := by
  induction payloads with
  | nil => rfl
  | cons p ps ih => simp [DataRecord.shown, ih]

/-- The elements of a whole vector are read one after the other. -/
theorem consumes_iovecs (h : WholeVector mem count addr)
    (hbytes : Encodes ((iovecPayloads (iovecs mem (iovRounds count) addr)).map DataRecord.bytes)
      bytes) (rest : List u8) :
    Reader.each (fun _ => readIovec) (List.range (iovReadCount count)) (bytes ++ rest) =
      (some ((iovecs mem (iovRounds count) addr).map fun r => [r.1, r.2]), rest) := by
  obtain ⟨hcount, hstructs⟩ := (rounds_and_structs_iff mem count addr).mpr h
  exact each_of_le (iovecData_iovecs mem _ addr) (length_iovecs mem _ addr)
    hbytes.written_iovecs hcount hstructs rest

theorem flatten_pairs (records : List (List u8 × List u8)) :
    (records.map fun r => [r.1, r.2]).flatten = iovecPayloads records := rfl

theorem consumes_readIovecs (h : WholeVector mem count addr) (index : u8)
    (hbytes : Encodes ((iovecPayloads (iovecs mem (iovRounds count) addr)).map DataRecord.bytes)
      bytes) :
    Reader.Consumes readIovecs (Saved.encode index (.word count) ++ bytes)
      (iovecPayloads (iovecs mem (iovRounds count) addr)) := by
  refine (consumes_readReg index count).bind fun rest => ?_
  rw [Reader.bind_of_some (consumes_iovecs h hbytes rest), flatten_pairs]
  rfl

theorem consumes_readMsghdr {msghdr control : List u8} (hfull : msghdr.length = msghdrSize)
    (hcontrol : control.length < 2 ^ 32)
    (hcount : LittleEndian.toWord 8 ((msghdr.drop 24).take 8) = count)
    (h : WholeVector mem count addr) (index index' : u8)
    (hbytes : Encodes ((iovecPayloads (iovecs mem (iovRounds count) addr)).map DataRecord.bytes)
      bytes) :
    Reader.Consumes readMsghdr
      (Saved.encode index (.bytes msghdr) ++ (Saved.encode index' (.bytes control) ++ bytes))
      (msghdr :: control :: iovecPayloads (iovecs mem (iovRounds count) addr)) := by
  have hheader : Reader.Consumes (Reader.take (5 + msghdrSize))
      (Saved.encode index (.bytes msghdr)) (Saved.encode index (.bytes msghdr)) :=
    take_encode index hfull
  refine hheader.bind ((consumes_bytes index' hcontrol).bind fun rest => ?_)
  rw [drop_encode, hcount, Reader.bind_of_some (consumes_iovecs h hbytes rest), flatten_pairs]
  rfl

end Vectors

/-! ## Every type -/

section Types

variable {env : ProbeEnv} {bytes : List u8}

/-- A pointer's own record is taken whole or, when it could not be read, empty. -/
theorem consumes_readPointed (mem : UserMem) (addr : u64) (index : u8) :
    Reader.Consumes readPointed (Saved.encode index (.bytes (structBytes mem addr 8)))
      (structBytes mem addr 8) := by
  refine consumes_header index ?_
  rcases @structBytes_length mem addr 8 (by decide) with hnil | hlen
  · rw [hnil]
    exact Reader.consumes_pure []
  · rw [hlen]
    exact Reader.consumes_take_of_length hlen

theorem consumes_struct (type : StructType) {addr : u64}
    (h : WholeStruct env.mem addr type.size type.record) (index : u8) :
    Reader.Consumes (readStruct type.size type.record)
      (Saved.encode index (.bytes (structBytes env.mem addr type.size)))
      (structBytes env.mem addr type.size) := by
  refine consumes_sized index ?_
  rcases h with hnil | ⟨hsize, hrecord⟩
  · exact Or.inl hnil
  · rcases structBytes_length env.mem addr hsize with hnil | hlen
    · exact Or.inl hnil
    · refine Or.inr ⟨hlen, Reader.consumes_take_of_length ?_⟩
      rw [hlen, hrecord]

/-- Elements of a width that the parser knows have that width in the registry as well. -/
theorem elemSize_eq {elem : NumKind} {size : Nat} (h : elem.elemSize = some size) :
    elem.size.toNat = size := by
  revert h
  cases elem <;> simp [NumKind.elemSize, NumKind.size]

theorem consumes_array (elem : NumKind) (length : u32) {addr : u64}
    (h : structBytes env.mem addr (elem.size * length) = [] ∨
      ∃ size, elem.elemSize = some size ∧ size * length.toNat ≤ maxBytesArrSize) (index : u8) :
    Reader.Consumes (readArray elem length)
      (Saved.encode index (.bytes (structBytes env.mem addr (elem.size * length))))
      (structBytes env.mem addr (elem.size * length)) := by
  refine consumes_sized index ?_
  rcases h with hnil | ⟨size, hsize, hle⟩
  · exact Or.inl hnil
  · have hmax : maxBytesArrSize < 2 ^ 32 := by decide
    -- the product does not wrap around
    have hproduct : (elem.size * length).toNat = size * length.toNat := by
      rw [BitVec.toNat_mul, elemSize_eq hsize, Nat.mod_eq_of_lt (by omega)]
    rcases @structBytes_length env.mem addr (elem.size * length) (by omega) with hnil | hlen
    · exact Or.inl hnil
    · refine Or.inr ⟨hlen, ?_⟩
      rw [hsize]
      exact Reader.consumes_take_of_length (hlen.trans hproduct)

/-- **The data of a type is read back.** The parser of a type takes exactly the bytes that the op
list of the type saves of readable data, under any indices, and shows every payload of them. -/
theorem consumes_dataAt (ty : ArgType) : ∀ {addr : u64} {bytes : List u8}, ty.Readable env addr →
    Encodes (ty.dataAt env addr) bytes →
    Reader.Consumes (ty.parse true) bytes (ty.shownAt env addr) := by
  induction ty with
  | num | pointer =>
      intro addr bytes _ h
      rw [h.nil_inv]
      exact Reader.consumes_pure []
  | parent => exact fun h => h.elim
  | iovec => exact fun h => h.elim
  | pointerTo target style ih =>
      intro addr bytes hread h
      obtain ⟨index, rest, rfl, hrest⟩ := h.cons_inv
      have htarget := (ih hread hrest).bind_pure (structBytes env.mem addr 8 :: ·)
      exact (consumes_readPointed env.mem addr index).bind htarget
  | string => exact fun _ h => consumes_one (ArgType.short_string env.mem _) h
  | stdString => exact fun _ h => consumes_one (ArgType.short_string env.mem _) h
  | buffer | bufferLen | bufferReg =>
      exact fun _ h => consumes_one (ArgType.short_struct env.mem _ _) h
  | stringArray => exact fun hnull h => consumes_ofEntries hnull _ _ h
  | struct type =>
      intro addr bytes hread h
      obtain ⟨index, rfl⟩ := encodes_bytes h
      exact (consumes_struct type hread index).bind_pure fun payload => [payload]
  | array elem style length =>
      intro addr bytes hread h
      obtain ⟨index, rfl⟩ := encodes_bytes h
      exact (consumes_array elem length hread index).bind_pure fun payload => [payload]
  | iovecReg regIndex =>
      intro addr bytes hread h
      obtain ⟨index, rest, rfl, hrest⟩ := h.cons_inv
      have hshown : (ArgType.iovecReg regIndex).shownAt env addr =
          iovecPayloads (iovecs env.mem
            (iovRounds ((ArgType.iovecReg regIndex).vectorCount env addr)) addr) :=
        filterMap_bytes _
      rw [hshown]
      exact consumes_readIovecs hread index hrest
  | msghdr =>
      intro addr bytes hread h
      obtain ⟨hheader, hvector⟩ := hread
      obtain ⟨index, rest, rfl, hrest⟩ := h.cons_inv
      obtain ⟨index', rest', rfl, hvec⟩ := hrest.cons_inv
      obtain ⟨header, hread⟩ := Option.isSome_iff_exists.mp hheader
      have hshown : ArgType.msghdr.shownAt env addr = ArgType.msghdr.vectorSaved env addr :=
        filterMap_bytes _
      -- the parser takes the number of buffers from the header that it has just read
      have hcount : LittleEndian.toWord 8 ((((env.mem.read (untag addr) msghdrSize).getD []).drop
          24).take 8) = ArgType.msghdr.vectorCount env addr := by
        rw [hread]
        exact (UserMem.readWord_of_read (n := 24) (m := 24) hread).symm
      have hfull : ((env.mem.read (untag addr) msghdrSize).getD []).length = msghdrSize :=
        (UserMem.length_getD_read_eq_iff env.mem _ (by decide)).mpr hheader
      have hcontrol : (controlBuffer env.mem addr).length < 2 ^ 32 :=
        Nat.lt_of_le_of_lt (UserMem.length_getD_read_le env.mem _ _) (BitVec.isLt _)
      rw [hshown]
      exact consumes_readMsghdr hfull hcontrol hcount hvector index index' hvec

end Types

end Stackplz
