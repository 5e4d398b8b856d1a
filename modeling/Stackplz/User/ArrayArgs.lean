import Stackplz.User.ParseArg
import Stackplz.User.StructArgs

/-!
# Arguments that save an array of numbers

The types `int_arr`, `uint_arr` and `ptr_arr` (`r_ARRAY` and `parse_ARRAY`,
`argtype_complex.go`). The size of the array is computed as a 32-bit number by the
registration, capped at 4096 bytes by the probe, and compared with what was saved by the
parser, which then reads as many elements as were declared.
-/

set_option autoImplicit false

namespace Stackplz

/-! ## Words of an array -/

/-- A read is a read of its first part and of the part behind it. -/
theorem UserMem.read_add (mem : UserMem) (n m : Nat) (addr : u64) :
    mem.read addr (n + m) = (mem.read addr n).bind fun bytes =>
      (mem.read (addr + BitVec.ofNat 64 n) m).map fun rest => bytes ++ rest := by
  induction n generalizing addr with
  | zero => simp [UserMem.read]
  | succ n ih =>
      have haddr : addr + 1 + BitVec.ofNat 64 n = addr + BitVec.ofNat 64 (n + 1) := by
        rw [BitVec.add_assoc]
        congr 1
        rw [Nat.add_comm n 1, BitVec.ofNat_add]
        rfl
      rw [Nat.add_right_comm, UserMem.read, UserMem.read, ih, haddr]
      cases mem addr with
      | none => rfl
      | some b =>
          cases mem.read (addr + 1) n with
          | none => rfl
          | some bytes =>
              cases mem.read (addr + BitVec.ofNat 64 (n + 1)) m with
              | none => rfl
              | some rest => rfl

/-- The words of `size` bytes at an address; `none` when one of them cannot be read. -/
def UserMem.words (mem : UserMem) (size : Nat) : u64 → Nat → Option (List Nat)
  | _, 0 => some []
  | addr, n + 1 => do
      let word ← mem.read addr size
      let words ← mem.words size (addr + BitVec.ofNat 64 size) n
      return LittleEndian.decode word :: words

/-- The words of `size` bytes that a buffer starts with. -/
def wordsOf (size : Nat) : Nat → List u8 → List Nat
  | 0, _ => []
  | n + 1, bytes => LittleEndian.decode (bytes.take size) :: wordsOf size n (bytes.drop size)

@[simp] theorem length_wordsOf (size n : Nat) (bytes : List u8) :
    (wordsOf size n bytes).length = n := by
  induction n generalizing bytes with
  | zero => rfl
  | succ n ih => simp [wordsOf, ih]

/-- The words at an address are those of the bytes there. -/
theorem UserMem.words_eq (mem : UserMem) (size n : Nat) (addr : u64) :
    mem.words size addr n = (mem.read addr (size * n)).map (wordsOf size n) := by
  induction n generalizing addr with
  | zero => rfl
  | succ n ih =>
      rw [UserMem.words, ih, Nat.mul_succ, Nat.add_comm (size * n), mem.read_add]
      cases hword : mem.read addr size with
      | none => rfl
      | some word =>
          have hlen := UserMem.length_read hword
          cases mem.read (addr + BitVec.ofNat 64 size) (size * n) with
          | none => rfl
          | some rest =>
              show some (_ :: _) = some (wordsOf size (n + 1) (word ++ rest))
              rw [wordsOf, ← hlen, List.take_left, List.drop_left]

/-! ## The types -/

/-- The parser reads elements of the size that is registered for them. -/
theorem NumKind.elemSize_eq (kind : NumKind) {size : Nat} (h : kind.elemSize = some size) :
    kind.size.toNat = size ∧ 0 < size := by
  cases kind <;> cases h <;> exact ⟨rfl, by decide⟩

/-- A numeric array type. -/
structure ArrayArg where
  elem : NumKind
  style : NumStyle
  length : u32
  /-- The bytes of an element, for which `parse_ARRAY` has a case. -/
  size : Nat
  reads : elem.elemSize = some size

/-- The array types of hook points and configuration files. -/
def ArrayArg.ofName (typeName : String) (style : NumStyle) (length : u32) : ArrayArg where
  elem := arrayElem typeName
  style := style
  length := length
  size := (arrayElem typeName).size.toNat
  reads := by
    unfold arrayElem
    split
    · rfl
    · split <;> rfl

namespace ArrayArg

variable (a : ArrayArg)

def argType : ArgType := .array a.elem a.style a.length

/-- The number of bytes of the array in memory. -/
def bytes : Nat := a.size * a.length.toNat

/-- The number of bytes that the op list asks for. -/
def saved : Nat := min (a.bytes % 2 ^ 32) maxBytesArrSize

/-- The elements that the parser shows; those of an empty record are none. -/
def shown : List (List u8) → List Nat
  | [payload] => if payload = [] then [] else wordsOf a.size a.length.toNat payload
  | _ => []

/-- `Parse` with `parse_more` set. -/
def parse : Reader (List Nat) := do
  let data ← a.argType.parse true
  return a.shown data

/-- The elements in memory, if the array can be read. -/
def stored (env : ProbeEnv) (st : OpState) : Option (List Nat) :=
  env.mem.words a.size (untag st.data.readAddr) a.length.toNat

/-- The parser consumes exactly the record that the op list appends, and shows the elements in
memory, or none when they cannot be read. -/
def Decodes (env : ProbeEnv) (st : OpState) : Prop :=
  Reader.Consumes a.parse (st.appended env a.argType.codes) ((a.stored env st).getD [])

theorem size_eq : a.elem.size.toNat = a.size ∧ 0 < a.size := a.elem.elemSize_eq a.reads

/-- The size that is registered, in 32 bits. -/
theorem toNat_size : (a.elem.size * a.length).toNat = a.bytes % 2 ^ 32 := by
  rw [BitVec.toNat_mul, a.size_eq.1]
  rfl

variable {a} {env : ProbeEnv} {st : OpState}

theorem appended_codes : st.appended env a.argType.codes =
    if st.event.bufOff ≤ saveLimit then
      Saved.encode st.data.saveIndex
        (.bytes ((env.mem.read (untag st.data.readAddr) a.saved).getD []))
    else [] := by
  let op := saveStructOp ((a.elem.size * a.length).setWidth 64)
  have hcodes : a.argType.codes =
      [(op.toOpConfig, .setReadLen), (op.toOpConfig, .saveStruct)] := rfl
  have hlen : cappedLen op.value = a.saved := by
    have hvalue : (op.value.setWidth 32) = a.elem.size * a.length := by
      show ((a.elem.size * a.length).setWidth 64).setWidth 32 = _
      rw [BitVec.setWidth_setWidth_of_le _ (by decide), BitVec.setWidth_eq]
    unfold cappedLen saved
    rw [hvalue, a.toNat_size]
  rw [hcodes, appended_saveStruct (by simp [op, saveStructOp, combinedOp]), hlen]

theorem parse_eq (a : ArrayArg) :
    a.parse = (readArray a.elem a.length >>= fun payload => pure (a.shown [payload])) :=
  Reader.bind_pure_bind _ _ _

/-- An array that is readable has a readable beginning. -/
theorem read_saved (hstored : env.mem.read (untag st.data.readAddr) a.saved = none) :
    env.mem.read (untag st.data.readAddr) a.bytes = none := by
  have hle : a.saved ≤ a.bytes := Nat.le_trans (Nat.min_le_left _ _) (Nat.mod_le _ _)
  obtain ⟨rest, hrest⟩ := Nat.exists_eq_add_of_le hle
  rw [hrest, UserMem.read_add, hstored]
  rfl

theorem stored_eq : a.stored env st =
    (env.mem.read (untag st.data.readAddr) a.bytes).map (wordsOf a.size a.length.toNat) :=
  UserMem.words_eq _ _ _ _

/-- The parser shows no elements for an empty record. -/
theorem consumes_empty (a : ArrayArg) (index : u8) :
    Reader.Consumes a.parse (Saved.encode index (.bytes [])) [] := by
  have hread : Reader.Consumes (readArray a.elem a.length) (Saved.encode index (.bytes [])) [] := by
    refine (consumes_readLen index 0).bind ?_
    rw [if_neg (by simp), if_pos rfl]
    exact Reader.consumes_pure []
  rw [a.parse_eq, ← List.append_nil (Saved.encode _ _)]
  exact hread.bind (Reader.consumes_pure [])

/-- Behind a header with a length the parser compares it with the registered size, and reads
the declared number of elements. -/
theorem readArray_append (a : ArrayArg) {payload : List u8} (index : u8)
    (hlen : payload.length < 2 ^ 32) (hpos : 0 < payload.length) (rest : List u8) :
    readArray a.elem a.length (Saved.encode index (.bytes payload) ++ rest) =
      if payload.length = a.bytes % 2 ^ 32 then Reader.take a.bytes (payload ++ rest)
      else (none, payload ++ rest) := by
  let len : u32 := BitVec.ofNat 32 payload.length
  have htoNat : len.toNat = payload.length := by
    rw [BitVec.toNat_ofNat, Nat.mod_eq_of_lt hlen]
  have hgt : 0#32 < len := by
    show (0#32).toNat < len.toNat
    rw [htoNat]
    exact hpos
  have hne : len ≠ 0 := fun h => by
    have hzero := congrArg BitVec.toNat h
    rw [htoNat] at hzero
    exact absurd hzero (Nat.ne_of_gt hpos)
  have hsize : len = a.elem.size * a.length ↔ payload.length = a.bytes % 2 ^ 32 := by
    rw [← BitVec.toNat_inj, htoNat, a.toNat_size]
  have hbytes : Saved.encode index (.bytes payload) ++ rest =
      (index :: LittleEndian.ofWord 4 len) ++ (payload ++ rest) := by
    simp [Saved.encode, len]
  unfold readArray
  rw [hbytes, (consumes_readLen index len).bind_append]
  by_cases heq : len = a.elem.size * a.length
  · rw [if_pos (hsize.mp heq), if_neg (by simp [heq]), if_neg hne, a.reads]
    rfl
  · rw [if_neg (fun h => heq (hsize.mpr h)), if_pos (by simp [heq, hgt])]
    rfl

/-- An empty record is right for an array that cannot be read or has no elements. -/
theorem consumes_empty_iff (a : ArrayArg) (index : u8) (elems : Option (List Nat))
    (helems : ∀ ws, elems = some ws → ws.length = a.length.toNat) :
    Reader.Consumes a.parse (Saved.encode index (.bytes [])) (elems.getD []) ↔
      elems = none ∨ a.length.toNat = 0 := by
  have hempty := a.consumes_empty index
  constructor
  · intro h
    have hnil : elems.getD [] = [] :=
      Option.some.inj (Prod.mk.inj ((h []).symm.trans (hempty []))).1
    cases elems with
    | none => exact Or.inl rfl
    | some ws =>
        obtain rfl : ws = [] := hnil
        exact Or.inr (helems [] rfl).symm
  · rintro (rfl | hzero)
    · exact hempty
    · cases elems with
      | none => exact hempty
      | some ws =>
          obtain rfl : ws = [] := List.eq_nil_of_length_eq_zero ((helems ws rfl).trans hzero)
          exact hempty

/-- A record with a length is right when the length is that of the whole array. -/
theorem consumes_payload_iff (a : ArrayArg) {payload : List u8} (index : u8) (elems : List Nat)
    (hlen : payload.length = a.saved) (hpos : 0 < a.saved)
    (helems : payload.length = a.bytes → elems = wordsOf a.size a.length.toNat payload) :
    Reader.Consumes a.parse (Saved.encode index (.bytes payload)) elems ↔
      a.bytes ≤ maxBytesArrSize := by
  have hmax : maxBytesArrSize < 2 ^ 32 := by decide
  have hsaved : a.saved = min (a.bytes % 2 ^ 32) maxBytesArrSize := rfl
  have hread (rest : List u8) :
      readArray a.elem a.length (Saved.encode index (.bytes payload) ++ rest) = _ :=
    a.readArray_append index (by omega) (by omega) rest
  constructor
  · intro h
    have hnil := h []
    rw [a.parse_eq] at hnil
    obtain ⟨bytes, mid, hpayload, -⟩ := Reader.bind_eq_some hnil
    rw [hread []] at hpayload
    split at hpayload
    · rename_i hfull
      have htaken := Reader.length_of_take hpayload
      obtain ⟨rfl, -⟩ := Reader.take_eq_some hpayload
      rw [List.append_nil, List.length_take] at htaken
      omega
    · cases hpayload
  · intro hle
    have hfull : payload.length = a.bytes := by omega
    have hne : payload ≠ [] := by
      intro hnil
      rw [hnil, List.length_nil] at hlen
      omega
    intro rest
    have hpayload : readArray a.elem a.length (Saved.encode index (.bytes payload) ++ rest) =
        (some payload, rest) := by
      rw [hread rest, if_pos (by omega), ← hfull]
      exact Reader.consumes_take payload rest
    have hshown : a.shown [payload] = wordsOf a.size a.length.toNat payload := if_neg hne
    rw [a.parse_eq, Reader.bind_of_some hpayload, hshown, helems hfull]
    rfl

/-- **When an array is decoded.** There has to be room for the record, and: the array has at
most 4096 bytes, or the part that is saved cannot be read, or the registered size is zero
because it does not fit 32 bits, and the array cannot be read. -/
theorem decodes_iff (a : ArrayArg) (env : ProbeEnv) (st : OpState) :
    a.Decodes env st ↔ st.event.bufOff ≤ saveLimit ∧
      (a.bytes ≤ maxBytesArrSize ∨ env.mem.read (untag st.data.readAddr) a.saved = none ∨
        (a.saved = 0 ∧ env.mem.read (untag st.data.readAddr) a.bytes = none)) := by
  have hsaved : a.saved = min (a.bytes % 2 ^ 32) maxBytesArrSize := rfl
  have happended := @appended_codes a env st
  have hstored := @stored_eq a env st
  unfold Decodes
  by_cases hroom : st.event.bufOff ≤ saveLimit
  · rw [if_pos hroom] at happended
    rw [happended]
    cases hread : env.mem.read (untag st.data.readAddr) a.saved with
    | none =>
        have hnone : a.stored env st = none := by rw [hstored, read_saved hread]; rfl
        rw [hnone]
        exact ⟨fun _ => ⟨hroom, Or.inr (Or.inl rfl)⟩, fun _ => a.consumes_empty _⟩
    | some payload =>
        have hlen := UserMem.length_read hread
        rcases Nat.eq_zero_or_pos a.saved with hzero | hpos
        · -- nothing is asked for, so nothing is saved
          obtain rfl : payload = [] := List.eq_nil_of_length_eq_zero (hlen.trans hzero)
          have hbytes : a.length.toNat = 0 ↔ a.bytes ≤ maxBytesArrSize := by
            have hmax : maxBytesArrSize < 2 ^ 32 ∧ 0 < maxBytesArrSize := by decide
            have hpos := a.size_eq.2
            have hiff : a.bytes = 0 ↔ a.length.toNat = 0 := by
              rw [ArrayArg.bytes, Nat.mul_eq_zero]
              omega
            omega
          refine (a.consumes_empty_iff _ _ fun ws hws => ?_).trans ?_
          · rw [hstored, Option.map_eq_some_iff] at hws
            obtain ⟨bytes, -, rfl⟩ := hws
            exact length_wordsOf _ _ _
          · rw [hstored, Option.map_eq_none_iff, hbytes]
            simp [hroom, hzero, or_comm]
        · refine (a.consumes_payload_iff _ _ hlen hpos fun hfull => ?_).trans ?_
          · have hwhole : env.mem.read (untag st.data.readAddr) a.bytes = some payload := by
              rw [← hfull, hlen]
              exact hread
            rw [hstored, hwhole]
            rfl
          · have hne : a.saved ≠ 0 := by omega
            simp [hroom, hne]
  · rw [if_neg hroom] at happended
    have hstops : (a.parse []).1 = none := rfl
    refine ⟨fun h => ?_, fun h => absurd h.1 hroom⟩
    rw [happended] at h
    have hnil := congrArg Prod.fst (h [])
    rw [List.append_nil, hstops] at hnil
    cases hnil

end ArrayArg

/-- **Decoding of arrays.** For every array type of hook points and configuration files, with
any number of elements, and for every memory: the parser consumes the record and shows the
elements in memory, or none if they cannot be read, exactly when there was room for a save and
the array has at most 4096 bytes, or what the probe asks for cannot be read, or it asks for
nothing since the size is a multiple of 2^32 and the array cannot be read. -/
theorem arrayArg_decodes_iff (typeName : String) (style : NumStyle) (length : u32)
    (env : ProbeEnv) (st : OpState) :
    (ArrayArg.ofName typeName style length).Decodes env st ↔
      st.event.bufOff ≤ saveLimit ∧
        ((arrayElem typeName).size.toNat * length.toNat ≤ maxBytesArrSize ∨
          env.mem.read (untag st.data.readAddr) (min
            ((arrayElem typeName).size.toNat * length.toNat % 2 ^ 32) maxBytesArrSize) = none ∨
          ((arrayElem typeName).size.toNat * length.toNat % 2 ^ 32 = 0 ∧
            env.mem.read (untag st.data.readAddr)
              ((arrayElem typeName).size.toNat * length.toNat) = none)) := by
  have hsaved : (ArrayArg.ofName typeName style length).saved = 0 ↔
      (arrayElem typeName).size.toNat * length.toNat % 2 ^ 32 = 0 := by
    have hmax : 0 < maxBytesArrSize := by decide
    show min (_ % 2 ^ 32) maxBytesArrSize = 0 ↔ _
    show min ((arrayElem typeName).size.toNat * length.toNat % 2 ^ 32) maxBytesArrSize = 0 ↔ _
    omega
  rw [(ArrayArg.ofName typeName style length).decodes_iff env st, hsaved]
  rfl

/-- `int_arr:1025` -/
def longArray : ArrayArg := .ofName "int_arr" ⟨.hex, none⟩ 1025

/-- Of an array of 4100 readable bytes 4096 are saved, and the parser panics. -/
theorem longArray_not_decoded :
    (longArray.stored bufEnv zeroState).isSome = true ∧
      (longArray.parse (zeroState.appended bufEnv longArray.argType.codes)).1 = none ∧
      ¬ longArray.Decodes bufEnv zeroState := by
  have hread (n : Nat) : bufEnv.mem.read (untag zeroState.data.readAddr) n =
      some (List.replicate n 0) := read_zero n _
  have hpanics :
      (longArray.parse (zeroState.appended bufEnv longArray.argType.codes)).1 = none := by
    have hsaved : longArray.saved = 4096 := by decide
    have happended : zeroState.appended bufEnv longArray.argType.codes =
        Saved.encode 0 (.bytes (List.replicate 4096 0)) ++ [] := by
      rw [ArrayArg.appended_codes, if_pos (by decide), hread, hsaved, List.append_nil]
      rfl
    have hlen : (List.replicate 4096 (0 : u8)).length = 4096 := List.length_replicate
    rw [happended, ArrayArg.parse_eq]
    refine Reader.bind_of_none ?_ _
    rw [longArray.readArray_append 0 (by rw [hlen]; decide) (by rw [hlen]; decide),
      if_neg (by rw [hlen]; decide)]
  refine ⟨?_, hpanics, fun hdecodes => ?_⟩
  · rw [ArrayArg.stored_eq, hread]
    rfl
  · have hnil := congrArg Prod.fst (hdecodes [])
    rw [List.append_nil, hpanics] at hnil
    cases hnil

end Stackplz
