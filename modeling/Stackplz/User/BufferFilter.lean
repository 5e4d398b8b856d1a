import Mathlib.Tactic.IntervalCases
import Stackplz.Probe.ReadArgs
import Stackplz.User.FilterHelper

/-!
# Buffer filters

`bx:`, `bufhex:` and `addr:` filters compare up to eight bytes in memory. `AddFilter` turns the
bytes into a number, first byte high, turns the eight bytes of the number around and shifts the
zeros out; the probe reads a little-endian word and masks the bytes behind. Both come to the
little-endian number of the bytes, so the comparison is one of the bytes
(`filterBuffer_matches_iff`).
-/

set_option autoImplicit false

namespace Stackplz

open LittleEndian

/-! ## Hex texts as numbers -/

/-- A hex digit as a character. -/
theorem fromHexChar_spec {b d : u8} (h : fromHexChar b = some d) :
    Text.digitValue (Char.ofNat b.toNat) = some d.toNat ∧ d.toNat < 16 ∧
      Char.ofNat b.toNat ≠ '_' := by
  have hall : ∀ b : u8, (fromHexChar b).all fun d =>
      Text.digitValue (Char.ofNat b.toNat) = some d.toNat ∧ d.toNat < 16 ∧
        Char.ofNat b.toNat ≠ '_' := by
    decide +kernel
  have hb := hall b
  rw [h] at hb
  exact of_decide_eq_true hb

theorem toNat_hexByte {high low : u8} (hhigh : high.toNat < 16) (hlow : low.toNat < 16) :
    (high <<< 4 ||| low).toNat = 16 * high.toNat + low.toNat := by
  have hshift : (high <<< 4).toNat = high.toNat <<< 4 := by
    rw [BitVec.toNat_shiftLeft, Nat.mod_eq_of_lt]
    rw [Nat.shiftLeft_eq]
    omega
  rw [BitVec.toNat_or, hshift, ← Nat.shiftLeft_add_eq_or_of_lt hlow, Nat.shiftLeft_eq]
  omega

/-- The inversion of a text that decodes to some bytes. -/
theorem hexDecode_cons {digits bytes : Bytes} {b : u8} (h : hexDecode digits = some (b :: bytes)) :
    ∃ hi lo rest high low, digits = hi :: lo :: rest ∧ fromHexChar hi = some high ∧
      fromHexChar lo = some low ∧ hexDecode rest = some bytes ∧ b = high <<< 4 ||| low := by
  cases digits with
  | nil => cases h
  | cons hi digits =>
      cases digits with
      | nil => cases h
      | cons lo rest =>
          simp only [hexDecode, Option.bind_eq_bind, Option.bind_eq_some_iff] at h
          obtain ⟨high, hhigh, low, hlow, bytes', hrest, heq⟩ := h
          obtain ⟨rfl, rfl⟩ := List.cons.inj (Option.some.inj heq)
          exact ⟨hi, lo, rest, high, low, rfl, hhigh, hlow, hrest, rfl⟩

theorem hexDecode_nil {digits : Bytes} (h : hexDecode digits = some []) : digits = [] := by
  cases digits with
  | nil => rfl
  | cons hi digits =>
      cases digits with
      | nil => cases h
      | cons lo rest =>
          simp only [hexDecode, Option.bind_eq_bind, Option.bind_eq_some_iff] at h
          obtain ⟨_, _, _, _, _, _, heq⟩ := h
          cases heq

/-- The number of some bytes, the first one high, after what was read before them. -/
def bigEndian (n : Nat) (bytes : Bytes) : Nat := n * 256 ^ bytes.length + decode bytes.reverse

theorem bigEndian_cons (n : Nat) (b : u8) (bytes : Bytes) :
    bigEndian n (b :: bytes) = bigEndian (256 * n + b.toNat) bytes := by
  unfold bigEndian
  rw [List.reverse_cons, decode_append, List.length_reverse, List.length_cons, Nat.pow_succ]
  show _ + (_ + _ * (b.toNat + 256 * 0)) = _
  ring

theorem le_bigEndian (n : Nat) (bytes : Bytes) : n ≤ bigEndian n bytes := by
  have hpos : 0 < 256 ^ bytes.length := Nat.pow_pos (by decide)
  have hle : n * 1 ≤ n * 256 ^ bytes.length := Nat.mul_le_mul_left n hpos
  unfold bigEndian
  omega

/-- One hex digit of a literal. -/
theorem parseDigits_cons {n bits : Nat} {b d : u8} (h : fromHexChar b = some d)
    (hfit : n * 16 + d.toNat < 2 ^ bits) (cs : Text) :
    Text.parseDigits 16 bits true n (Char.ofNat b.toNat :: cs) =
      Text.parseDigits 16 bits true (n * 16 + d.toNat) cs := by
  obtain ⟨hvalue, hlt, hne⟩ := fromHexChar_spec h
  have hsep : ¬ (true && Char.ofNat b.toNat = '_') = true := by simp [hne]
  rw [Text.parseDigits, if_neg hsep, hvalue]
  dsimp only
  rw [if_neg (Nat.not_le.mpr hlt), if_neg (Nat.not_le.mpr hfit)]

/-- The digits of some bytes are the number of the bytes, the first one high. -/
theorem parseDigits_hex {bytes : Bytes} :
    ∀ {digits : Bytes} {n bits : Nat}, hexDecode digits = some bytes →
      bigEndian n bytes < 2 ^ bits →
      Text.parseDigits 16 bits true n (asText digits) = some (bigEndian n bytes) := by
  induction bytes with
  | nil =>
      intro digits n bits h _
      rw [hexDecode_nil h]
      show some n = some (n * 1 + 0)
      rw [Nat.mul_one, Nat.add_zero]
  | cons b bytes ih =>
      intro digits n bits h hfit
      obtain ⟨hi, lo, rest, high, low, rfl, hhigh, hlow, hrest, rfl⟩ := hexDecode_cons h
      have hbyte := toNat_hexByte (fromHexChar_spec hhigh).2.1
        (fromHexChar_spec hlow).2.1
      rw [bigEndian_cons, hbyte] at hfit
      have hle := le_bigEndian (256 * n + (16 * high.toNat + low.toNat)) bytes
      have hnext : (n * 16 + high.toNat) * 16 + low.toNat =
          256 * n + (16 * high.toNat + low.toNat) := by omega
      show Text.parseDigits 16 bits true n
        (Char.ofNat hi.toNat :: Char.ofNat lo.toNat :: asText rest) = _
      rw [parseDigits_cons hhigh (by omega), parseDigits_cons hlow (by omega), hnext,
        ih hrest hfit, bigEndian_cons, hbyte]

/-- No character of a hex text separates digits. -/
theorem notMem_asText {bytes : Bytes} :
    ∀ {digits : Bytes}, hexDecode digits = some bytes → '_' ∉ asText digits := by
  induction bytes with
  | nil =>
      intro digits h
      rw [hexDecode_nil h]
      exact List.not_mem_nil
  | cons b bytes ih =>
      intro digits h
      obtain ⟨hi, lo, rest, high, low, rfl, hhigh, hlow, hrest, -⟩ := hexDecode_cons h
      have hi' := (fromHexChar_spec hhigh).2.2
      have hlo' := (fromHexChar_spec hlow).2.2
      show '_' ∉ Char.ofNat hi.toNat :: Char.ofNat lo.toNat :: asText rest
      simp [Ne.symm hi', Ne.symm hlo', ih hrest]

/-- The literal `0x...` of up to eight bytes. -/
theorem strToNum64_hex {digits bytes : Bytes} (h : hexDecode digits = some bytes)
    (hpos : bytes ≠ []) (hle : bytes.length ≤ 8) :
    strToNum64 (ascii "0x" ++ digits) = some (BitVec.ofNat 64 (decode bytes.reverse)) := by
  have hnum : bigEndian 0 bytes = decode bytes.reverse := by
    rw [bigEndian, Nat.zero_mul, Nat.zero_add]
  have hfit : bigEndian 0 bytes < 2 ^ 64 := by
    have hlt := decode_lt bytes.reverse
    have hpow : 256 ^ bytes.length ≤ 256 ^ 8 := Nat.pow_le_pow_right (by decide) hle
    rw [List.length_reverse] at hlt
    rw [hnum]
    omega
  have hdigits := parseDigits_hex h hfit
  have hsep : '_' ∉ '0' :: 'x' :: asText digits := by simp [notMem_asText h]
  -- the prefix is one only in front of a digit
  obtain ⟨c, cs, hcs⟩ : ∃ c cs, asText digits = c :: cs := by
    cases digits with
    | nil => exact absurd (Option.some.inj h).symm hpos
    | cons b digits => exact ⟨_, _, rfl⟩
  have hbase : Text.baseOf ('0' :: 'x' :: asText digits) = (16, asText digits) := by
    rw [hcs]
    rfl
  have hparse :
      Text.parseUint ('0' :: 'x' :: asText digits) 0 64 = some (decode bytes.reverse) := by
    unfold Text.parseUint
    rw [if_neg (by simp), if_pos rfl, hbase]
    dsimp only
    rw [hdigits, hnum]
    simp [hsep]
  show (Text.parseUint ('0' :: 'x' :: asText digits) 0 64).map (BitVec.ofNat 64) = _
  rw [hparse]
  rfl

/-! ## What the probe compares -/

section Shift

variable {n : Nat}

/-- The number of bits that are not compared. -/
theorem strLen_bufferFilter (hle : n ≤ 8) (num : u64) :
    (bufferFilter n num).strLen.toNat = 8 * (8 - n) := by
  show ((8 - BitVec.ofNat 32 n) * 8).toNat = _
  interval_cases n <;> rfl

/-- The mask keeps the first `n` bytes. -/
theorem toNat_mask (hpos : 1 ≤ n) (hle : n ≤ 8) (num : u64) :
    (BitVec.allOnes 64 >>> ((bufferFilter n num).strLen.toNat % 64)).toNat = 2 ^ (8 * n) - 1 := by
  rw [strLen_bufferFilter hle]
  interval_cases n <;> rfl

/-- The number of the filter is the little-endian number of its bytes. -/
theorem numVal_bufferFilter {bytes : Bytes} (hle : bytes.length ≤ 8) :
    (bufferFilter bytes.length (BitVec.ofNat 64 (decode bytes.reverse))).numVal.toNat =
      decode bytes := by
  have hpad : bytes.reverse.length + (8 - bytes.length) = 8 := by
    rw [List.length_reverse]
    omega
  have hlt := decode_lt bytes.reverse
  have hpow : 256 ^ bytes.length ≤ 256 ^ 8 := Nat.pow_le_pow_right (by decide) hle
  rw [List.length_reverse] at hlt
  have hnum : (BitVec.ofNat 64 (decode bytes.reverse)).toNat = decode bytes.reverse := by
    rw [BitVec.toNat_ofNat, Nat.mod_eq_of_lt]
    omega
  have hword : (ofWord 8 (BitVec.ofNat 64 (decode bytes.reverse))).reverse =
      List.replicate (8 - bytes.length) 0 ++ bytes := by
    have henc := encode_decode_add bytes.reverse (8 - bytes.length)
    rw [hpad] at henc
    rw [ofWord, hnum, henc, List.reverse_append, List.reverse_replicate, List.reverse_reverse]
  have hswap : (swapBytes (BitVec.ofNat 64 (decode bytes.reverse))).toNat =
      256 ^ (8 - bytes.length) * decode bytes := by
    have hdec : decode (List.replicate (8 - bytes.length) 0 ++ bytes) =
        256 ^ (8 - bytes.length) * decode bytes := by
      rw [decode_append, decode_replicate_zero, Nat.zero_add, List.length_replicate]
    have hbound := decode_lt (List.replicate (8 - bytes.length) 0 ++ bytes)
    rw [List.length_append, List.length_replicate, Nat.sub_add_cancel hle] at hbound
    rw [swapBytes, hword, toWord, BitVec.toNat_ofNat, Nat.mod_eq_of_lt (by omega), hdec]
  have hshift : 2 ^ (8 * (8 - bytes.length)) = 256 ^ (8 - bytes.length) := Nat.pow_mul 2 8 _
  have hval (num : u64) : (bufferFilter bytes.length num).numVal =
      swapBytes num >>> (bufferFilter bytes.length num).strLen.toNat := rfl
  rw [hval, strLen_bufferFilter hle, BitVec.toNat_ushiftRight, Nat.shiftRight_eq_div_pow, hswap,
    hshift, Nat.mul_div_cancel_left _ (Nat.pow_pos (by decide))]

end Shift

/-- The comparison of the masked word is one of the first bytes. -/
theorem filterBufferMatches_iff {bytes word : Bytes} {mem : UserMem} {readAddr : u64}
    (hpos : 1 ≤ bytes.length) (hle : bytes.length ≤ 8)
    (hread : mem.read (untag readAddr) ptrSize = some word) :
    filterBufferMatches mem
        (bufferFilter bytes.length (BitVec.ofNat 64 (decode bytes.reverse))) readAddr = true ↔
      word.take bytes.length = bytes := by
  have hlen : word.length = 8 := UserMem.length_read hread
  have hword : (mem.readWord (untag readAddr)).toNat = decode word := by
    have hlt := decode_lt word
    rw [hlen] at hlt
    unfold UserMem.readWord
    rw [hread]
    show (toWord 8 word).toNat = _
    rw [toWord, BitVec.toNat_ofNat, Nat.mod_eq_of_lt (by omega)]
  have htake : decode word % 2 ^ (8 * bytes.length) = decode (word.take bytes.length) := by
    rw [Nat.pow_mul 2 8, decode_take (by omega)]
  unfold filterBufferMatches
  rw [beq_iff_eq, ← BitVec.toNat_inj, numVal_bufferFilter hle, BitVec.toNat_and,
    toNat_mask hpos hle, hword, Nat.and_two_pow_sub_one_eq_mod, htake]
  constructor
  · intro heq
    refine (decode_injective ?_ heq).symm
    rw [List.length_take, hlen]
    omega
  · intro heq
    rw [heq]

/-! ## Addresses -/

/-- The bytes of a number in decimal. -/
def decimal (b : u8) : Bytes := ascii (String.ofList (Nat.toDigits 10 b.toNat))

/-- An IPv4 address in dotted decimal form. -/
def dotted (a : Vector u8 4) : Bytes := [dot].intercalate (a.toList.map decimal)

/-- A number in decimal is read back, and holds neither a dot nor a colon. -/
theorem decimal_spec (b : u8) :
    parseOctet (decimal b) = some b ∧ (decimal b).find? (fun c => c = dot || c = colon) = none := by
  revert b
  decide +kernel

theorem dot_notMem_decimal (b : u8) : dot ∉ decimal b := by
  intro hmem
  have hnone := (decimal_spec b).2
  rw [List.find?_eq_none] at hnone
  exact absurd (hnone dot hmem) (by decide)

/-- A dotted address is read back. -/
theorem parseIp_dotted (ipv6 : Bytes → Option (Vector u8 4)) (a : Vector u8 4) :
    parseIp ipv6 (dotted a) = some a := by
  obtain ⟨a0, a1, a2, a3, rfl⟩ : ∃ a0 a1 a2 a3, a = #v[a0, a1, a2, a3] :=
    ⟨a[0], a[1], a[2], a[3], by ext i hi; interval_cases i <;> rfl⟩
  have hsplit : (dotted #v[a0, a1, a2, a3]).splitOn dot =
      [decimal a0, decimal a1, decimal a2, decimal a3] := by
    refine List.splitOn_intercalate dot (fun l hl => ?_) (by simp)
    obtain ⟨b, -, rfl⟩ := List.mem_map.mp hl
    exact dot_notMem_decimal b
  have hipv4 : parseIpv4 (dotted #v[a0, a1, a2, a3]) = some #v[a0, a1, a2, a3] := by
    unfold parseIpv4
    rw [hsplit]
    simp only [List.mapM_cons, List.mapM_nil, (decimal_spec _).1, Option.pure_def,
      Option.bind_eq_bind, Option.bind_some]
  have hfirst : (dotted #v[a0, a1, a2, a3]).find? (fun c => c = dot || c = colon) = some dot := by
    show (decimal a0 ++ dot :: _).find? _ = _
    rw [List.find?_append, (decimal_spec a0).2]
    rfl
  unfold parseIp
  rw [hfirst]
  exact hipv4

/-! ## The filters -/

/-- The bytes that a filter text gives: one to eight in hex, or those of an address. -/
inductive GivesBytes : Bytes → Bytes → Prop
  | hex (kind : String) {digits bytes : Bytes} (hkind : kind = "bx" ∨ kind = "bufhex")
      (h : hexDecode digits = some bytes) (hpos : 1 ≤ bytes.length) (hle : bytes.length ≤ 8) :
      GivesBytes (ascii kind ++ colon :: digits) bytes
  | addr (a : Vector u8 4) : GivesBytes (ascii "addr" ++ colon :: dotted a) a.toList

theorem newFilter_hex {digits bytes : Bytes} (h : hexDecode digits = some bytes)
    (hpos : 1 ≤ bytes.length) (hle : bytes.length ≤ 8) {kind : String}
    (hkind : kind = "bx" ∨ kind = "bufhex") (ipv6 : Bytes → Option (Vector u8 4)) :
    newFilter ipv6 (ascii kind) digits =
      some (bufferFilter bytes.length (BitVec.ofNat 64 (decode bytes.reverse))) := by
  have hnum := strToNum64_hex h (by rintro rfl; exact absurd hpos (by decide)) hle
  have hvalue : ((hexDecode digits).bind fun bytes => if bytes.length > 8 then none
      else (strToNum64 (ascii "0x" ++ digits)).bind fun num =>
        some (bufferFilter bytes.length num)) =
      some (bufferFilter bytes.length (BitVec.ofNat 64 (decode bytes.reverse))) := by
    rw [h, hnum]
    exact if_neg (Nat.not_lt.mpr hle)
  unfold newFilter
  rcases hkind with rfl | rfl
  · rw [ofList_asText_ascii (s := "bx") rfl]
    exact hvalue
  · rw [ofList_asText_ascii (s := "bufhex") rfl]
    exact hvalue

/-- What `AddFilter` makes of such a text. -/
theorem addFilter_of_givesBytes {filter bytes : Bytes} (h : GivesBytes filter bytes)
    (ipv6 : Bytes → Option (Vector u8 4)) (helper : FilterHelper) :
    1 ≤ bytes.length ∧ bytes.length ≤ 8 ∧ helper.addFilter ipv6 filter =
      some (BitVec.ofNat 32 (helper.filters.length + 1), helper.append
        (bufferFilter bytes.length (BitVec.ofNat 64 (decode bytes.reverse)))) := by
  cases h with
  | hex kind hkind h hpos hle =>
      have hcolon : colon ∉ ascii kind := by
        rcases hkind with rfl | rfl <;> decide
      exact ⟨hpos, hle, addFilter_of_newFilter helper hcolon (newFilter_hex h hpos hle hkind ipv6)⟩
  | addr a =>
      have hlen : a.toList.length = 4 := Vector.length_toList
      have hnew : newFilter ipv6 (ascii "addr") (dotted a) =
          some (bufferFilter 4 (BitVec.ofNat 64 (decode a.toList.reverse))) := by
        unfold newFilter
        rw [ofList_asText_ascii (s := "addr") rfl]
        show (parseIp ipv6 (dotted a)).bind _ = _
        rw [parseIp_dotted]
        rfl
      rw [hlen]
      exact ⟨by decide, by decide, addFilter_of_newFilter helper (by decide) hnew⟩

/-- The op under a white list filter. -/
theorem execOp_filterBuffer {env : ProbeEnv} {op : OpConfig} {st : OpState} {f : ArgFilter}
    {b : Bool} (hlookup : env.argFilter.lookup op.value = some f)
    (htype : f.filterType = .whitelist)
    (hmatch : filterBufferMatches env.mem f st.data.readAddr = b) :
    execOp env op .filterBuffer st = (true, st.setData fun d => { d with
      applyFilter := true, matchWhitelist := d.matchWhitelist || b }) := by
  simp only [execOp, hlookup, htype, if_true, OpState.setData, hmatch]

/-- **A buffer filter compares the bytes it gives.** Every hex text of one to eight bytes and
every address is accepted as a new filter, and `OP_FILTER_BUFFER` under that filter matches
exactly when the memory at the read address starts with the bytes in the order written. -/
theorem filterBuffer_matches_iff {filter bytes : Bytes} (h : GivesBytes filter bytes)
    (ipv6 : Bytes → Option (Vector u8 4)) (helper : FilterHelper) :
    ∃ f, helper.addFilter ipv6 filter =
        some (BitVec.ofNat 32 (helper.filters.length + 1), helper.append f) ∧
      ∀ (env : ProbeEnv) (op : OpConfig) (st : OpState) (word : Bytes),
        env.argFilter.lookup op.value = some f →
        env.mem.read (untag st.data.readAddr) ptrSize = some word →
        execOp env op .filterBuffer st = (true, st.setData fun d => { d with
          applyFilter := true
          matchWhitelist := d.matchWhitelist || decide (word.take bytes.length = bytes) }) := by
  obtain ⟨hpos, hle, hadd⟩ := addFilter_of_givesBytes h ipv6 helper
  refine ⟨_, hadd, fun env op st word hlookup hread => execOp_filterBuffer hlookup rfl ?_⟩
  rw [Bool.eq_iff_iff, decide_eq_true_iff]
  exact filterBufferMatches_iff hpos hle hread

/-- A process that has the bytes `0a ff` at `0x1000`, and the filter `f` under the index 1. -/
def bytesEnv (f : ArgFilter) : ProbeEnv where
  mem := fun addr => some (if addr = 0x1000 then 0x0a else 0xff)
  regs := ⟨Vector.replicate 31 0, 0, 0, 0⟩
  opList := .empty
  argFilter := BoundedMap.empty.put 1 f

/-- The state of the interpreter at a tagged read address. -/
def taggedState : OpState :=
  ⟨{ OpCtx.cleared.toOpData with readAddr := 0xb400000000001000 }, .init, .empty⟩

/-- `bufhex:0aFF` lets the buffer pass that starts with these bytes. -/
theorem bufhexFilter_matches :
    ∃ f, FilterHelper.new.addFilter (fun _ => none) (ascii "bufhex" ++ colon :: ascii "0aFF") =
        some (1, FilterHelper.new.append f) ∧
      (execOp (bytesEnv f) ⟨.filterBuffer, .skip, .skip, 1⟩ .filterBuffer
        taggedState).2.data.matchWhitelist = true := by
  have hgives : GivesBytes (ascii "bufhex" ++ colon :: ascii "0aFF") [0x0a, 0xff] :=
    .hex "bufhex" (Or.inr rfl) (by decide) (by decide) (by decide)
  obtain ⟨f, hadd, hexec⟩ := filterBuffer_matches_iff hgives (fun _ => none) .new
  have hread : (bytesEnv f).mem.read (untag taggedState.data.readAddr) ptrSize =
      some (0x0a :: List.replicate 7 0xff) := by
    show UserMem.read (fun addr => some (if addr = 0x1000 then 0x0a else 0xff)) _ _ = _
    decide
  refine ⟨f, hadd, ?_⟩
  rw [hexec _ _ _ _ (BoundedMap.lookup_put_self _ (Or.inr (by decide))) hread]
  decide

end Stackplz
