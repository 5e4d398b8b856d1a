import Stackplz.Basic.Bytes
import Stackplz.Basic.Text
import Stackplz.Probe.Types

/-!
# The filters of a configuration

`FilterHelper` (`config_filter.go`): the filters that `AddFilter` makes of texts, numbered from
one. A text is a Go string, that is, any bytes.
-/

set_option autoImplicit false

namespace Stackplz

/-! ## Strings -/

/-- A Go string. -/
abbrev Bytes := List u8

/-- The bytes of an ASCII literal. -/
def ascii (s : String) : Bytes := s.toList.map fun c => BitVec.ofNat 8 c.toNat

/-- The bytes as characters, for parsers that accept none but ASCII ones. -/
def asText (s : Bytes) : Text := s.map fun b => Char.ofNat b.toNat

/-- An ASCII literal is the text of its bytes. -/
theorem ofList_asText_ascii {s : String} (h : (s.toList.all fun c => c.toNat < 256) = true) :
    String.ofList (asText (ascii s)) = s := by
  have htext : asText (ascii s) = s.toList := by
    rw [asText, ascii, List.map_map]
    conv_rhs => rw [← List.map_id s.toList]
    refine List.map_congr_left fun c hc => ?_
    have hlt : c.toNat < 256 := of_decide_eq_true (List.all_eq_true.mp h c hc)
    show Char.ofNat (BitVec.ofNat 8 c.toNat).toNat = c
    rw [BitVec.toNat_ofNat, Nat.mod_eq_of_lt hlt, Char.ofNat_toNat]
  rw [htext, String.ofList_toList]

def colon : u8 := 0x3a

def dot : u8 := 0x2e

/-- `strings.SplitN(s, ":", 2)`; `none` when it gives one item only. -/
def splitColon : Bytes → Option (Bytes × Bytes)
  | [] => none
  | b :: bs => if b = colon then some ([], bs) else (splitColon bs).map fun x => (b :: x.1, x.2)

theorem splitColon_append {kind : Bytes} (h : colon ∉ kind) (value : Bytes) :
    splitColon (kind ++ colon :: value) = some (kind, value) := by
  induction kind with
  | nil => exact if_pos rfl
  | cons b kind ih =>
      have hne : b ≠ colon := fun heq => h (heq ▸ List.mem_cons_self ..)
      rw [List.cons_append, splitColon, if_neg hne, ih fun hmem => h (List.mem_cons_of_mem b hmem)]
      rfl

/-! ## Hex texts -/

/-- `fromHexChar`. -/
def fromHexChar (b : u8) : Option u8 :=
  if 0x30 ≤ b ∧ b ≤ 0x39 then some (b - 0x30)
  else if 0x61 ≤ b ∧ b ≤ 0x66 then some (b - 0x61 + 10)
  else if 0x41 ≤ b ∧ b ≤ 0x46 then some (b - 0x41 + 10)
  else none

/-- `hex.DecodeString`. -/
def hexDecode : Bytes → Option Bytes
  | [] => some []
  | [_] => none
  | hi :: lo :: rest => do
      let high ← fromHexChar hi
      let low ← fromHexChar lo
      let bytes ← hexDecode rest
      return (high <<< 4 ||| low) :: bytes

/-! ## IP addresses -/

/-- One number of an IPv4 address: up to 255, without leading zeros. -/
def parseOctet (s : Bytes) : Option u8 :=
  if s ≠ [] ∧ (s.all fun b => 0x30 ≤ b ∧ b ≤ 0x39) ∧ (s.head? = some 0x30 → s.length = 1) then
    let n := s.foldl (fun n b => 10 * n + (b.toNat - 0x30)) 0
    if n ≤ 255 then some (BitVec.ofNat 8 n) else none
  else none

/-- `parseIPv4`. -/
def parseIpv4 (s : Bytes) : Option (Vector u8 4) :=
  match (s.splitOn dot).mapM parseOctet with
  | some [a, b, c, d] => some #v[a, b, c, d]
  | _ => none

/-- `net.ParseIP(s).To4()`. The first dot or colon decides between the two kinds of addresses;
`ipv6` gives the IPv4 address behind a text of the other kind, if there is one. -/
def parseIp (ipv6 : Bytes → Option (Vector u8 4)) (s : Bytes) : Option (Vector u8 4) :=
  match s.find? fun b => b = dot || b = colon with
  | some b => if b = dot then parseIpv4 s else ipv6 s
  | none => none

/-! ## `AddFilter` -/

/-- `StrToNum64`; `none` is a panic. -/
def strToNum64 (s : Bytes) : Option u64 :=
  (Text.parseUint (asText s) 0 64).map (BitVec.ofNat 64)

/-- A number written with the high byte first and read with the low byte first. -/
def swapBytes (num : u64) : u64 := LittleEndian.toWord 8 (LittleEndian.ofWord 8 num).reverse

/-- The text of a filter in its fixed buffer. -/
def strValOf (s : Bytes) : StrBuf := Vector.ofFn fun i => s.getD i 0

/-- The filter on the `n` bytes of a buffer whose number is `num`. -/
def bufferFilter (n : Nat) (num : u64) : ArgFilter :=
  let strLen := (8 - BitVec.ofNat 32 n) * 8
  ⟨.whitelist, strValOf [], strLen, swapBytes num >>> strLen.toNat⟩

/-- A filter that compares numbers. -/
def numFilter (type : FilterType) (value : Bytes) : Option ArgFilter :=
  (strToNum64 value).map fun num => ⟨type, strValOf [], 0, num⟩

/-- A filter that compares strings. -/
def strFilter (type : FilterType) (value : Bytes) : Option ArgFilter :=
  if value.length > maxStrcmpLen then none
  else some ⟨type, strValOf value, BitVec.ofNat 32 value.length, 0⟩

/-- The `switch` of `AddFilter` on the kind of the filter; `none` is a panic. -/
def newFilter (ipv6 : Bytes → Option (Vector u8 4)) (kind value : Bytes) : Option ArgFilter :=
  match String.ofList (asText kind) with
  | "addr" => do
      let addr ← parseIp ipv6 value
      return bufferFilter 4 (BitVec.ofNat 64 (LittleEndian.decode addr.toList.reverse))
  | "bx" | "bufhex" => do
      let bytes ← hexDecode value
      if bytes.length > 8 then none
      else do
        let num ← strToNum64 (ascii "0x" ++ value)
        return bufferFilter bytes.length num
  | "eq" | "equal" => numFilter .equal value
  | "gt" | "greater" => numFilter .greater value
  | "lt" | "less" => numFilter .less value
  | "w" | "white" => strFilter .whitelist value
  | "b" | "black" => strFilter .blacklist value
  | _ => none

/-- `ArgFilter` of the configuration; `ToEbpfValue` is its first part. -/
structure ConfigFilter extends ArgFilter where
  filterStr : Bytes
  filterIndex : u32

/-- `FilterHelper`. -/
structure FilterHelper where
  filters : List ConfigFilter
  /-- `AddFilter` never sets the text it compares with. -/
  filterStr : ∀ f ∈ filters, f.filterStr = []

/-- `NewFilterHelper`. -/
def FilterHelper.new : FilterHelper := ⟨[], by simp⟩

/-- The filter under the next index. -/
def FilterHelper.append (h : FilterHelper) (f : ArgFilter) : FilterHelper where
  filters := h.filters ++ [⟨f, [], BitVec.ofNat 32 (h.filters.length + 1)⟩]
  filterStr := by
    intro g hg
    rcases List.mem_append.mp hg with hg | hg
    · exact h.filterStr g hg
    · rw [List.mem_singleton.mp hg]

/-- `AddFilter`; `none` is a panic. -/
def FilterHelper.addFilter (ipv6 : Bytes → Option (Vector u8 4)) (h : FilterHelper)
    (filter : Bytes) : Option (u32 × FilterHelper) :=
  match h.filters.find? fun f => f.filterStr == filter with
  | some f => some (f.filterIndex, h)
  | none => do
      let (kind, value) ← splitColon filter
      let f ← newFilter ipv6 kind value
      return (BitVec.ofNat 32 (h.filters.length + 1), h.append f)

/-- A text is added as a new filter, also when it was added before. -/
theorem addFilter_eq_map {ipv6 : Bytes → Option (Vector u8 4)} {kind : Bytes} (value : Bytes)
    (h : FilterHelper) (hkind : colon ∉ kind) :
    h.addFilter ipv6 (kind ++ colon :: value) = (newFilter ipv6 kind value).map fun f =>
      (BitVec.ofNat 32 (h.filters.length + 1), h.append f) := by
  have hnew : (h.filters.find? fun f => f.filterStr == kind ++ colon :: value) = none := by
    rw [List.find?_eq_none]
    intro g hg heq
    rw [h.filterStr g hg] at heq
    simp at heq
  unfold FilterHelper.addFilter
  rw [hnew, splitColon_append hkind]
  exact (Option.map_eq_bind ..).symm

theorem addFilter_of_newFilter {ipv6 : Bytes → Option (Vector u8 4)} {kind value : Bytes}
    {f : ArgFilter} (h : FilterHelper) (hkind : colon ∉ kind)
    (hf : newFilter ipv6 kind value = some f) :
    h.addFilter ipv6 (kind ++ colon :: value) =
      some (BitVec.ofNat 32 (h.filters.length + 1), h.append f) := by
  rw [addFilter_eq_map value h hkind, hf, Option.map_some]

end Stackplz
