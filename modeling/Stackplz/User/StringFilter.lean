import Stackplz.Probe.ReadArgs
import Stackplz.User.FilterHelper

/-!
# String filters

A `w:` or `b:` filter is compared by length and then through a map whose keys are texts padded
with zeros. The length of the read string counts its terminator and that of the filter does not,
so a string that is one byte shorter than the filter is compared too, terminator included. The
comparison comes to asking whether the filter is a prefix of the string
(`stringFilter_matches_iff`).
-/

set_option autoImplicit false

namespace Stackplz

/-! ## Strings in memory -/

/-- The C string `s` with its terminator stands at `addr`. -/
def UserMem.CString (mem : UserMem) (addr : u64) (s : Bytes) : Prop :=
  0 ∉ s ∧ mem.read addr (s.length + 1) = some (s ++ [0])

theorem cString_nil {mem : UserMem} {addr : u64} (h : mem.CString addr []) : mem addr = some 0 := by
  have hread := h.2
  simp only [List.length_nil, UserMem.read, Option.bind_eq_bind, Option.bind_eq_some_iff] at hread
  obtain ⟨b, hb, rest, -, heq⟩ := hread
  obtain ⟨rfl, -⟩ := List.cons.inj (Option.some.inj heq)
  exact hb

theorem cString_cons {mem : UserMem} {addr : u64} {b : u8} {s : Bytes}
    (h : mem.CString addr (b :: s)) : b ≠ 0 ∧ mem addr = some b ∧ mem.CString (addr + 1) s := by
  have hread := h.2
  rw [List.length_cons, UserMem.read] at hread
  simp only [Option.bind_eq_bind, Option.bind_eq_some_iff] at hread
  obtain ⟨b', hb, rest, hrest, heq⟩ := hread
  obtain ⟨rfl, rfl⟩ := List.cons.inj (Option.some.inj heq)
  have hne : b' ≠ 0 := fun hzero => h.1 (hzero ▸ List.mem_cons_self ..)
  exact ⟨hne, hb, fun hmem => h.1 (List.mem_cons_of_mem b' hmem), hrest⟩

/-- A string is read up to its terminator, or cut to the size of the buffer. -/
theorem readStr_cString {mem : UserMem} {n : Nat} :
    ∀ {addr : u64} {s : Bytes}, mem.CString addr s →
      mem.readStr addr (n + 1) = some (s.take n ++ [0]) := by
  induction n with
  | zero =>
      intro addr s h
      obtain ⟨b, hb⟩ : ∃ b, mem addr = some b := by
        cases s with
        | nil => exact ⟨0, cString_nil h⟩
        | cons b s => exact ⟨b, (cString_cons h).2.1⟩
      show (mem addr).map (fun _ => [0]) = some [0]
      rw [hb]
      rfl
  | succ n ih =>
      intro addr s h
      unfold UserMem.readStr
      cases s with
      | nil =>
          rw [cString_nil h]
          rfl
      | cons b s =>
          obtain ⟨hne, hb, hrest⟩ := cString_cons h
          rw [hb]
          show (if b = 0 then _ else _) = _
          rw [if_neg hne, ih hrest]
          rfl

/-! ## The comparison -/

/-- The padded texts are equal exactly when the texts are. -/
theorem strValOf_injective {as bs : Bytes} (hlen : as.length = bs.length)
    (hle : as.length ≤ maxStrcmpLen) (h : strValOf as = strValOf bs) : as = bs := by
  refine List.ext_getElem hlen fun i ha hb => ?_
  have hi : i < 256 := Nat.lt_of_lt_of_le ha hle
  have hget : (strValOf as)[i] = (strValOf bs)[i] := by rw [h]
  simpa [strValOf, List.getD_eq_getElem?_getD, List.getElem?_eq_getElem ha,
    List.getElem?_eq_getElem hb] using hget

/-- A text without a terminator is a prefix of a string with its terminator exactly when it is
one of the string. -/
theorem prefix_terminated_iff {text s : Bytes} (h : 0 ∉ text) : text <+: s ++ [0] ↔ text <+: s := by
  rw [List.prefix_concat_iff]
  constructor
  · rintro (rfl | hpre)
    · exact absurd (List.mem_append_right s (List.mem_singleton_self 0)) h
    · exact hpre
  · exact Or.inr

section Compare

variable {mem : UserMem} {addr : u64} {s text : Bytes}

/-- The text that is compared is as much of the string as the filter is long. -/
theorem scratchText_cString (h : mem.CString addr s) {n : Nat} (hle : n ≤ s.length + 1) :
    scratchText mem addr n = strValOf ((s ++ [0]).take n) := by
  have hread : mem.read addr n = some ((s ++ [0]).take n) := by
    refine UserMem.read_take (m := s.length + 1 - n) ?_
    rw [Nat.add_sub_of_le hle]
    exact h.2
  unfold scratchText strValOf
  rw [hread]
  rfl

/-- The number of bytes that are saved of a string, terminator included. -/
def savedLen (s : Bytes) : Nat := min (maxStringSize - 1) s.length + 1

/-- The comparison of a string that was saved, run alone. -/
theorem strcmpByMap_cString (h : mem.CString addr s) (hnul : 0 ∉ text)
    (hle : text.length ≤ maxStrcmpLen) {f : ArgFilter} (hval : f.strVal = strValOf text)
    (hlen : f.strLen = BitVec.ofNat 32 text.length) :
    strcmpByMap .empty (StrcmpCall.ofRead mem (BitVec.ofNat 32 (savedLen s)) addr f) =
      (decide (text <+: s), .empty) := by
  have hmax : maxStrcmpLen < maxStringSize - 1 ∧ maxStringSize < 2 ^ 32 := by decide
  have hsaved : savedLen s ≤ maxStringSize := by
    unfold savedLen
    omega
  let call := StrcmpCall.ofRead mem (BitVec.ofNat 32 (savedLen s)) addr f
  have htextLen : f.strLen.toNat = text.length := by
    rw [hlen, BitVec.toNat_ofNat, Nat.mod_eq_of_lt (by omega)]
  have hshort : call.TooShort ↔ s.length + 1 < text.length := by
    show BitVec.ofNat 32 (savedLen s) < f.strLen ↔ _
    rw [BitVec.lt_def, htextLen, BitVec.toNat_ofNat, Nat.mod_eq_of_lt (by omega)]
    unfold savedLen
    omega
  have hstarts : call.alone = decide (text <+: s) := by
    rw [alone_eq]
    by_cases htoo : call.TooShort
    · have hnot : ¬ text <+: s := fun hpre => by
        have := hpre.length_le
        have := hshort.mp htoo
        omega
      simp [htoo, hnot]
    · have hfits : text.length ≤ s.length + 1 := by
        have := mt hshort.mpr htoo
        omega
      have hscratch : call.strValue = strValOf ((s ++ [0]).take text.length) := by
        show scratchText mem addr (min f.strLen.toNat maxStrcmpLen) = _
        rw [htextLen, Nat.min_eq_left hle, scratchText_cString h hfits]
      have htake : ((s ++ [0]).take text.length).length = text.length := by
        rw [List.length_take, List.length_append]
        exact Nat.min_eq_left hfits
      have hequal : call.strValue = call.filter.strVal ↔ text <+: s := by
        show call.strValue = f.strVal ↔ _
        rw [hscratch, hval, ← prefix_terminated_iff hnul, List.prefix_iff_eq_take,
          eq_comm (a := text)]
        exact ⟨strValOf_injective htake (htake.trans_le hle), congrArg strValOf⟩
      simp [htoo, hequal]
  exact Prod.ext hstarts (strcmpByMap_empty call)

end Compare

/-! ## The ops -/

/-- What is left of a string that was saved: its length, and its address without the tag. -/
theorem saveString_cString {mem : UserMem} {st : OpState} {s : Bytes}
    (h : mem.CString (untag st.data.readAddr) s)
    (hsaved : (saveStrToBuf mem st.event (untag st.data.readAddr) st.data.saveIndex).2 = true) :
    (st.saveString mem).data.strLen = BitVec.ofNat 32 (savedLen s) ∧
      (st.saveString mem).data.readAddr = untag st.data.readAddr ∧
        (st.saveString mem).strBuf = st.strBuf := by
  refine ⟨?_, rfl, rfl⟩
  have hread : mem.readStr (untag st.data.readAddr) maxStringSize =
      some (s.take (maxStringSize - 1) ++ [0]) := readStr_cString h
  rcases Nat.lt_or_ge saveLimit st.event.bufOff with hfull | hroom
  · rw [saveStrToBuf_of_full _ hfull] at hsaved
    cases hsaved
  · have hsave := @saveStrToBuf_of_room mem st.event st.data.saveIndex
      (untag st.data.readAddr) hroom
    have hstrLen : (st.saveString mem).data.strLen =
        let r := saveStrToBuf mem st.event (untag st.data.readAddr) st.data.saveIndex
        if r.2 then BitVec.ofNat 32 (r.1.bufOff - (st.event.bufOff + 4 + 1))
        else st.data.strLen := rfl
    rw [hstrLen, hsave, hread]
    show BitVec.ofNat 32 ((st.event.args ++ _).length - (st.event.args.length + 4 + 1)) = _
    congr 1
    simp only [List.length_append, List.length_cons, LittleEndian.length_ofWord, List.length_take,
      List.length_nil, savedLen]
    omega

/-- The flags after a string filter was evaluated. -/
def OpData.reports (type : FilterType) (isMatch : Bool) (d : OpData) : OpData :=
  match type with
  | .whitelist => { d with applyFilter := true, matchWhitelist := d.matchWhitelist || isMatch }
  | .blacklist => { d with matchBlacklist := d.matchBlacklist || isMatch }
  | _ => d

/-- The kinds of string filters. -/
def stringKinds : List (String × FilterType) :=
  [("w", .whitelist), ("white", .whitelist), ("b", .blacklist), ("black", .blacklist)]

theorem addFilter_string {kind : String} {type : FilterType} (hkind : (kind, type) ∈ stringKinds)
    {text : Bytes} (hle : text.length ≤ maxStrcmpLen) (ipv6 : Bytes → Option (Vector u8 4))
    (helper : FilterHelper) :
    helper.addFilter ipv6 (ascii kind ++ colon :: text) =
      some (BitVec.ofNat 32 (helper.filters.length + 1),
        helper.append ⟨type, strValOf text, BitVec.ofNat 32 text.length, 0⟩) := by
  have hfilter (type : FilterType) : strFilter type text =
      some ⟨type, strValOf text, BitVec.ofNat 32 text.length, 0⟩ := if_neg (Nat.not_lt.mpr hle)
  have hnew : colon ∉ ascii kind ∧ newFilter ipv6 (ascii kind) text =
      some ⟨type, strValOf text, BitVec.ofNat 32 text.length, 0⟩ := by
    unfold newFilter
    simp only [stringKinds, List.mem_cons, Prod.mk.injEq, List.not_mem_nil, or_false] at hkind
    rcases hkind with ⟨rfl, rfl⟩ | ⟨rfl, rfl⟩ | ⟨rfl, rfl⟩ | ⟨rfl, rfl⟩
    · rw [ofList_asText_ascii (s := "w") rfl]
      exact ⟨by decide, hfilter _⟩
    · rw [ofList_asText_ascii (s := "white") rfl]
      exact ⟨by decide, hfilter _⟩
    · rw [ofList_asText_ascii (s := "b") rfl]
      exact ⟨by decide, hfilter _⟩
    · rw [ofList_asText_ascii (s := "black") rfl]
      exact ⟨by decide, hfilter _⟩
  exact addFilter_of_newFilter helper hnew.1 hnew.2

/-- **A string filter matches the strings it is a prefix of.** Every text of up to 256 bytes
without a terminator is accepted, and for every string that `OP_SAVE_STRING` saved, the
`OP_FILTER_STRING` after it, run alone, reports whether the text is a prefix of the string and
leaves the map empty. -/
theorem stringFilter_matches_iff {kind : String} {type : FilterType}
    (hkind : (kind, type) ∈ stringKinds) {text : Bytes} (hle : text.length ≤ maxStrcmpLen)
    (hnul : 0 ∉ text) (ipv6 : Bytes → Option (Vector u8 4)) (helper : FilterHelper) :
    ∃ f, helper.addFilter ipv6 (ascii kind ++ colon :: text) =
        some (BitVec.ofNat 32 (helper.filters.length + 1), helper.append f) ∧
      ∀ (env : ProbeEnv) (saveOp op : OpConfig) (st : OpState) (s : Bytes),
        env.mem.CString (untag st.data.readAddr) s →
        (saveStrToBuf env.mem st.event (untag st.data.readAddr) st.data.saveIndex).2 = true →
        st.strBuf = .empty → env.argFilter.lookup op.value = some f →
        let saved := (execOp env saveOp .saveString st).2
        strcmpByMap saved.strBuf
            (StrcmpCall.ofRead env.mem saved.data.strLen saved.data.readAddr f) =
          (decide (text <+: s), .empty) ∧
        execOp env op .filterString saved =
          (true, { saved with
            data := saved.data.reports type (decide (text <+: s)), strBuf := .empty }) := by
  refine ⟨_, addFilter_string hkind hle ipv6 helper,
    fun env saveOp op st s hstring hsaved hempty hlookup => ?_⟩
  obtain ⟨hlen, haddr, hbuf⟩ := saveString_cString hstring hsaved
  have hstrcmp : strcmpByMap (st.saveString env.mem).strBuf
      (StrcmpCall.ofRead env.mem (st.saveString env.mem).data.strLen
        (st.saveString env.mem).data.readAddr
        ⟨type, strValOf text, BitVec.ofNat 32 text.length, 0⟩) =
      (decide (text <+: s), .empty) := by
    rw [hlen, haddr, hbuf, hempty]
    exact strcmpByMap_cString hstring hnul hle rfl rfl
  refine ⟨hstrcmp, ?_⟩
  show execOp env op .filterString (st.saveString env.mem) = _
  simp only [execOp, hlookup, OpState.filterString, hstrcmp]
  rfl

/-- A process that has the string `AB` at `0x1000`, and the filter `f` under the index 1. -/
def lettersEnv (f : ArgFilter) : ProbeEnv where
  mem := fun addr =>
    if addr = 0x1000 then some 65
    else if addr = 0x1001 then some 66
    else if addr = 0x1002 then some 0
    else none
  regs := ⟨Vector.replicate 31 0, 0, 0, 0⟩
  opList := .empty
  argFilter := BoundedMap.empty.put 1 f

/-- The interpreter at the string. -/
def lettersState : OpState :=
  ⟨{ OpCtx.cleared.toOpData with readAddr := 0x1000 }, .init, .empty⟩

theorem cString_letters (f : ArgFilter) : (lettersEnv f).mem.CString 0x1000 [65, 66] := by
  show UserMem.CString (fun addr => if addr = 0x1000 then some 65
    else if addr = 0x1001 then some 66 else if addr = 0x1002 then some 0 else none) _ _
  exact ⟨by decide, by decide⟩

/-- `w:A` matches `AB`. -/
theorem stringFilter_matches_letters :
    ∃ f, FilterHelper.new.addFilter (fun _ => none) (ascii "w" ++ colon :: ascii "A") =
        some (1, FilterHelper.new.append f) ∧
      (execOp (lettersEnv f) ⟨.filterString, .skip, .skip, 1⟩ .filterString
        (execOp (lettersEnv f) ⟨.saveString, .skip, .skip, 0⟩ .saveString
          lettersState).2).2.data.matchWhitelist = true := by
  obtain ⟨f, hadd, hexec⟩ := @stringFilter_matches_iff "w" .whitelist (by decide) (ascii "A")
    (by decide) (by decide) (fun _ => none) .new
  have hroom : lettersState.event.bufOff ≤ saveLimit := by decide
  have hread : (lettersEnv f).mem.readStr (untag lettersState.data.readAddr) maxStringSize =
      some [65, 66, 0] := readStr_cString (cString_letters f)
  have hsaved : (saveStrToBuf (lettersEnv f).mem lettersState.event
      (untag lettersState.data.readAddr) lettersState.data.saveIndex).2 = true := by
    rw [saveStrToBuf_of_room hroom, hread]
  have hlookup : (lettersEnv f).argFilter.lookup 1 = some f :=
    BoundedMap.lookup_put_self _ (Or.inr (by decide))
  obtain ⟨-, hfilter⟩ := hexec (lettersEnv f) ⟨.saveString, .skip, .skip, 0⟩
    ⟨.filterString, .skip, .skip, 1⟩ lettersState _ (cString_letters f) hsaved rfl hlookup
  refine ⟨f, hadd, ?_⟩
  rw [hfilter]
  have hstarts : ascii "A" <+: [65, 66] := by decide
  simp only [OpData.reports, decide_eq_true hstarts, Bool.or_true]

end Stackplz
