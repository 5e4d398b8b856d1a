import Stackplz.Probe.Loops
import Stackplz.User.SaveRecords
import Stackplz.User.StringFilter

/-!
# Arrays of strings

`string_array` saves a pointer and its string in every round of a loop, for at most
`MAX_LOOP_COUNT` entries. A string that cannot be read is marked by its length, and the op that
finds it sets `loop_count` to `break_count`, so that the round is the last one. The parser has
a bound of its own and leaves at the mark. `stringArray_returns` says that the two ends meet, and
what is left of a string that is long or has white space at its ends.
-/

set_option autoImplicit false

namespace Stackplz

/-! ## The strings of an array -/

/-- The string of the array entry at an address, if the entry and its string can be read. -/
def stringEntry (mem : UserMem) (addr : u64) : Option (List u8) := do
  let ptr ← mem.read (untag addr) ptrSize
  mem.readStr (untag (LittleEndian.toWord 8 ptr)) maxStringSize

/-- The strings of an array of `n` entries up to the first entry without one. -/
def leadingStrings (mem : UserMem) : Nat → u64 → List (List u8)
  | 0, _ => []
  | n + 1, addr =>
      match stringEntry mem addr with
      | some s => s :: leadingStrings mem n (addr + 8)
      | none => []

/-- These are the strings of the first `m` entries, where entry `m` is the first one without a
string, or `m` is the number of entries. -/
theorem leadingStrings_spec (mem : UserMem) (n : Nat) : ∀ addr : u64,
    (leadingStrings mem n addr).length ≤ n ∧
      (∀ i, (leadingStrings mem n addr)[i]? =
        if i < (leadingStrings mem n addr).length then
          stringEntry mem (addr + BitVec.ofNat 64 (8 * i)) else none) ∧
      ((leadingStrings mem n addr).length < n →
        stringEntry mem (addr + BitVec.ofNat 64 (8 * (leadingStrings mem n addr).length)) =
          none) := by
  have hnext (addr : u64) (i : Nat) : addr + 8 + BitVec.ofNat 64 (8 * i) =
      addr + BitVec.ofNat 64 (8 * (i + 1)) := by
    rw [BitVec.add_assoc, Nat.mul_succ, Nat.add_comm, BitVec.ofNat_add]
    rfl
  have hfirst (addr : u64) : addr + BitVec.ofNat 64 (8 * 0) = addr := BitVec.add_zero addr
  induction n with
  | zero =>
      intro addr
      exact ⟨Nat.le_refl 0, fun i => rfl, fun h => absurd h (Nat.lt_irrefl 0)⟩
  | succ n ih =>
      intro addr
      unfold leadingStrings
      cases hentry : stringEntry mem addr with
      | none =>
          refine ⟨Nat.zero_le _, fun i => rfl, fun _ => ?_⟩
          rw [List.length_nil, hfirst]
          exact hentry
      | some s =>
          obtain ⟨hle, hget, hlast⟩ := ih (addr + 8)
          dsimp only
          rw [List.length_cons]
          refine ⟨Nat.succ_le_succ hle, fun i => ?_, fun hlt => ?_⟩
          · cases i with
            | zero =>
                rw [if_pos (Nat.succ_pos _), hfirst, hentry]
                rfl
            | succ i =>
                rw [List.getElem?_cons_succ, hget i, hnext]
                exact if_congr Nat.succ_lt_succ_iff.symm rfl rfl
          · rw [← hnext]
            exact hlast (Nat.lt_of_succ_lt_succ hlt)

/-- The C strings at the first pointers of an array of `n` entries, up to the first entry whose
string cannot be read. -/
def StringsAt (mem : UserMem) : Nat → u64 → List (List u8) → Prop
  | 0, _, strings => strings = []
  | _ + 1, addr, [] => stringEntry mem addr = none
  | n + 1, addr, s :: strings =>
      (∃ ptr, mem.read (untag addr) ptrSize = some ptr ∧
        mem.CString (untag (LittleEndian.toWord 8 ptr)) s) ∧ StringsAt mem n (addr + 8) strings

/-- Of a long string the first bytes are read, and there is a terminator behind them. -/
theorem leadingStrings_of_stringsAt {mem : UserMem} {n : Nat} : ∀ {addr : u64}
    {strings : List (List u8)}, StringsAt mem n addr strings →
      leadingStrings mem n addr = strings.map fun s => s.take (maxStringSize - 1) ++ [0] := by
  induction n with
  | zero =>
      intro addr strings h
      obtain rfl : strings = [] := h
      rfl
  | succ n ih =>
      intro addr strings h
      unfold leadingStrings
      cases strings with
      | nil =>
          have hnone : stringEntry mem addr = none := h
          rw [hnone]
          rfl
      | cons s strings =>
          obtain ⟨⟨ptr, hptr, hstring⟩, hrest⟩ := h
          have hentry : stringEntry mem addr = some (s.take (maxStringSize - 1) ++ [0]) := by
            unfold stringEntry
            rw [hptr]
            exact readStr_cString hstring
          rw [hentry, List.map_cons, ih hrest]

/-- What the probe saves of the entry at an address: the pointer, and its string if there is one.
A pointer that cannot be read counts as zero. -/
def arrayEntry (mem : UserMem) (addr : u64) : u64 × Option (List u8) :=
  (mem.readWord (untag addr), mem.readStr (untag (mem.readWord (untag addr))) maxStringSize)

/-- The entries that the probe saves of an array of `n`: up to the first one without a string,
which is saved as well. -/
def arrayEntries (mem : UserMem) : Nat → u64 → List (u64 × Option (List u8))
  | 0, _ => []
  | n + 1, addr =>
      arrayEntry mem addr ::
        if (arrayEntry mem addr).2.isSome then arrayEntries mem n (addr + 8) else []

/-- The records of entries. -/
def entriesBytes : u8 → List (u64 × Option (List u8)) → List u8
  | _, [] => []
  | index, e :: es =>
      Saved.encode index (.word e.1) ++ stringRecord (index + 1) e.2 ++ entriesBytes (index + 2) es

theorem entriesBytes_cons (index : u8) (e : u64 × Option (List u8))
    (es : List (u64 × Option (List u8))) :
    entriesBytes index (e :: es) = entriesBytes index [e] ++ entriesBytes (index + 2) es := by
  have hnil : entriesBytes (index + 2) [] = [] := rfl
  rw [entriesBytes, entriesBytes, hnil, List.append_nil]

theorem arrayEntries_next {mem : UserMem} {addr : u64} {m : Nat}
    (h : (arrayEntry mem addr).2.isSome = true) :
    arrayEntries mem (m + 1) addr = arrayEntry mem addr :: arrayEntries mem m (addr + 8) := by
  rw [arrayEntries, if_pos h]

theorem arrayEntries_last {mem : UserMem} {addr : u64} {m : Nat}
    (h : (arrayEntry mem addr).2.isSome = true → m = 0) :
    arrayEntries mem (m + 1) addr = [arrayEntry mem addr] := by
  unfold arrayEntries
  split
  · rename_i hsome
    rw [h hsome]
    rfl
  · rfl

section Entries

variable {mem : UserMem}

/-- No string starts at an address that cannot be read. -/
theorem readStr_of_fault {addr : u64} (h : mem addr = none) {n : Nat} (hn : n ≠ 0) :
    mem.readStr addr n = none := by
  cases n with
  | zero => exact absurd rfl hn
  | succ n =>
      cases n with
      | zero =>
          show (mem addr).map _ = none
          rw [h]
          rfl
      | succ n =>
          show (mem addr).bind _ = none
          rw [h]
          rfl

/-- Where address 0 cannot be read, an entry that cannot be read is an entry without a string:
the pointer that the probe uses in its place is zero. -/
theorem readStr_readWord (hnull : mem 0 = none) (addr : u64) :
    mem.readStr (untag (mem.readWord (untag addr))) maxStringSize = stringEntry mem addr := by
  have hnone : mem.readStr (untag 0) maxStringSize = none := by
    rw [show untag 0 = 0 from rfl]
    exact readStr_of_fault hnull (by decide)
  unfold stringEntry UserMem.readWord
  cases mem.read (untag addr) ptrSize with
  | some ptr => rw [Option.bind_eq_bind, Option.bind_some]
  | none =>
      rw [Option.bind_eq_bind, Option.bind_none]
      exact hnone

/-- A pointer to a string is not null. -/
theorem readWord_ne_zero (hnull : mem 0 = none) {addr : u64} {s : List u8}
    (h : stringEntry mem addr = some s) : mem.readWord (untag addr) ≠ 0 := by
  intro hzero
  rw [← readStr_readWord hnull, hzero, show untag 0 = 0 from rfl,
    readStr_of_fault hnull (by decide)] at h
  cases h

/-! ## What the parser makes of the records -/

/-- The records of one entry. -/
def entryRecord (mem : UserMem) (addr : u64) (index : u8) : List u8 :=
  Saved.encode index (.word (mem.readWord (untag addr))) ++
    stringRecord (index + 1) (stringEntry mem addr)

/-- A round of the parser reads a pointer and the record of a string. -/
theorem readStrings_succ (n : Nat) : readStrings (n + 1) = (do
    let addr ← readReg
    let s ← readString
    s.elim (pure []) fun payload =>
      if addr = 0 then pure [] else do
        let rest ← readStrings n
        return payload :: rest) := by
  have hone (addr : u64) : (do
      let len ← readLen
      if len = strarrMagicLen then return []
      else do
        let payload ← Reader.take len.toNat
        if addr = 0 then return []
        else do
          let rest ← readStrings n
          return payload :: rest : Reader (List (List u8))) =
        (readString >>= fun s => s.elim (pure []) fun payload =>
          if addr = 0 then pure [] else do
            let rest ← readStrings n
            return payload :: rest) := by
    unfold readString
    rw [Reader.bind_assoc]
    refine congrArg (readLen >>= ·) (funext fun len => ?_)
    split
    · rfl
    · rw [Reader.bind_assoc]
      rfl
  exact congrArg (readReg >>= ·) (funext hone)

/-- At the mark the parser leaves. -/
theorem consumes_lastEntry {addr : u64} (h : stringEntry mem addr = none) (index : u8) (n : Nat) :
    Reader.Consumes (readStrings (n + 1)) (entryRecord mem addr index) [] := by
  have hmark : Reader.Consumes readString (stringRecord (index + 1) none) none :=
    consumes_stringRecord (index + 1) nofun
  rw [readStrings_succ, entryRecord, h, ← List.append_nil (stringRecord _ _)]
  exact (consumes_readReg index _).bind (hmark.bind (Reader.consumes_pure []))

/-- A string is read, and then the rest of the array. -/
theorem consumes_entry (hnull : mem 0 = none) {addr : u64} {s : List u8}
    (h : stringEntry mem addr = some s) (index : u8) {n : Nat} {bytes : List u8}
    {strings : List (List u8)} (hrest : Reader.Consumes (readStrings n) bytes strings) :
    Reader.Consumes (readStrings (n + 1)) (entryRecord mem addr index ++ bytes) (s :: strings) := by
  have hstring : Reader.Consumes readString (stringRecord (index + 1) (some s)) (some s) := by
    refine consumes_stringRecord (index + 1) fun payload hpayload => ?_
    obtain rfl := Option.some.inj hpayload
    rw [← readStr_readWord hnull] at h
    exact UserMem.length_readStr_le h
  have hlater := hrest.bind_pure (s :: ·)
  unfold entryRecord
  rw [readStrings_succ, h, List.append_assoc]
  refine (consumes_readReg index _).bind (hstring.bind ?_)
  show Reader.Consumes (if mem.readWord (untag addr) = 0 then _ else _) bytes _
  rw [if_neg (readWord_ne_zero hnull h)]
  exact hlater

/-- The records of the saved entries are read back as the strings of the array. -/
theorem consumes_entries (hnull : mem 0 = none) (n : Nat) : ∀ (addr : u64) (index : u8),
    Reader.Consumes (readStrings n) (entriesBytes index (arrayEntries mem n addr))
      (leadingStrings mem n addr) := by
  induction n with
  | zero => exact fun _ _ _ => rfl
  | succ n ih =>
      intro addr index
      have hstring : (arrayEntry mem addr).2 = stringEntry mem addr := readStr_readWord hnull addr
      have hrecord : Saved.encode index (.word (arrayEntry mem addr).1) ++
          stringRecord (index + 1) (arrayEntry mem addr).2 = entryRecord mem addr index := by
        rw [hstring]
        rfl
      unfold arrayEntries leadingStrings
      rw [entriesBytes, hrecord, hstring]
      cases hentry : stringEntry mem addr with
      | none =>
          rw [if_neg (show ¬ (none : Option (List u8)).isSome = true from Bool.false_ne_true),
            entriesBytes, List.append_nil]
          exact consumes_lastEntry hentry index n
      | some str =>
          rw [if_pos (show (some str).isSome = true from rfl)]
          exact consumes_entry hnull hentry index (ih (addr + 8) (index + 2))

end Entries

/-! ## What is shown of a string -/

theorem trimFront_suffix (runes : List (List u8)) (n : Nat) :
    ∀ s : List u8, trimFront runes n s <:+ s := by
  induction n with
  | zero => exact fun s => List.suffix_rfl
  | succ n ih =>
      intro s
      unfold trimFront
      split
      · rename_i rune _
        exact (ih _).trans (List.drop_suffix _ s)
      · exact List.suffix_rfl

theorem length_trimSpace_le (s : List u8) : (trimSpace s).length ≤ s.length := by
  have hback := (trimFront_suffix (whiteSpace.map List.reverse)
    (trimFront whiteSpace s.length s).length (trimFront whiteSpace s.length s).reverse).length_le
  have hfront := (trimFront_suffix whiteSpace s.length s).length_le
  unfold trimSpace
  rw [List.length_reverse] at hback ⊢
  exact Nat.le_trans hback hfront

/-- A terminator is not shown. -/
theorem b2sTrim_terminated (s : List u8) : b2sTrim (s ++ [0]) = b2sTrim s := by
  unfold b2sTrim
  rw [List.dropWhile_append]
  split
  · rename_i hempty
    have hnul : [(0 : u8)].dropWhile (· == 0) = [] := rfl
    rw [hnul, List.isEmpty_iff.mp hempty]
  · rw [List.rdropWhile_concat_pos (· == 0) _ 0 (beq_self_eq_true 0)]

theorem length_b2sTrim_le (s : List u8) : (b2sTrim s).length ≤ s.length := by
  unfold b2sTrim
  calc (trimSpace ((s.dropWhile (· == 0)).rdropWhile (· == 0))).length
      ≤ ((s.dropWhile (· == 0)).rdropWhile (· == 0)).length := length_trimSpace_le _
    _ ≤ (s.dropWhile (· == 0)).length := (List.rdropWhile_prefix _ _).length_le
    _ ≤ s.length := (List.dropWhile_suffix _).length_le

/-- Strings are shown as they are exactly when none is cut and none is trimmed. -/
theorem map_b2sTrim_eq_iff (strings : List (List u8)) :
    strings.map (fun s => b2sTrim (s.take (maxStringSize - 1))) = strings ↔
      ∀ s ∈ strings, s.length < maxStringSize ∧ b2sTrim s = s := by
  have hone (s : List u8) : b2sTrim (s.take (maxStringSize - 1)) = s ↔
      s.length < maxStringSize ∧ b2sTrim s = s := by
    have hsize : maxStringSize = 4096 := rfl
    constructor
    · intro h
      have hle := length_b2sTrim_le (s.take (maxStringSize - 1))
      rw [h, List.length_take] at hle
      -- trimming makes nothing longer, so that nothing was cut off
      have hshort : s.length ≤ maxStringSize - 1 := by omega
      rw [List.take_of_length_le hshort] at h
      exact ⟨by omega, h⟩
    · rintro ⟨hshort, h⟩
      rw [List.take_of_length_le (by omega), h]
  induction strings with
  | nil => simp
  | cons s strings ih =>
      rw [List.map_cons, List.cons.injEq, List.forall_mem_cons]
      exact and_congr (hone s) ih

/-! ## The op that saves an entry -/

section Entry

variable {mem : UserMem} {st : OpState}

/-- Unless it is refused, the op appends the records of the entry, and it leaves the counter of
the loop alone exactly when there is a string. -/
theorem savePtrString_spec (h : (st.savePtrString mem).event.refused = false) :
    st.event.refused = false ∧
      (st.savePtrString mem).event.args = st.event.args ++
        entriesBytes st.data.saveIndex [arrayEntry mem st.data.readAddr] ∧
      (st.savePtrString mem).data.loopCount =
        if (arrayEntry mem st.data.readAddr).2.isSome then st.data.loopCount
        else st.data.breakCount := by
  have hevent := savePtrString_event mem st
  have hcount : (st.savePtrString mem).data.loopCount =
      if (saveStrToBuf mem (st.saveWord (mem.readWord (untag st.data.readAddr))).event
        (untag (mem.readWord (untag st.data.readAddr))) (st.data.saveIndex + 1)).2 then
        st.data.loopCount else st.data.breakCount := rfl
  unfold arrayEntry entriesBytes
  generalize mem.readWord (untag st.data.readAddr) = ptr at hevent hcount ⊢
  rw [hevent] at h
  -- a string that is refused leaves no room for its mark either
  have hroom : (st.saveWord ptr).event.bufOff ≤ saveLimit := by
    by_contra hfull
    have hfull : saveLimit < (st.saveWord ptr).event.bufOff := Nat.lt_of_not_le hfull
    rw [saveStrToBuf_of_full (untag ptr) hfull] at h
    have hmark : (saveBytesToBuf mem (st.saveWord ptr).event.refuse 0 strarrMagicLen
        (st.data.saveIndex + 1)).1.refused = false := h
    rw [saveBytesToBuf_of_full 0 strarrMagicLen
      (show saveLimit < (st.saveWord ptr).event.refuse.bufOff from hfull)] at hmark
    cases hmark
  have hsave := @saveStrToBuf_of_room mem _ (st.data.saveIndex + 1) (untag ptr) hroom
  have hmark := @saveStandIn_of_room mem _ (st.data.saveIndex + 1) strarrMagicLen (Or.inr rfl) hroom
  rw [hsave] at hevent hcount h
  cases hstring : mem.readStr (untag ptr) maxStringSize with
  | some s =>
      rw [hstring] at hevent hcount h
      obtain ⟨hstart, hword⟩ := saveWord_spec h
      refine ⟨hstart, ?_, hcount⟩
      rw [hevent]
      show (st.saveWord ptr).event.args ++ _ = _
      rw [hword, entriesBytes, List.append_nil, List.append_assoc]
      rfl
  | none =>
      rw [hstring] at hevent hcount h
      have hlast : (st.savePtrString mem).event = (st.saveWord ptr).event.commit
          (standIn (st.data.saveIndex + 1) strarrMagicLen) := hevent.trans hmark
      have hkept : (st.saveWord ptr).event.refused = false := by
        rw [← hevent, hlast] at h
        exact h
      obtain ⟨hstart, hword⟩ := saveWord_spec hkept
      refine ⟨hstart, ?_, hcount⟩
      rw [hlast]
      show (st.saveWord ptr).event.args ++ _ = _
      rw [hword, entriesBytes, List.append_nil, List.append_assoc]
      rfl

end Entry

/-! ## The loop -/

/-- The loop of `r_STRING_ARRAY`. -/
def stringArrayLoop : OpLoop where
  setup := [(opcSetBreakCount.newValue (maxLoopCount.setWidth 64)).toOpConfig]
  head := opcForBreak.toOpConfig
  body := [opcSavePtrString, opcAddOffset.newValue 8].map NamedOp.toOpConfig
  tail := opcForBreak.toOpConfig
  first := []
  setter := ((opcSetBreakCount.newValue (maxLoopCount.setWidth 64)).toOpConfig, .setBreakCount)
  others := []
  codes_setup := rfl
  setter_sets := rfl
  others_keep := OpLoop.no_others
  body_keep := by decide
  setup_forBreak := by decide
  body_forBreak := by decide
  head_steps := opcForBreak_steps
  tail_steps := opcForBreak_steps

theorem ops_stringArrayLoop :
    stringArrayLoop.ops = ArgType.stringArray.opList.map NamedOp.toOpConfig := rfl

section Loop

variable {maxOp : Nat} {env : ProbeEnv} {keys : Vector u32 maxOp}

/-- What one round makes of the data. -/
def OpState.entrySaved (mem : UserMem) (st : OpState) : OpState :=
  (st.savePtrString mem).setData fun d => { d with readAddr := d.readAddr + 8 }

/-- The body of a round cannot end the loop of `read_args`. -/
theorem run_entry (hmax : maxOp < 2 ^ 32) {st : LoopState} {start r i : Nat}
    (hkeys : KeysAt env keys start stringArrayLoop.body) (hround : st.InRound start r i)
    (hblack : st.ctx.matchBlacklist = false) :
    ∃ mid, (interpreter env keys).run st stringArrayLoop.bodyCodes = some mid ∧
      mid.AtOp (start + 2) ∧ mid.opState = st.opState.entrySaved env.mem ∧
      mid.ctx.loopIndex = st.ctx.loopIndex := by
  have hsteps : runSteps env stringArrayLoop.bodyCodes st.opState =
      some ([], st.opState.entrySaved env.mem) := by
    refine runSteps_cons.mpr ⟨[], _, [], step_eq_some.mpr ⟨rfl, hblack, rfl⟩, ?_, rfl⟩
    exact runSteps_cons.mpr ⟨[], _, [], step_eq_some.mpr ⟨rfl, hblack, rfl⟩, rfl, rfl⟩
  obtain ⟨mid, hrun, hat, hstate⟩ := run_ops hmax hround.atOp hkeys (by decide) hsteps
  exact ⟨mid, hrun, hat, hstate, run_loopIndex (by decide) hrun⟩

/-- One round: the loop goes on to the next one while the counter is below the count, which it
reaches in the last round or where an entry has no string. -/
theorem run_stringRound (hmax : maxOp < 2 ^ 32) {start : Nat}
    (hkeys : KeysAt env keys start stringArrayLoop.body) (hk : start + 2 < maxOp)
    (hkey : env.opList.lookup keys[start + 2] = some stringArrayLoop.tail) {st : LoopState}
    {i : Nat} (hround : st.InRound start 32 i) (hi : i ≠ 0)
    (hblack : st.ctx.matchBlacklist = false) :
    ∃ next, (interpreter env keys).run st stringArrayLoop.round = some next ∧
      next.event = (st.opState.savePtrString env.mem).event ∧
      next.ctx.readAddr = st.ctx.readAddr + 8 ∧ next.ctx.saveIndex = st.ctx.saveIndex + 2 ∧
      next.ctx.matchBlacklist = false ∧
      ((st.opState.savePtrString env.mem).data.loopCount.toNat < 32 ∧
          next.InRound start 32 (i + 1) ∨
        32 ≤ (st.opState.savePtrString env.mem).data.loopCount.toNat ∧
          next.LeftLoop (start + 3)) := by
  have hpost : stringArrayLoop.tail.postCode = .skip := rfl
  obtain ⟨mid, hbody, hat, hstate, hindex⟩ := run_entry hmax hkeys hround hblack
  have hmidBlack : mid.ctx.matchBlacklist = false := by
    show mid.opState.data.matchBlacklist = false
    rw [hstate]
    exact hblack
  have hcount : mid.ctx.loopCount = (st.opState.savePtrString env.mem).data.loopCount :=
    congrArg (fun o => o.data.loopCount) hstate
  have hbreak : mid.ctx.breakCount.toNat = 32 := by
    have hsame : mid.ctx.breakCount = st.ctx.breakCount :=
      congrArg (fun o => o.data.breakCount) hstate
    rw [hsame]
    exact hround.breakCount
  have hstep := step_forBreak_atOp hat hk hkey rfl hmidBlack
  obtain ⟨hevent, haddr, hsave⟩ := advance_forBreak_frame rfl (interpreter_step.mp hstep)
  have hnextBlack : (mid.jumped stringArrayLoop.tail).ctx.matchBlacklist = false := by
    obtain ⟨-, -, -, -, -, hgoes⟩ := advance_eq_some.mp (interpreter_step.mp hstep)
    exact hgoes
  refine ⟨mid.jumped stringArrayLoop.tail, ?_, ?_, ?_, ?_, hnextBlack, ?_⟩
  · exact Machine.run_append_eq_some.mpr
      ⟨mid, hbody, Machine.run_cons_eq_some.mpr ⟨_, hstep, rfl⟩⟩
  · exact hevent.trans (congrArg OpState.event hstate)
  · exact haddr.trans (congrArg (fun o => o.data.readAddr) hstate)
  · have htwo : (st.opState.entrySaved env.mem).data.saveIndex = st.ctx.saveIndex + 1 + 1 := rfl
    rw [BitVec.add_assoc] at htwo
    exact hsave.trans ((congrArg (fun o => o.data.saveIndex) hstate).trans htwo)
  · rw [← hcount]
    rcases Nat.lt_or_ge mid.ctx.loopCount.toNat 32 with hlt | hge
    · refine Or.inl ⟨hlt, inRound_tail (Nat.le_refl 32) hpost hi ?_ ?_ hbreak ?_⟩
      · have hle := hround.loopCount
        rcases savePtrString_loopCount env.mem st.opState with hsame | hset
        · have hsame : mid.ctx.loopCount.toNat = i := by
            rw [hcount, hsame]
            exact hle
          omega
        · rw [hcount, hset] at hlt
          have hbreak' : st.opState.data.breakCount.toNat = 32 := hround.breakCount
          omega
      · rcases savePtrString_loopCount env.mem st.opState with hsame | hset
        · rw [hcount, hsame]
          exact hround.loopCount
        · rw [hcount, hset] at hlt
          have hbreak' : st.opState.data.breakCount.toNat = 32 := hround.breakCount
          omega
      · rw [hindex]
        exact hround.target hi
    · exact Or.inr ⟨hge, leftLoop_tail hmax hat hk hpost (by omega)⟩

/-- From round `i` of `i + m` on: the rounds that are made append the records of the entries up
to the first one without a string. -/
theorem run_stringRounds (hmax : maxOp < 2 ^ 32) {start : Nat}
    (hkeys : KeysAt env keys start stringArrayLoop.body) (hk : start + 2 < maxOp)
    (hkey : env.opList.lookup keys[start + 2] = some stringArrayLoop.tail) (m : Nat) :
    ∀ (st : LoopState) (i : Nat), st.InRound start 32 i → i ≠ 0 → i + m = 32 →
      st.ctx.matchBlacklist = false →
      ∃ r next, (interpreter env keys).run st
          (List.replicate r stringArrayLoop.round).flatten = some next ∧
        r ≤ m + 1 ∧ next.LeftLoop (start + 3) ∧
        (next.event.refused = false → st.event.refused = false ∧
          next.event.args = st.event.args ++ entriesBytes st.ctx.saveIndex
            (arrayEntries env.mem (m + 1) st.ctx.readAddr)) := by
  induction m with
  | zero =>
      intro st i hround hi hm hblack
      obtain ⟨next, hrun, hevent, -, -, -, hgoes⟩ :=
        run_stringRound hmax hkeys hk hkey hround hi hblack
      have hcount : st.opState.data.loopCount.toNat = i := hround.loopCount
      have hbreak : st.opState.data.breakCount.toNat = 32 := hround.breakCount
      rcases hgoes with ⟨hlt, -⟩ | ⟨hge, hleft⟩
      · rcases savePtrString_loopCount env.mem st.opState with hsame | hset
        · rw [hsame] at hlt
          omega
        · rw [hset] at hlt
          omega
      · refine ⟨1, next, ?_, Nat.le_refl 1, hleft, fun hroom => ?_⟩
        · rw [List.replicate_one, List.flatten_singleton]
          exact hrun
        · rw [hevent] at hroom ⊢
          obtain ⟨hstart, hargs, -⟩ := savePtrString_spec hroom
          rw [arrayEntries_last fun _ => rfl]
          exact ⟨hstart, hargs⟩
  | succ m ih =>
      intro st i hround hi hm hblack
      obtain ⟨mid, hrun, hevent, haddr, hindex, hmidBlack, hgoes⟩ :=
        run_stringRound hmax hkeys hk hkey hround hi hblack
      have hcount : st.opState.data.loopCount.toNat = i := hround.loopCount
      rcases hgoes with ⟨hlt, hround'⟩ | ⟨hge, hleft⟩
      · obtain ⟨r, next, hrest, hle, hleft, hbytes⟩ :=
          ih mid (i + 1) hround' (Nat.succ_ne_zero i) (by omega) hmidBlack
        refine ⟨r + 1, next, ?_, Nat.succ_le_succ hle, hleft, fun hroom => ?_⟩
        · rw [List.replicate_succ, List.flatten_cons]
          exact Machine.run_append_eq_some.mpr ⟨mid, hrun, hrest⟩
        · obtain ⟨hmid, hargs⟩ := hbytes hroom
          rw [hevent] at hmid hargs
          obtain ⟨hstart, hfirst, hkept⟩ := savePtrString_spec hmid
          -- a round that is not the last has found a string
          have hstring : (arrayEntry env.mem st.ctx.readAddr).2.isSome = true := by
            by_contra hnone
            have hbreak : st.opState.data.breakCount.toNat = 32 := hround.breakCount
            have hnone' : ¬ (arrayEntry env.mem st.opState.data.readAddr).2.isSome = true := hnone
            rw [hkept, if_neg hnone'] at hlt
            omega
          refine ⟨hstart, ?_⟩
          rw [hargs, hfirst, haddr, hindex, @arrayEntries_next _ _ (m + 1) hstring,
            entriesBytes_cons _ (arrayEntry env.mem st.ctx.readAddr), List.append_assoc]
          rfl
      · refine ⟨1, mid, ?_, Nat.le_add_left 1 _, hleft, fun hroom => ?_⟩
        · rw [List.replicate_one, List.flatten_singleton]
          exact hrun
        · rw [hevent] at hroom ⊢
          obtain ⟨hstart, hargs, hkept⟩ := savePtrString_spec hroom
          have hlast : (arrayEntry env.mem st.ctx.readAddr).2.isSome = true → m + 1 = 0 := by
            intro hstring
            have hstring' : (arrayEntry env.mem st.opState.data.readAddr).2.isSome = true := hstring
            rw [hkept, if_pos hstring'] at hge
            omega
          rw [arrayEntries_last hlast]
          exact ⟨hstart, hargs⟩

/-- The loop of `string_array` is left for the next op, and unless a save was refused it has
appended the records of the entries up to the first one without a string. -/
theorem stringArray_exits (hmax : maxOp < 2 ^ 32) {k : Nat} {st : LoopState}
    (hkeys : KeysAt env keys k (ArgType.stringArray.opList.map NamedOp.toOpConfig))
    (hat : st.AtOp k) (hzero : st.ctx.loopCount = 0) (hblack : st.ctx.matchBlacklist = false) :
    ∃ r next, (interpreter env keys).run st (stringArrayLoop.trace r) = some next ∧
      r ≤ maxLoopCount.toNat ∧ next.LeftLoop (k + ArgType.stringArray.opList.length) ∧
      (next.event.refused = false → st.event.refused = false ∧
        next.event.args = st.event.args ++ entriesBytes st.ctx.saveIndex
          (arrayEntries env.mem maxLoopCount.toNat st.ctx.readAddr)) := by
  let L := stringArrayLoop
  rw [← ops_stringArrayLoop] at hkeys
  obtain ⟨hsetup, hloop⟩ := keysAt_append hkeys
  obtain ⟨⟨hk, hhead⟩, hrest⟩ := keysAt_cons hloop
  obtain ⟨hbody, htail⟩ := keysAt_append hrest
  obtain ⟨⟨hk', htailKey⟩, -⟩ := keysAt_cons htail
  -- the count is set
  have hsteps : runSteps env (L.setup.flatMap OpConfig.steps) st.opState =
      some ([], st.opState.setData fun d => { d with breakCount := maxLoopCount }) :=
    runSteps_cons.mpr ⟨[], _, [], step_eq_some.mpr ⟨rfl, hblack, rfl⟩, rfl, rfl⟩
  obtain ⟨ready, hready, hatReady, hstate⟩ := run_ops hmax hat hsetup (by decide) hsteps
  have hreadyBlack : ready.ctx.matchBlacklist = false :=
    (congrArg (fun o => o.data.matchBlacklist) hstate).trans hblack
  have hreadyCount : ready.ctx.loopCount = 0 :=
    (congrArg (fun o => o.data.loopCount) hstate).trans hzero
  have hreadyBreak : ready.ctx.breakCount.toNat = 32 :=
    congrArg BitVec.toNat (congrArg (fun o => o.data.breakCount) hstate)
  -- the head starts round 1
  have hstep := step_forBreak_atOp hatReady hk hhead rfl hreadyBlack
  obtain ⟨hevent, haddr, hindex⟩ := advance_forBreak_frame rfl (interpreter_step.mp hstep)
  obtain ⟨-, -, -, -, -, hstartBlack⟩ := advance_eq_some.mp (interpreter_step.mp hstep)
  have hround := inRound_head hmax hatReady hk (show L.head.postCode = .skip from rfl)
    hreadyCount hreadyBreak
  obtain ⟨r, next, hrounds, hle, hleft, hbytes⟩ := run_stringRounds hmax hbody hk' htailKey 31 _
    1 hround Nat.one_ne_zero rfl hstartBlack
  refine ⟨r, next, ?_, hle, hleft, fun hroom => ?_⟩
  · exact Machine.run_append_eq_some.mpr
      ⟨ready, hready, Machine.run_cons_eq_some.mpr ⟨_, hstep, hrounds⟩⟩
  · obtain ⟨hstart, hargs⟩ := hbytes hroom
    have hsame : (ready.jumped L.head).event = st.event :=
      hevent.trans (congrArg OpState.event hstate)
    have hbase : (ready.jumped L.head).ctx.readAddr = st.ctx.readAddr :=
      haddr.trans (congrArg (fun o => o.data.readAddr) hstate)
    have hfirst : (ready.jumped L.head).ctx.saveIndex = st.ctx.saveIndex :=
      hindex.trans (congrArg (fun o => o.data.saveIndex) hstate)
    rw [hsame] at hstart hargs
    rw [hbase, hfirst] at hargs
    exact ⟨hstart, hargs⟩

/-- **What is returned of an array of strings.** Where address 0 cannot be read, the loop of
`string_array` is left for the next op, and unless a save was refused the parser takes exactly the
bytes that it appended. What it returns are the strings of the entries before the first one without
a string, at most `MAX_LOOP_COUNT` of them, each cut to the size of a save and trimmed: so exactly
the strings when none is longer and none begins or ends in white space. -/
theorem stringArray_returns (hmax : maxOp < 2 ^ 32) (hnull : env.mem 0 = none) {n k : Nat}
    {st : LoopState} (hkeys : KeysAt env keys k (ArgType.stringArray.opList.map NamedOp.toOpConfig))
    (hat : st.AtOp k) (hzero : st.ctx.loopCount = 0) (hblack : st.ctx.matchBlacklist = false)
    (hbound : (readArgsLoop env keys n st).1 ≠ .bound) :
    ∃ xs next, (interpreter env keys).run st xs = some next ∧ xs.length < n ∧
      readArgsLoop env keys n st = readArgsLoop env keys (n - xs.length) next ∧
      next.LeftLoop (k + ArgType.stringArray.opList.length) ∧
      (next.event.refused = false → ∃ bytes returned,
        next.event.args = st.event.args ++ bytes ∧
        Reader.Consumes parseStringArray bytes returned ∧
        returned = (leadingStrings env.mem maxLoopCount.toNat st.ctx.readAddr).map b2sTrim ∧
        ∀ strings, StringsAt env.mem maxLoopCount.toNat st.ctx.readAddr strings →
          returned = strings.map (fun s => b2sTrim (s.take (maxStringSize - 1))) ∧
            (returned = strings ↔ ∀ s ∈ strings, s.length < maxStringSize ∧ b2sTrim s = s)) := by
  obtain ⟨r, next, hrun, -, hleft, hbytes⟩ := stringArray_exits hmax hkeys hat hzero hblack
  have hlen := length_lt_of_run hbound hrun
  refine ⟨_, next, hrun, hlen, ?_, hleft, fun hroom => ?_⟩
  · have hrest := readArgsLoop_of_run (n - (stringArrayLoop.trace r).length) hrun
    rwa [Nat.add_sub_cancel' (Nat.le_of_lt hlen)] at hrest
  · -- what the probe has appended are the entries, which the parser takes one by one
    obtain ⟨-, hargs⟩ := hbytes hroom
    have hread := consumes_entries hnull maxLoopCount.toNat st.ctx.readAddr st.ctx.saveIndex
    refine ⟨_, _, hargs, hread.bind_pure _, rfl, fun strings hstrings => ?_⟩
    rw [leadingStrings_of_stringsAt hstrings, List.map_map]
    have hmap : strings.map (b2sTrim ∘ fun s => s.take (maxStringSize - 1) ++ [0]) =
        strings.map fun s => b2sTrim (s.take (maxStringSize - 1)) :=
      List.map_congr_left fun s _ => b2sTrim_terminated _
    rw [hmap]
    exact ⟨rfl, map_b2sTrim_eq_iff strings⟩

end Loop

/-! ### An `argv` of two strings -/

/-- An argument `string_array` of a uprobe point, in `x0`. -/
def argvArg : PointArg :=
  { newUprobePointArg [] .stringArray 0 with groupType := .uprobeEnter }

/-- The op table after the argument is parsed. -/
def argvTable : OpManager := argvArg.getOpList.foldl OpManager.addOp .init

def argvPacked : PointArgs stackMaxOpCount :=
  (PointArgs.pack stackMaxOpCount argvTable 0 [argvArg]).get (by decide +kernel)

/-- An array at 4096 with two pointers and a null pointer, and after it the strings `ls` and
`-l`, the second one between blanks. -/
def argvBytes : List u8 :=
  [0x18, 0x10, 0, 0, 0, 0, 0, 0, 0x1b, 0x10, 0, 0, 0, 0, 0, 0, 0, 0, 0, 0, 0, 0, 0, 0,
    108, 115, 0, 32, 45, 108, 32, 0]

/-- A process with this array, with an op table loaded. -/
def argvEnvWith (m : OpManager) : ProbeEnv where
  mem := fun addr => if addr.toNat < 4096 then none else argvBytes[addr.toNat - 4096]?
  regs := ⟨Vector.replicate 31 4096, 0, 0, 0⟩
  opList := m.load
  argFilter := .empty

theorem loadedIn_argvEnvWith {m : OpManager} (h : m.opList.length ≤ 256) :
    m.LoadedIn (argvEnvWith m).opList := OpManager.loadedIn_load h

def argvEnv : ProbeEnv := argvEnvWith argvTable

/-- The state after the word of the argument, when the ops of its type are next. -/
def argvStart : LoopState :=
  ⟨none, { OpCtx.cleared with postCode := .skip, opKeyIndex := 2, readAddr := 4096 }, .init, .empty⟩

/-- The loop on this state. -/
def argvRun : LoopEnd × LoopState :=
  readArgsLoop argvEnv argvPacked.opKeyList stackMaxOpCount argvStart

theorem argvEnv_keysAt : KeysAt argvEnv argvPacked.opKeyList 2
    (argvArg.ty.opList.map NamedOp.toOpConfig) := by
  have hloaded : argvTable.LoadedIn argvEnv.opList :=
    loadedIn_argvEnvWith (by decide +kernel)
  have hkeys : KeysAt argvEnv argvPacked.opKeyList 0 (packedOps [argvArg]) :=
    packed_keysAt (by decide) (by decide) hloaded (by decide +kernel) (Option.some_get _).symm
  have hops : packedOps [argvArg] = [readSaveReg 0, opcMoveRegValue].map NamedOp.toOpConfig ++
      argvArg.ty.opList.map NamedOp.toOpConfig := rfl
  rw [hops] at hkeys
  exact (keysAt_append hkeys).2

theorem argvRun_done : argvRun.1 = .done ∧ argvRun.2.event.refused = false := by
  decide +kernel

theorem argv_stringsAt : StringsAt argvEnv.mem maxLoopCount.toNat argvStart.ctx.readAddr
    [[108, 115], [32, 45, 108, 32]] := by
  have hlast : stringEntry argvEnv.mem (argvStart.ctx.readAddr + 8 + 8) = none := by
    decide +kernel
  refine ⟨⟨[0x18, 0x10, 0, 0, 0, 0, 0, 0], ?_, ?_, ?_⟩,
    ⟨[0x1b, 0x10, 0, 0, 0, 0, 0, 0], ?_, ?_, ?_⟩, hlast⟩ <;> decide +kernel

/-- The strings of the array are read back, the second one without its blanks. -/
theorem argv_returned :
    ∃ xs next, (interpreter argvEnv argvPacked.opKeyList).run argvStart xs = some next ∧
      ∃ bytes, next.event.args = argvStart.event.args ++ bytes ∧
        Reader.Consumes parseStringArray bytes [[108, 115], [45, 108]] := by
  have hbound : (readArgsLoop argvEnv argvPacked.opKeyList 12 argvStart).1 ≠ .bound := by
    decide +kernel
  have hrooms : ∀ m < 12,
      (readArgsLoop argvEnv argvPacked.opKeyList m argvStart).2.event.refused = false := by
    decide +kernel
  obtain ⟨xs, next, hrun, -, -, hleft, hread⟩ :=
    stringArray_returns (by decide) rfl argvEnv_keysAt ⟨rfl, rfl⟩ rfl rfl hbound
  have hroom : next.event.refused = false :=
    run_of_iterations (fun st => st.event.refused = false) hbound hrooms hrun
  obtain ⟨bytes, returned, hargs, hconsumes, -, hstrings⟩ := hread hroom
  refine ⟨xs, next, hrun, bytes, hargs, ?_⟩
  rw [(hstrings _ argv_stringsAt).1] at hconsumes
  exact hconsumes

/-- So they are not returned exactly. -/
theorem argv_not_exact :
    argvEnv.mem 0 = none ∧
      KeysAt argvEnv argvPacked.opKeyList 2 (argvArg.ty.opList.map NamedOp.toOpConfig) ∧
      argvStart.AtOp 2 ∧ argvStart.ctx.loopCount = 0 ∧ argvRun.1 = .done ∧
      argvRun.2.event.refused = false ∧
      StringsAt argvEnv.mem maxLoopCount.toNat argvStart.ctx.readAddr
        [[108, 115], [32, 45, 108, 32]] ∧
      ¬ Reader.Consumes parseStringArray argvRun.2.event.args
        [[108, 115], [32, 45, 108, 32]] := by
  refine ⟨rfl, argvEnv_keysAt, ⟨rfl, rfl⟩, rfl, argvRun_done.1, argvRun_done.2, argv_stringsAt, ?_⟩
  intro hconsumes
  have hreturned : (parseStringArray (argvRun.2.event.args ++ [])).1 =
      some [[108, 115], [45, 108]] := by
    decide +kernel
  rw [hconsumes []] at hreturned
  exact absurd hreturned (by decide)

end Stackplz
