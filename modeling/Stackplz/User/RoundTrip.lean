import Stackplz.User.Packed
import Stackplz.User.PointIndex
import Stackplz.User.ReadMore
import Stackplz.User.UprobeEvent

/-!
# From the probe to the decoder

The probe saves the arguments of a uprobe point with the op lists that are packed for it, and
`ParseContext` reads them back from the bytes of the event. For arguments without loops both
sides go argument by argument: what the op list of an argument saves is what its parser
consumes.
-/

set_option autoImplicit false

namespace Stackplz

/-! ## Plain types -/

/-- The types whose op lists run straight through, with one record for their data. -/
def ArgType.isPlain : ArgType → Bool
  | .num _ _ | .pointer _ | .string | .stdString | .buffer | .bufferLen _ | .bufferReg _ => true
  | .pointerTo target _ => target.isPlain
  | _ => false

/-- The records that the op list of a plain type saves. -/
def ArgType.Saves : ArgType → List Saved → Prop
  | .num _ _, log | .pointer _, log => log = []
  | .pointerTo target _, log =>
      ∃ value rest, log = .bytes value :: rest ∧ (value.length = 8 ∨ value = []) ∧
        target.Saves rest
  | _, log => ∃ payload, log = [.bytes payload] ∧ payload.length < 2 ^ 32

section Steps

variable {env : ProbeEnv} {st st' : OpState} {log : List Saved}

theorem steps_silent {ops : List NamedOp} (h : ∀ op ∈ ops, op.saves = false) :
    ∀ x ∈ ops.flatMap (fun op => op.steps), x.2.saves = false := by
  intro x hx
  obtain ⟨op, hop, hx⟩ := List.mem_flatMap.mp hx
  have hsaves := h op hop
  simp only [NamedOp.saves, Bool.or_eq_false_iff] at hsaves
  unfold OpConfig.steps at hx
  rcases List.mem_cons.mp hx with rfl | hx
  · exact hsaves.1
  · split at hx
    · cases hx
    · obtain rfl := List.mem_singleton.mp hx
      exact hsaves.2

/-- Codes that end in a save of a struct or a string leave one record of bytes. -/
theorem saves_payload {xs : List (OpConfig × OpCode)} {x : OpConfig × OpCode}
    (hsilent : ∀ x ∈ xs, x.2.saves = false) (hcode : x.2 = .saveStruct ∨ x.2 = .saveString)
    (h : runSteps env (xs ++ [x]) st = some (log, st')) :
    ∃ payload, log = [.bytes payload] ∧ payload.length < 2 ^ 32 := by
  obtain ⟨mid, rfl⟩ := runSteps_concat hsilent h
  unfold OpState.saved
  rcases hcode with hcode | hcode <;> rw [hcode]
  · exact ⟨_, rfl, Nat.lt_of_le_of_lt (UserMem.length_getD_read_le ..) (BitVec.isLt _)⟩
  · exact ⟨_, rfl, UserMem.length_getD_readStr_lt ..⟩

/-- The value behind a pointer is saved whole or, when it cannot be read, empty. -/
theorem saves_value {xs : List (OpConfig × OpCode)}
    (h : runSteps env ((saveStructOp 8).steps ++ xs) st = some (log, st')) :
    ∃ value mid rest, log = .bytes value :: rest ∧ (value.length = 8 ∨ value = []) ∧
      runSteps env xs mid = some (rest, st') := by
  obtain ⟨first, mid₁, rest₁, hset, hrest₁, rfl⟩ := runSteps_cons.mp h
  obtain ⟨second, mid, rest, hsave, hrest, rfl⟩ := runSteps_cons.mp hrest₁
  obtain ⟨hexec, -, rfl⟩ := step_eq_some.mp hset
  obtain ⟨-, -, rfl⟩ := step_eq_some.mp hsave
  have hlen : (mid₁.structLen (saveStructOp 8).toOpConfig).toNat = 8 := by
    rw [← (Prod.mk.inj hexec).2]
    rfl
  refine ⟨_, mid, rest, rfl, ?_, hrest⟩
  rw [hlen]
  cases hread : env.mem.read (untag mid₁.data.readAddr) 8 with
  | none => exact Or.inr rfl
  | some value => exact Or.inl (UserMem.length_read hread)

/-- The op list of a plain type saves the records of the type. -/
theorem saves_opList {ty : ArgType} (hplain : ty.isPlain = true)
    (h : runSteps env (ty.opList.flatMap fun op => op.steps) st = some (log, st')) :
    ty.Saves log := by
  induction ty generalizing st log with
  | num | pointer => exact (Prod.mk.inj (Option.some.inj h)).1.symm
  | pointerTo target style ih =>
      rw [ArgType.opList, List.flatMap_cons] at h
      obtain ⟨value, mid, rest, rfl, hvalue, hrest⟩ := saves_value h
      exact ⟨value, rest, rfl, hvalue, ih hplain hrest⟩
  | string => exact saves_payload (List.forall_mem_nil _) (Or.inr rfl) h
  | stdString => exact saves_payload (List.forall_mem_singleton.mpr rfl) (Or.inr rfl) h
  | buffer | bufferLen => exact saves_payload (List.forall_mem_singleton.mpr rfl) (Or.inl rfl) h
  | bufferReg =>
      refine @saves_payload env _ st' _ [_, _, _] _ ?_ (Or.inl rfl) h
      exact List.forall_mem_cons.mpr
        ⟨rfl, List.forall_mem_cons.mpr ⟨rfl, List.forall_mem_singleton.mpr rfl⟩⟩
  | _ => cases hplain

end Steps

/-! ## Plain arguments -/

/-- An argument of a hook point without a uretprobe, with a plain type. -/
structure PointArg.Plain (a : PointArg) : Prop where
  address : IsAddressList a.extraOpList
  entry : a.isRet = false
  pointType : a.pointType = .uprobeEnter
  groupType : a.groupType = .uprobeEnter ∨ a.ty.hasData = false
  type : a.ty.isPlain = true

section Args

variable {env : ProbeEnv} {st st' : OpState} {log : List Saved} {a : PointArg}

/-- The argument's own word is saved first, by one op of the list. -/
theorem saves_wordOps (h : a.Plain)
    (hrun : runSteps env (a.wordOps.flatMap fun op => op.steps) st = some (log, st')) :
    ∃ w, log = [.word w] := by
  unfold PointArg.wordOps at hrun
  rw [h.entry, if_neg Bool.false_ne_true] at hrun
  rcases h.address with hnil | ⟨address, hops, haddress⟩
  · rw [if_neg (not_not_intro hnil)] at hrun
    -- `READ_REG`, its `post_code` `SAVE_REG`, and `MOVE_REG_VALUE`
    obtain ⟨first, mid, rest, hread, hrest, rfl⟩ := runSteps_cons.mp hrun
    obtain ⟨second, mid', rest', hsave, hmove, rfl⟩ := runSteps_cons.mp hrest
    obtain ⟨-, -, rfl⟩ := step_eq_some.mp hread
    obtain ⟨-, -, rfl⟩ := step_eq_some.mp hsave
    rw [runSteps_silent (List.forall_mem_singleton.mpr rfl) hmove]
    exact ⟨_, rfl⟩
  · rw [if_pos (by simp [hops]), hops, List.flatMap_append] at hrun
    have hsilent := steps_silent fun op hop => saves_of_isAddressOp (haddress op hop)
    obtain ⟨mid, rfl⟩ := runSteps_concat hsilent hrun
    exact ⟨_, rfl⟩

/-- The op list of a plain argument saves its word and the data of its type; only a type
without data is left out for lack of a group type. -/
theorem saves_steps (h : a.Plain) (hreg : a.regIndex ≠ regArm64Max)
    (hrun : runSteps env a.steps st = some (log, st')) :
    ∃ w data, log = .word w :: data ∧ a.ty.Saves data := by
  have hvalue : ∀ op ∈ a.valueFilterOps, op.saves = false := fun op hop => by
    simpa using List.countP_eq_zero.mp (countP_valueFilterOps a) op hop
  have hfilter : ∀ op ∈ a.dataFilterOps, op.saves = false := fun op hop => by
    simpa using List.countP_eq_zero.mp (countP_dataFilterOps a) op hop
  unfold PointArg.steps PointArg.getOpList at hrun
  rw [if_neg hreg, List.flatMap_append, List.flatMap_append] at hrun
  obtain ⟨word, mid, data, hfront, hmore, rfl⟩ := runSteps_append.mp hrun
  obtain ⟨first, mid', second, hword, hvalues, rfl⟩ := runSteps_append.mp hfront
  obtain ⟨w, rfl⟩ := saves_wordOps h hword
  rw [runSteps_silent (steps_silent hvalue) hvalues]
  refine ⟨w, data, rfl, ?_⟩
  cases hread : a.readMore with
  | false =>
      rw [hread, if_neg Bool.false_ne_true] at hmore
      obtain rfl : [] = data := (Prod.mk.inj (Option.some.inj hmore)).1
      have hdata : a.ty.hasData = false := by
        rcases h.groupType with hgroup | hdata
        · rw [PointArg.readMore, h.pointType, hgroup] at hread
          cases hread
        · exact hdata
      have hplain := h.type
      revert hdata hplain
      cases a.ty with
      | num | pointer => exact fun _ _ => rfl
      | parent =>
          intro _ hplain
          cases hplain
      | _ =>
          intro hdata
          cases hdata
  | true =>
      rw [hread, if_pos rfl, List.flatMap_append] at hmore
      obtain ⟨payload, last, rest, htype, hfilters, rfl⟩ := runSteps_append.mp hmore
      rw [runSteps_silent (steps_silent hfilter) hfilters, List.append_nil]
      exact saves_opList h.type htype

theorem isStraight_of_isAddressOp {op : NamedOp} (h : op.isAddressOp = true) :
    op.isStraight = true := by
  simp only [NamedOp.isAddressOp, Bool.and_eq_true, decide_eq_true_eq] at h
  obtain ⟨⟨hcode, -⟩, hpost⟩ := h
  have hfirst : op.code.isStraight = true := by
    revert hcode
    cases op.code <;> decide
  have hsecond : op.postCode = .skip ∨ op.postCode.isStraight = true := by
    revert hpost
    cases op.postCode <;> decide
  unfold OpConfig.isStraight OpConfig.steps
  rw [List.all_cons, hfirst, Bool.true_and]
  rcases hsecond with hskip | hstraight
  · rw [if_pos hskip]
    rfl
  · split
    · rfl
    · rw [List.all_cons, hstraight]
      rfl

theorem isStraight_opList {ty : ArgType} (hplain : ty.isPlain = true) :
    ∀ op ∈ ty.opList, op.isStraight = true := by
  induction ty with
  | num | pointer => exact List.forall_mem_nil _
  | pointerTo target style ih => exact List.forall_mem_cons.mpr ⟨rfl, ih hplain⟩
  | string | buffer => exact List.forall_mem_singleton.mpr rfl
  | stdString | bufferLen =>
      exact List.forall_mem_cons.mpr ⟨rfl, List.forall_mem_singleton.mpr rfl⟩
  | bufferReg =>
      exact List.forall_mem_cons.mpr
        ⟨rfl, List.forall_mem_cons.mpr ⟨rfl, List.forall_mem_singleton.mpr rfl⟩⟩
  | _ => cases hplain

/-- No op of a plain argument ends or repeats the loop. -/
theorem isStraight_getOpList (h : a.Plain) : ∀ op ∈ a.getOpList, op.isStraight = true := by
  have hword : ∀ op ∈ a.wordOps, op.isStraight = true := by
    unfold PointArg.wordOps
    rw [h.entry, if_neg Bool.false_ne_true]
    rcases h.address with hnil | ⟨address, hops, haddress⟩
    · rw [if_neg (not_not_intro hnil)]
      exact List.forall_mem_cons.mpr ⟨rfl, List.forall_mem_singleton.mpr rfl⟩
    · rw [if_pos (by simp [hops]), hops]
      exact List.forall_mem_append.mpr
        ⟨fun op hop => isStraight_of_isAddressOp (haddress op hop),
          List.forall_mem_singleton.mpr rfl⟩
  have hvalue : ∀ op ∈ a.valueFilterOps, op.isStraight = true := by
    intro op hop
    unfold PointArg.valueFilterOps at hop
    split at hop
    · cases hop
    · obtain ⟨i, -, rfl⟩ := List.mem_map.mp hop
      rfl
  have hfilter : ∀ op ∈ a.dataFilterOps, op.isStraight = true := by
    intro op hop
    unfold PointArg.dataFilterOps at hop
    split at hop
    · obtain ⟨i, -, rfl⟩ := List.mem_map.mp hop
      rfl
    · split at hop
      · obtain ⟨i, -, rfl⟩ := List.mem_map.mp hop
        rfl
      · cases hop
  unfold PointArg.getOpList
  split
  · exact List.forall_mem_nil _
  · refine List.forall_mem_append.mpr ⟨List.forall_mem_append.mpr ⟨hword, hvalue⟩, ?_⟩
    split
    · exact List.forall_mem_append.mpr ⟨isStraight_opList h.type, hfilter⟩
    · exact List.forall_mem_nil _

end Args

/-! ## Reading the records back -/

/-- The bytes of a record behind its header. -/
def Saved.payload : Saved → List u8
  | .word value => LittleEndian.ofWord 8 value
  | .bytes payload => payload

/-- The records of an argument as the decoder shows them. -/
def recordOf : List Saved → Option ReadArg
  | .word w :: data => some (w, data.map Saved.payload)
  | _ => none

theorem consumes_record {payload : List u8} (h : payload.length < 2 ^ 32) (index : u8) :
    Reader.Consumes readPayload (Saved.encode index (.bytes payload)) payload := by
  refine consumes_readPayload index ?_
  rw [BitVec.toNat_ofNat, Nat.mod_eq_of_lt h]

/-- The parser of a plain type consumes what the op list of the type saves. -/
theorem consumes_parse {ty : ArgType} (hplain : ty.isPlain = true) {log : List Saved}
    {bytes : List u8} (hsaves : ty.Saves log) (hwritten : Written log bytes) :
    Reader.Consumes (ty.parse true) bytes (log.map Saved.payload) := by
  induction ty generalizing log bytes with
  | num | pointer =>
      obtain rfl : log = [] := hsaves
      cases hwritten
      exact Reader.consumes_pure []
  | pointerTo target style ih =>
      obtain ⟨value, rest, rfl, hvalue, hrest⟩ := hsaves
      cases hwritten with
      | cons _ index hbytes =>
          have htarget := ih hplain hrest hbytes
          have hread : Reader.Consumes
              (if BitVec.ofNat 32 value.length = 8 then Reader.take 8 else pure [])
              value value := by
            rcases hvalue with hlen | rfl
            · rw [hlen, if_pos (by decide)]
              exact Reader.consumes_take_of_length hlen
            · exact Reader.consumes_pure []
          have hvalue := (consumes_readLen index (BitVec.ofNat 32 value.length)).bind
            (f := fun len => if len = 8 then Reader.take 8 else pure []) hread
          have hall := hvalue.bind (f := fun value => do
            let rest ← target.parse true
            return value :: rest) (htarget.bind (Reader.consumes_pure _))
          rw [List.append_nil] at hall
          exact hall
  | string | stdString | buffer | bufferLen | bufferReg =>
      obtain ⟨payload, rfl, hlen⟩ := hsaves
      cases hwritten with
      | cons _ index hbytes =>
          cases hbytes
          exact (consumes_record hlen index).bind (Reader.consumes_pure [payload])
  | _ => cases hplain

/-- A word that cannot be read is looked for up to the end of the buffer. -/
theorem readReg_eq_none {buf rest : List u8} (h : readReg buf = (none, rest)) : rest = [] := by
  have hbind : Reader.bind (Reader.take 9)
      (fun header => pure (LittleEndian.toWord 8 (header.drop 1))) buf = (none, rest) := h
  unfold Reader.bind Reader.take at hbind
  by_cases hlen : 9 ≤ buf.length
  · rw [if_pos hlen] at hbind
    cases (Prod.mk.inj hbind).1
  · rw [if_neg hlen] at hbind
    exact (Prod.mk.inj hbind).2.symm

/-- The loop over the arguments ends early only at the end of the buffer. -/
theorem length_readPointArgs {program : PointType} {args : List PointArg} {buf rest : List u8}
    {results : List ReadArg} (h : readPointArgs program args buf = (some results, rest)) :
    results.length = args.length ∨ rest = [] := by
  induction args generalizing buf results with
  | nil =>
      obtain rfl : [] = results := Option.some.inj (Prod.mk.inj h).1
      exact Or.inl rfl
  | cons a args ih =>
      unfold readPointArgs Reader.bindOr at h
      split at h
      · obtain ⟨data, mid, -, h⟩ := Reader.bind_eq_some h
        obtain ⟨more, last, hmore, hpure⟩ := Reader.bind_eq_some h
        obtain ⟨hresults, rfl⟩ := Prod.mk.inj hpure
        obtain rfl := Option.some.inj hresults
        exact (ih hmore).imp_left fun hlen => congrArg (· + 1) hlen
      · rename_i hnone
        obtain rfl := (Prod.mk.inj h).2
        exact Or.inr (readReg_eq_none hnone)

/-- An argument that was saved is read, and then the arguments after it. -/
theorem readPointArgs_cons {a : PointArg} {as : List PointArg} {w : u64} {index : u8}
    {bytes buf rest : List u8} {data : List (List u8)} {more : List ReadArg}
    (hparse : Reader.Consumes (a.parse .uprobeEnter) bytes data)
    (hmore : readPointArgs .uprobeEnter as buf = (some more, rest)) :
    readPointArgs .uprobeEnter (a :: as) (Saved.encode index (.word w) ++ (bytes ++ buf)) =
      (some ((w, data) :: more), rest) := by
  have hword := (consumes_readReg index w).bindOr (f := fun ptr => do
    let data ← a.parse .uprobeEnter
    let rest ← readPointArgs .uprobeEnter as
    return (ptr, data) :: rest) [] (bytes ++ buf)
  refine hword.trans ?_
  show Reader.bind (a.parse .uprobeEnter) _ (bytes ++ buf) = _
  unfold Reader.bind
  rw [hparse]
  show Reader.bind (readPointArgs .uprobeEnter as) _ buf = _
  unfold Reader.bind
  rw [hmore]
  rfl

/-- What the probe saves for a list of plain arguments is read back by the decoder, which
then goes on to the arguments after them. -/
theorem readPointArgs_runLists {env : ProbeEnv} {args : List PointArg}
    (hplain : ∀ a ∈ args, a.Plain) (hreg : ∀ a ∈ args, a.regIndex ≠ regArm64Max)
    {st st' : OpState} {logs : List (List Saved)}
    (hrun : runLists env (args.map PointArg.steps) st = some (logs, st'))
    (hroom : st'.event.refused = false) :
    st.event.refused = false ∧ ∃ bytes results,
      st'.event.args = st.event.args ++ bytes ∧ logs.map recordOf = results.map some ∧
        ∀ as more buf rest, readPointArgs .uprobeEnter as buf = (some more, rest) →
          readPointArgs .uprobeEnter (args ++ as) (bytes ++ buf) =
            (some (results ++ more), rest) := by
  induction args generalizing st logs with
  | nil =>
      obtain ⟨rfl, rfl⟩ := Prod.mk.inj (Option.some.inj hrun)
      exact ⟨hroom, [], [], (List.append_nil _).symm, rfl, fun _ _ _ _ h => h⟩
  | cons a args ih =>
      obtain ⟨ha, hargs⟩ := List.forall_mem_cons.mp hplain
      obtain ⟨hra, hregs⟩ := List.forall_mem_cons.mp hreg
      obtain ⟨log, mid, rest, hlog, hrest, rfl⟩ := runLists_cons.mp hrun
      obtain ⟨hmid, bytes, results, hbytes, hresults, hread⟩ := ih hargs hregs hrest
      have hstraight : ∀ x ∈ a.steps, x.2.isStraight = true := by
        intro x hx
        obtain ⟨op, hop, hx⟩ := List.mem_flatMap.mp hx
        exact List.all_eq_true.mp (isStraight_getOpList ha op hop) x hx
      obtain ⟨hstart, front, hwritten, hfront⟩ := runSteps_event hstraight hlog hmid
      obtain ⟨w, data, rfl, hsaves⟩ := saves_steps ha hra hlog
      refine ⟨hstart, front ++ bytes, (w, data.map Saved.payload) :: results, ?_, ?_, ?_⟩
      · rw [hbytes, hfront, List.append_assoc]
      · rw [List.map_cons, hresults]
        rfl
      · intro as more buf rest' hmore
        cases hwritten with
        | @cons _ index _ bytes' hdata =>
            have hparse : Reader.Consumes (a.parse .uprobeEnter) bytes'
                (data.map Saved.payload) := by
              have hall := consumes_parse ha.type hsaves hdata
              have hmore : a.parseMore .uprobeEnter = true := by
                rw [PointArg.parseMore, ha.pointType]
                rfl
              rw [PointArg.parse, hmore]
              exact hall
            rw [List.append_assoc, List.append_assoc]
            exact readPointArgs_cons hparse (hread as more buf rest' hmore)

/-! ## Points of hooks without suffix -/

/-- The hook point string has none of the suffixes `r`, `s` and `ss`. -/
def NoSuffix (s : Text) : Prop :=
  (hookSuffix s).enableUretprobe = false ∧ (hookSuffix s).bindSyscall = false

instance (s : Text) : Decidable (NoSuffix s) := inferInstanceAs (Decidable (_ ∧ _))

/-- The point is made of a hook point string without suffix: its entry or its exit. -/
def UprobeArgs.OfPlainHook (env : ParseEnv) (lib : LibInfo) (hooks : List Text)
    (p : UprobeArgs) : Prop :=
  ∃ s i hook, s ∈ hooks ∧ NoSuffix s ∧ env.hookPoint lib s i = .ok hook ∧
    (p = hook.marked ∨ ∃ n, p = hook.exitPoint n)

section Hooks

variable {env : ParseEnv} {lib : LibInfo} {hooks : List Text} {conf : StackUprobeConfig}

/-- An argument is read from the register of its place. -/
theorem hookArgs_plain {text : Option Text} {args : List PointArg}
    (h : env.hookArgs false text = .ok args) {j : Nat} {a : PointArg} (ha : args[j]? = some a) :
    a.regIndex = BitVec.ofNat 32 j ∧ (a.ty.isPlain = true → a.Plain) := by
  cases text with
  | none =>
      obtain rfl : [] = args := Except.ok.inj h
      cases ha
  | some argsStr =>
      obtain ⟨⟨argStr, k⟩, hplace, harg⟩ := Outcome.getElem?_of_mapM h ha
      obtain rfl : j = k := by
        rw [List.getElem?_zipIdx] at hplace
        obtain ⟨_, -, heq⟩ := Option.map_eq_some_iff.mp hplace
        have hk := congrArg Prod.snd heq
        dsimp only at hk
        omega
      obtain ⟨name, ty, groupType, filters, ops, rfl, hgroup, hops⟩ := hookArg_spec harg
      exact ⟨rfl, fun htype => ⟨hops, rfl, rfl, hgroup, htype⟩⟩

theorem hookPoint_pointArgs {s : Text} {i : Nat} {p : UprobeArgs}
    (h : env.hookPoint lib s i = .ok p) :
    ∃ text, env.hookArgs (hookSuffix s).enableUretprobe text = .ok p.pointArgs := by
  unfold ParseEnv.hookPoint at h
  obtain ⟨⟨text, exitOffset⟩, -, h⟩ := Outcome.bind_eq_ok.mp h
  obtain ⟨⟨name, off, args⟩, -, h⟩ := Outcome.bind_eq_ok.mp h
  obtain ⟨⟨symbol, offset⟩, -, h⟩ := Outcome.bind_eq_ok.mp h
  obtain ⟨pointArgs, hargs, h⟩ := Outcome.bind_eq_ok.mp h
  obtain ⟨retArg, -, h⟩ := Outcome.bind_eq_ok.mp h
  obtain rfl := Except.ok.inj h
  exact ⟨args, hargs⟩

theorem marked_pointArgs (p : UprobeArgs) : p.marked.pointArgs = p.pointArgs := by
  unfold UprobeArgs.marked
  split <;> rfl

/-- The arguments of such a point are plain if their types are. -/
theorem UprobeArgs.OfPlainHook.args {p : UprobeArgs} (h : p.OfPlainHook env lib hooks) {j : Nat}
    {a : PointArg} (ha : p.pointArgs[j]? = some a) :
    a.regIndex = BitVec.ofNat 32 j ∧ (a.ty.isPlain = true → a.Plain) := by
  obtain ⟨s, i, hook, -, ⟨huret, -⟩, hhook, hp⟩ := h
  obtain ⟨text, htext⟩ := hookPoint_pointArgs hhook
  rw [huret] at htext
  have hargs : p.pointArgs = hook.pointArgs := by
    rcases hp with rfl | ⟨n, rfl⟩
    · exact marked_pointArgs hook
    · rfl
  exact hookArgs_plain htext (hargs ▸ ha)

/-- `Parse_HookPoint` numbers the points of an empty list by position. -/
theorem parseHookPoint_index
    (h : (⟨lib, []⟩ : StackUprobeConfig).parseHookPoint env hooks = .ok conf) {i : Nat}
    {p : UprobeArgs} (hp : conf.points[i]? = some p) : p.index.toNat = i := by
  unfold StackUprobeConfig.parseHookPoint at h
  split at h
  · cases h
  · split at h
    · cases h
    · rename_i hfew
      obtain ⟨new, hnew, h⟩ := Outcome.bind_eq_ok.mp h
      obtain rfl := Except.ok.inj h
      obtain ⟨hentries, hexits, -⟩ := addExitPoints_spec new.length new
      have hlen : new.length = hooks.length := by
        have hall := (Outcome.mapM_eq_ok.mp hnew).length_eq
        rw [List.length_zipIdx] at hall
        exact hall.symm
      have hindex : new.map (·.index) = (List.range' 0 new.length).map (BitVec.ofNat 32) := by
        rw [Outcome.map_of_mapM (fun _ _ hx => (hookPoint_spec hx).1) hnew, hlen,
          ← List.zipIdx_map_snd 0 hooks, List.map_map]
        rfl
      have hmarked : (fun p : UprobeArgs => p.index) ∘ UprobeArgs.marked = fun p => p.index :=
        funext marked_index
      -- entries and exits together count up from zero
      have hall : ((addExitPoints new.length new).1 ++ (addExitPoints new.length new).2).map
          (·.index) =
            (List.range' 0 (new.length + new.countP UprobeArgs.hasExit)).map (BitVec.ofNat 32) := by
        rw [List.map_append, hentries, hexits, List.map_map, hmarked, hindex, ← List.map_append,
          ← List.range'_append_1, Nat.zero_add]
      have hat := congrArg (fun l => l[i]?) hall
      have hpoint : ((addExitPoints new.length new).1 ++ (addExitPoints new.length new).2)[i]? =
          some p := hp
      rw [List.getElem?_map, hpoint, List.getElem?_map] at hat
      obtain ⟨k, hk, hword⟩ := Option.map_eq_some_iff.mp hat.symm
      have hword : BitVec.ofNat 32 k = p.index := hword
      obtain ⟨hlt, rfl⟩ := List.getElem?_eq_some_iff.mp hk
      rw [List.length_range'] at hlt
      have hcount : new.countP UprobeArgs.hasExit ≤ new.length := List.countP_le_length
      rw [← hword, List.getElem_range', Nat.zero_add, Nat.one_mul, BitVec.toNat_ofNat]
      exact Nat.mod_eq_of_lt (by omega)

end Hooks

/-! ## A hit of a point -/

/-- What a probe finds when its point is hit. For an exit point the registers of the arguments
are those of the entry, not those of the stop. -/
structure UprobeFiring where
  env : ProbeEnv
  regs : CtxRegs
  filter : CommonFilter
  leftover : OpCtx
  strBuf : StrBufMap

/-- The event before its arguments. -/
def UprobeFiring.head (f : UprobeFiring) (p : UprobeArgs) : EventData :=
  saveHead f.filter p.index f.regs .init

/-- `op_ctx` as the probe sets it up. -/
def UprobeFiring.ctx (f : UprobeFiring) : OpCtx :=
  f.leftover.start (Probe.probeStack.reg0 f.env.regs 0) Probe.probeStack.saveIndex

/-- The call of `read_args`. -/
def UprobeFiring.run (f : UprobeFiring) (p : UprobeArgs) (packed : PointArgs stackMaxOpCount) :
    LoopEnd × LoopState :=
  readArgs f.env packed f.ctx (f.head p) f.strBuf

/-- The point is loaded, no op is pending when it is hit, and all of its arguments are
saved. -/
structure UprobeFiring.Completes (f : UprobeFiring) (m : OpManager) (p : UprobeArgs)
    (packed : PointArgs stackMaxOpCount) : Prop where
  loaded : m.LoadedIn f.env.opList
  registered : ∀ a ∈ p.pointArgs, ∀ op ∈ a.getOpList, op ∈ m.opList
  packs : PointArgs.pack stackMaxOpCount m p.enterKey p.pointArgs = some packed
  idle : f.leftover.Idle
  done : (f.run p packed).1 = .done
  room : (f.run p packed).2.event.refused = false

/-- The records that the probe writes for each argument. -/
def UprobeFiring.wrote (f : UprobeFiring) (p : UprobeArgs) : List (List Saved) :=
  match runLists f.env (p.pointArgs.map PointArg.steps)
      ⟨f.ctx.toOpData, f.head p, f.strBuf⟩ with
  | some (logs, _) => logs
  | none => []

/-- `ParseContext` recovers the head of the event and of each argument what was written, and takes
exactly the bytes that were submitted, whatever the sample has behind them. -/
def UprobeFiring.RoundTrip (f : UprobeFiring) (points : List UprobeArgs) (p : UprobeArgs)
    (packed : PointArgs stackMaxOpCount) : Prop :=
  ∃ fields, Reader.Consumes (parseContext uprobeEnter points) (f.run p packed).2.event.args fields ∧
    fields.probeIndex = p.index ∧ fields.lr = f.filter.lr f.regs ∧
    fields.sp = f.filter.sp f.regs ∧ fields.pc = f.regs.pc ∧
    ∀ i < p.pointArgs.length, fields.args[i]? = (f.wrote p)[i]?.bind recordOf

section Firing

variable {f : UprobeFiring} {m : OpManager} {p : UprobeArgs} {packed : PointArgs stackMaxOpCount}
  {points : List UprobeArgs}

theorem run_wrote (hplain : ∀ a ∈ p.pointArgs, a.Plain) (h : f.Completes m p packed) :
    ∃ last, runLists f.env (p.pointArgs.map PointArg.steps)
        ⟨f.ctx.toOpData, f.head p, f.strBuf⟩ = some (f.wrote p, last) ∧
      (f.run p packed).2.event = last.event := by
  have hstraight : ∀ a ∈ p.pointArgs, ∀ op ∈ a.getOpList, op.isStraight = true :=
    fun a ha => isStraight_getOpList (hplain a ha)
  obtain ⟨logs, last, hrun, hevent⟩ := readArgs_done (by decide) (by decide) h.loaded
    h.registered hstraight h.packs (show f.ctx.Idle from h.idle) rfl h.done
  refine ⟨last, ?_, hevent⟩
  unfold UprobeFiring.wrote
  rw [hrun]

/-- The event holds its head and then what was written for the arguments. -/
theorem run_event (hplain : ∀ a ∈ p.pointArgs, a.Plain) (h : f.Completes m p packed) :
    ∃ bytes, Written (f.wrote p).flatten bytes ∧
      (f.run p packed).2.event.args = (f.head p).args ++ bytes := by
  obtain ⟨last, hrun, hevent⟩ := run_wrote hplain h
  have hroom : last.event.refused = false := hevent ▸ h.room
  have hstraight : ∀ xs ∈ p.pointArgs.map PointArg.steps, ∀ x ∈ xs, x.2.isStraight = true := by
    intro xs hxs x hx
    obtain ⟨a, ha, rfl⟩ := List.mem_map.mp hxs
    obtain ⟨op, hop, hx⟩ := List.mem_flatMap.mp hx
    exact List.all_eq_true.mp (isStraight_getOpList (hplain a ha) op hop) x hx
  obtain ⟨-, bytes, hbytes, hargs⟩ := runLists_event hstraight hrun hroom
  exact ⟨bytes, hbytes, (congrArg EventData.args hevent).trans hargs⟩

/-- The head of an event is read back before its arguments. -/
theorem parseContext_head (hpoint : points[p.index.toNat]? = some p) (bytes : List u8) :
    parseContext uprobeEnter points ((f.head p).args ++ bytes) =
      (readPointArgs .uprobeEnter p.pointArgs >>= fun args =>
        pure ⟨p.index, f.filter.lr f.regs, f.filter.sp f.regs, f.regs.pc, none, args⟩) bytes := by
  have hhead : (f.head p).args = _ := saveHead_args f.filter p.index f.regs
  unfold parseContext
  rw [if_neg (by decide), hhead]
  simp only [List.append_assoc]
  refine (Reader.Consumes.bind_append (consumes_readField 4 0 p.index) _ _).trans ?_
  refine (Reader.Consumes.bind_append (consumes_readField 8 1 (f.filter.lr f.regs)) _ _).trans ?_
  refine (Reader.Consumes.bind_append (consumes_readField 8 2 (f.filter.sp f.regs)) _ _).trans ?_
  refine (Reader.Consumes.bind_append (consumes_readField 8 3 f.regs.pc) _ _).trans ?_
  simp only [hpoint]
  unfold readArguments
  rw [if_neg (by decide), Reader.bind_pure_bind]

/-- The argument of the place that stands for no register is not saved. -/
theorem steps_of_regArm64Max {a : PointArg} (h : a.regIndex = regArm64Max) : a.steps = [] := by
  unfold PointArg.steps PointArg.getOpList
  rw [if_pos h]
  rfl

/-- With a register at every place, the round trip holds. -/
theorem roundTrip_of_le (hpoint : points[p.index.toNat]? = some p)
    (hplain : ∀ a ∈ p.pointArgs, a.Plain)
    (hreg : ∀ j a, p.pointArgs[j]? = some a → a.regIndex = BitVec.ofNat 32 j)
    (h : f.Completes m p packed) (hlen : p.pointArgs.length ≤ 33) :
    f.RoundTrip points p packed := by
  -- argument 33 would have the index that stands for no register
  have hregs : ∀ a ∈ p.pointArgs, a.regIndex ≠ regArm64Max := by
    intro a ha heq
    obtain ⟨j, hj⟩ := List.mem_iff_getElem?.mp ha
    have hlt := (List.getElem?_eq_some_iff.mp hj).1
    have hnat : j % 2 ^ 32 = 33 := congrArg BitVec.toNat ((hreg j a hj).symm.trans heq)
    omega
  obtain ⟨last, hrun, hevent⟩ := run_wrote hplain h
  have hroom : last.event.refused = false := hevent ▸ h.room
  obtain ⟨-, bytes, results, hbytes, hresults, hdecode⟩ :=
    readPointArgs_runLists hplain hregs hrun hroom
  have hargs : Reader.Consumes (readPointArgs .uprobeEnter p.pointArgs) bytes results := by
    intro rest
    have hread := hdecode [] [] rest rest rfl
    rwa [List.append_nil, List.append_nil] at hread
  have hsubmitted : (f.run p packed).2.event.args = (f.head p).args ++ bytes := by
    rw [hevent]
    exact hbytes
  refine ⟨⟨p.index, f.filter.lr f.regs, f.filter.sp f.regs, f.regs.pc, none, results⟩,
    fun rest => ?_, rfl, rfl, rfl, rfl, fun i _ => ?_⟩
  · rw [hsubmitted, List.append_assoc, parseContext_head hpoint]
    exact hargs.bind_pure _ rest
  · have hat := congrArg (fun l => l[i]?) hresults
    simp only [List.getElem?_map] at hat
    show results[i]? = _
    cases hlog : (f.wrote p)[i]? with
    | none =>
        rw [hlog, Option.map_none] at hat
        exact Option.map_eq_none_iff.mp hat.symm
    | some log =>
        rw [hlog, Option.map_some] at hat
        obtain ⟨result, hresult, hrecord⟩ := Option.map_eq_some_iff.mp hat.symm
        rw [hresult, Option.bind_some, ← hrecord]

/-- An argument behind the registers is shown with what stands behind the event. -/
theorem le_of_roundTrip (hpoint : points[p.index.toNat]? = some p)
    (hplain : ∀ a ∈ p.pointArgs, a.Plain)
    (hreg : ∀ j a, p.pointArgs[j]? = some a → a.regIndex = BitVec.ofNat 32 j)
    (h : f.Completes m p packed) (hround : f.RoundTrip points p packed) :
    p.pointArgs.length ≤ 33 := by
  by_contra hlong
  obtain ⟨fields, hparse, -, -, -, -, hargs⟩ := hround
  -- nothing is written for place 33
  have hempty : fields.args[33]? = none := by
    obtain ⟨last, hrun, -⟩ := run_wrote hplain h
    have hat : p.pointArgs[33]? = some p.pointArgs[33] := List.getElem?_eq_getElem (by omega)
    have hsteps : (p.pointArgs.map PointArg.steps)[33]? = some [] := by
      rw [List.getElem?_map, hat, Option.map_some, steps_of_regArm64Max (hreg 33 _ hat)]
    obtain ⟨log, before, after, hlog, hsilent⟩ := runLists_getElem? hrun hsteps
    obtain rfl : [] = log := (Prod.mk.inj (Option.some.inj hsilent)).1
    rw [hargs 33 (by omega), hlog]
    rfl
  -- but with a byte behind the event there is a word for every place
  obtain ⟨bytes, -, hsubmitted⟩ := run_event hplain h
  have hbehind := hparse [0]
  rw [hsubmitted, List.append_assoc, parseContext_head hpoint] at hbehind
  obtain ⟨args, mid, hread, hpure⟩ := Reader.bind_eq_some hbehind
  obtain ⟨hfields, rfl⟩ := Prod.mk.inj hpure
  obtain rfl := Option.some.inj hfields
  rcases length_readPointArgs hread with hlength | hnil
  · have hshort := List.getElem?_eq_none_iff.mp hempty
    dsimp only at hshort
    omega
  · cases hnil

end Firing

/-- **The round trip of plain hooks.** For every point that `Parse_HookPoint` makes of a hook
without suffix, with plain arguments, and for every hit of it that completes, `ParseContext`
recovers what the probe wrote exactly when the point has at most 33 arguments: the index of
the 34th is the mark of an argument without a register, so nothing is saved for it, and a word of
the padding or of the registers is read in its place. -/
theorem hookPoint_roundTrip_iff (env : ParseEnv) (lib : LibInfo) (hooks : List Text)
    (conf : StackUprobeConfig)
    (hconf : (⟨lib, []⟩ : StackUprobeConfig).parseHookPoint env hooks = .ok conf) (i : Nat)
    (p : UprobeArgs) (hp : conf.points[i]? = some p) (hhook : p.OfPlainHook env lib hooks)
    (htypes : ∀ a ∈ p.pointArgs, a.ty.isPlain = true) (m : OpManager)
    (packed : PointArgs stackMaxOpCount) (f : UprobeFiring) (h : f.Completes m p packed) :
    f.RoundTrip conf.points p packed ↔ p.pointArgs.length ≤ 33 := by
  have hplain : ∀ a ∈ p.pointArgs, a.Plain := by
    intro a ha
    obtain ⟨j, hj⟩ := List.mem_iff_getElem?.mp ha
    exact (hhook.args hj).2 (htypes a ha)
  have hreg : ∀ j a, p.pointArgs[j]? = some a → a.regIndex = BitVec.ofNat 32 j :=
    fun j a ha => (hhook.args ha).1
  have hpoint : conf.points[p.index.toNat]? = some p := by
    rw [parseHookPoint_index hconf hp]
    exact hp
  exact ⟨le_of_roundTrip hpoint hplain hreg h, roundTrip_of_le hpoint hplain hreg h⟩

/-! ### A hook with 35 arguments -/

/-- The point of the hook `f[...]` with these arguments. -/
def hookOf (argsStr : Text) (pointArgs : List PointArg) : UprobeArgs where
  index := 0
  enterKey := 0
  lib := libAt "/lib/b.so"
  name := ['f']
  symbol := ['f']
  offset := 0
  argsStr := argsStr
  pointArgs := pointArgs
  retArg := none
  retType := []
  bindSyscall := false
  exitRead := false
  exitOffset := 0
  killSignal := 0
  enableUretprobe := false

/-- The configuration with this one point. -/
def confOf (p : UprobeArgs) : StackUprobeConfig := ⟨libAt "/lib/b.so", [p]⟩

/-- A hit of a point in a process whose memory reads as zero, with this op table loaded. -/
def firingWith (m : OpManager) : UprobeFiring where
  env := ⟨fun _ => some 0, ⟨Vector.replicate 31 7, 0, 0, 0⟩, m.load, .empty⟩
  regs := ⟨Vector.replicate 31 7, 0, 0, 0⟩
  filter := ⟨0, 0, 0⟩
  leftover := .cleared
  strBuf := .empty

theorem loadedIn_firingWith {m : OpManager} (h : m.opList.length ≤ 256) :
    m.LoadedIn (firingWith m).env.opList := OpManager.loadedIn_load h

/-- `f[int:+,int:+,...]`, with 35 arguments. -/
def wideHook : Text :=
  "f[".toList ++ [','].intercalate (List.replicate 35 "int:+".toList) ++ [']']

/-- Its point: the read address `+` has no terms, so one op saves whatever is there. -/
def widePoint : UprobeArgs :=
  hookOf ([','].intercalate (List.replicate 35 "int:+".toList)) <| (List.range 35).map fun i =>
    { newUprobePointArg ("arg_".toList ++ (Nat.repr i).toList) (.num .int .plain)
        (BitVec.ofNat 32 i) with extraOpList := [opcSaveAddr] }

def widePacked : PointArgs stackMaxOpCount :=
  (PointArgs.pack stackMaxOpCount .init widePoint.enterKey widePoint.pointArgs).get
    (by decide +kernel)

/-- The hook with 35 arguments packs and its hit completes, but its last argument is lost. -/
theorem wideHook_not_roundTrip :
    (⟨libAt "/lib/b.so", []⟩ : StackUprobeConfig).parseHookPoint builtinEnv [wideHook] =
        .ok (confOf widePoint) ∧
      NoSuffix wideHook ∧ (∀ a ∈ widePoint.pointArgs, a.ty.isPlain = true) ∧
      (firingWith .init).Completes .init widePoint widePacked ∧
      ¬ (firingWith .init).RoundTrip (confOf widePoint).points widePoint widePacked := by
  refine ⟨by decide +kernel, by decide +kernel, by decide +kernel,
    ⟨loadedIn_firingWith (by decide), by decide +kernel, (Option.some_get _).symm, Or.inl rfl,
      by decide +kernel, by decide +kernel⟩, ?_⟩
  rintro ⟨fields, hparse, -, -, -, -, hargs⟩
  -- the parser shows 34 arguments, and the probe has written the one of place 34
  have hcount : (parseContext uprobeEnter (confOf widePoint).points
      (((firingWith .init).run widePoint widePacked).2.event.args ++ [])).1.map
        (fun fields => fields.args.length) = some 34 := by
    decide +kernel
  have hlast : (((firingWith .init).wrote widePoint)[34]?.bind recordOf).isSome = true := by
    decide +kernel
  rw [hparse []] at hcount
  have hlen : fields.args.length = 34 := Option.some.inj hcount
  rw [← hargs 34 (by decide +kernel), List.getElem?_eq_none (Nat.le_of_eq hlen)] at hlast
  cases hlast

/-- The hook `f[str,int:x1+0x10]`. -/
def smallHook : Text := "f[str,int:x1+0x10]".toList

def smallPoint : UprobeArgs :=
  hookOf "str,int:x1+0x10".toList
    [{ newUprobePointArg "arg_0".toList .string 0 with groupType := .uprobeEnter },
      { newUprobePointArg "arg_1".toList (.num .int .plain) 1 with
        extraOpList := [readMoveReg 1, opcAddOffset.newValue 0x10, opcSaveAddr] }]

/-- The op table after the arguments of `smallHook` are parsed. -/
def smallOps : OpManager :=
  (smallPoint.pointArgs.flatMap PointArg.getOpList).foldl OpManager.addOp .init

def smallPacked : PointArgs stackMaxOpCount :=
  (PointArgs.pack stackMaxOpCount smallOps smallPoint.enterKey smallPoint.pointArgs).get
    (by decide +kernel)

/-- The two arguments of the small hook are read back. -/
theorem smallHook_roundTrip :
    (firingWith smallOps).RoundTrip (confOf smallPoint).points smallPoint smallPacked := by
  have hcompletes : (firingWith smallOps).Completes smallOps smallPoint smallPacked :=
    ⟨loadedIn_firingWith (by decide +kernel), by decide +kernel, (Option.some_get _).symm,
      Or.inl rfl, by decide +kernel, by decide +kernel⟩
  refine (hookPoint_roundTrip_iff builtinEnv (libAt "/lib/b.so") [smallHook] (confOf smallPoint)
    (by decide +kernel) 0 smallPoint rfl
    ⟨smallHook, 0, smallPoint, List.mem_singleton_self _, by decide +kernel, by decide +kernel,
      Or.inl (by decide +kernel)⟩
    (by decide +kernel) smallOps smallPacked (firingWith smallOps) hcompletes).mpr ?_
  decide +kernel

end Stackplz
