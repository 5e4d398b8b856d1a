import Stackplz.Basic.Machine
import Stackplz.User.OpHelper

/-!
# The op table in memory

`op_helper.go` keeps its ops behind pointers. An op is built, or cloned from another one, and
then handed to `AddOp`, which returns the op of the table with the same fields, or gives the new
one the number of the ops so far as its index. Pointers to ops are shared by the table, the
types and the arguments, so what is behind them must not change any more. The op table of the
other modules is the list of the fields.
-/

set_option autoImplicit false

namespace Stackplz

/-! ## Ops -/

/-- `BaseOpConfig`, which is what the probe looks up. -/
structure BaseOpConfig where
  code : u32
  preCode : u32
  postCode : u32
  value : u64
deriving DecidableEq

/-- The fields that `SameAs` compares. -/
structure OpFields extends BaseOpConfig where
  name : Text
deriving DecidableEq

/-- `OpConfig`, as it lies in memory. -/
structure OpCell extends OpFields where
  index : u32

/-- The number of an op code; both sides count from 233. -/
def OpCode.word (c : OpCode) : u32 := if c = .zero then 0 else BitVec.ofNat 32 (232 + c.ctorIdx)

/-- The fields of an op, with the numbers of its codes. -/
def NamedOp.fields (op : NamedOp) : OpFields :=
  ⟨⟨op.code.word, op.preCode.word, op.postCode.word, op.value⟩, op.name⟩

/-! ## Memory -/

/-- The memory that holds ops, and `OPM`. -/
structure OpHeap where
  mem : Nat → OpCell
  /-- The next free address. -/
  next : Nat
  /-- `OPM.OpList`: the addresses of the ops of the table. -/
  opList : List Nat

namespace OpHeap

/-- `NewOpManager`, with no op in memory. -/
def init : OpHeap := ⟨fun _ => ⟨⟨⟨0, 0, 0, 0⟩, []⟩, 0⟩, 0, []⟩

/-- The fields of an op. -/
def fields (h : OpHeap) (p : Nat) : OpFields := (h.mem p).toOpFields

/-- What the table holds. -/
def table (h : OpHeap) : List OpFields := h.opList.map h.fields

/-- `Count`. -/
def count (h : OpHeap) : u32 := BitVec.ofNat 32 h.opList.length

/-- A new op in memory. -/
def alloc (h : OpHeap) (op : OpCell) : OpHeap × Nat :=
  ({ h with mem := Function.update h.mem h.next op, next := h.next + 1 }, h.next)

/-- A new op of the table. -/
def push (h : OpHeap) (p : Nat) : OpHeap :=
  { h with
    mem := Function.update h.mem p { h.mem p with index := h.count }
    opList := h.opList ++ [p] }

/-- `AddOp`. -/
def addOp (h : OpHeap) (p : Nat) : OpHeap × Nat :=
  match h.opList.find? fun v => h.fields v = h.fields p with
  | some v => (h, v)
  | none => (h.push p, p)

/-- An op that is built and added. -/
def create (h : OpHeap) (op : OpCell) : OpHeap × Nat :=
  let (h, p) := h.alloc op
  h.addOp p

/-- `Clone` with other fields. -/
def derive (h : OpHeap) (p : Nat) (change : OpFields → OpFields) : OpHeap × Nat :=
  h.create { h.mem p with toOpFields := change (h.fields p) }

/-- `GetOpList`: later ops overwrite earlier ones under their index. -/
def getOpList (h : OpHeap) : u32 → Option BaseOpConfig :=
  h.opList.foldl (fun m p => Function.update m (h.mem p).index (some (h.mem p).toBaseOpConfig))
    fun _ => none

end OpHeap

/-- A call; a pointer is that of any op in memory. -/
inductive OpCall where
  /-- An op that is built and not added yet. -/
  | build (op : OpFields)
  /-- An op that is built and added. -/
  | create (op : OpFields)
  | addOp (p : Nat)
  | newValue (p : Nat) (value : u64)
  | newPreCode (p : Nat) (preCode : u32)
  | newPostCode (p : Nat) (postCode : u32)

namespace OpCall

/-- `ROP`. -/
def rop (name : String) (code : OpCode) : OpCall := .create (Stackplz.rop name code).fields
/-- `Add_READ_SAVE_REG`. -/
def addReadSaveReg (value : u64) : OpCall := .create (readSaveReg value).fields
/-- `Add_READ_MOVE_REG`. -/
def addReadMoveReg (value : u64) : OpCall := .create (readMoveReg value).fields
/-- `SaveStruct`. -/
def saveStruct (value : u64) : OpCall := .create (saveStructOp value).fields
/-- `BuildReadRegBreakCount`. -/
def buildReadRegBreakCount (regIndex : u64) : OpCall :=
  .build (Stackplz.buildReadRegBreakCount regIndex).fields
/-- `BuildReadPtrBreakCount`. -/
def buildReadPtrBreakCount (offset : u64) : OpCall :=
  .build (Stackplz.buildReadPtrBreakCount offset).fields
/-- `BuildReadRegLen`. -/
def buildReadRegLen (regIndex : u64) : OpCall := .build (Stackplz.buildReadRegLen regIndex).fields
/-- `BuildReadPtrLen`. -/
def buildReadPtrLen (offset : u64) : OpCall := .build (Stackplz.buildReadPtrLen offset).fields
/-- `BuildReadPtrAddr`. -/
def buildReadPtrAddr (offset : u64) : OpCall := .build (Stackplz.buildReadPtrAddr offset).fields

/-- The call in a memory, and the pointer that it returns; `none` when it is called with an
address where no op is. -/
def run (h : OpHeap) : OpCall → Option (OpHeap × Nat)
  | build op => some (h.alloc ⟨op, 0⟩)
  | create op => some (h.create ⟨op, 0⟩)
  | addOp p => if p < h.next then some (h.addOp p) else none
  | newValue p value =>
      if p < h.next then some (h.derive p fun op => { op with value := value }) else none
  | newPreCode p preCode =>
      if p < h.next then some (h.derive p fun op => { op with preCode := preCode }) else none
  | newPostCode p postCode =>
      if p < h.next then some (h.derive p fun op => { op with postCode := postCode }) else none

/-- The fields that a call asks for. -/
def requested (h : OpHeap) : OpCall → OpFields
  | build op | create op => op
  | addOp p => h.fields p
  | newValue p value => { h.fields p with value := value }
  | newPreCode p preCode => { h.fields p with preCode := preCode }
  | newPostCode p postCode => { h.fields p with postCode := postCode }

/-- The call adds its op to the table. -/
def adds : OpCall → Bool
  | build _ => false
  | _ => true

end OpCall

def opMachine : Machine OpHeap OpCall := ⟨fun h c => (c.run h).map Prod.fst⟩

/-! ## What a call does -/

namespace OpHeap

variable {h h' : OpHeap}

/-- The ops of the table lie in memory, no two of them have the same fields, and each has the
number of those before it as its index. -/
structure Inv (h : OpHeap) : Prop where
  valid : ∀ p ∈ h.opList, p < h.next
  index : ∀ k p, h.opList[k]? = some p → (h.mem p).index = BitVec.ofNat 32 k
  distinct : h.table.Nodup

/-- The table has grown, and the ops it had are what they were. -/
structure Extends (h h' : OpHeap) : Prop where
  grows : h.opList <+: h'.opList
  same : ∀ p ∈ h.opList, h'.mem p = h.mem p

theorem inv_init : init.Inv :=
  ⟨fun _ hp => absurd hp List.not_mem_nil, fun _ _ hk => absurd hk (by simp [init]),
    List.nodup_nil⟩

theorem Extends.refl (h : OpHeap) : Extends h h := ⟨List.prefix_refl _, fun _ _ => rfl⟩

theorem Extends.trans {h'' : OpHeap} (h₁ : Extends h h') (h₂ : Extends h' h'') :
    Extends h h'' :=
  ⟨h₁.grows.trans h₂.grows, fun p hp =>
    (h₂.same p (h₁.grows.subset hp)).trans (h₁.same p hp)⟩

/-- What a call leaves: a sound table, with the old ops in it, and a pointer to an op with the
fields `op`. -/
structure Leaves (h : OpHeap) (op : OpFields) (r : OpHeap × Nat) : Prop where
  inv : r.1.Inv
  keeps : Extends h r.1
  fields : r.1.fields r.2 = op

theorem alloc_leaves (hinv : h.Inv) (op : OpCell) : Leaves h op.toOpFields (h.alloc op) := by
  have hsame (p : Nat) (hp : p ∈ h.opList) : (h.alloc op).1.mem p = h.mem p :=
    Function.update_of_ne (Nat.ne_of_lt (hinv.valid p hp)) _ _
  have hkeeps : Extends h (h.alloc op).1 := ⟨List.prefix_refl _, hsame⟩
  refine ⟨⟨fun p hp => Nat.lt_succ_of_lt (hinv.valid p hp), fun k p hk => ?_, ?_⟩, hkeeps, ?_⟩
  · rw [hsame p (List.mem_of_getElem? hk)]
    exact hinv.index k p hk
  · have htable : (h.alloc op).1.table = h.table :=
      List.map_congr_left fun p hp => congrArg OpCell.toOpFields (hsame p hp)
    rw [htable]
    exact hinv.distinct
  · show (Function.update h.mem h.next op h.next).toOpFields = _
    rw [Function.update_self]

/-- `AddOp` finds the op in the table, or puts it at the end. -/
theorem addOp_cases (h : OpHeap) (p : Nat) :
    (∃ v ∈ h.opList, h.fields v = h.fields p ∧ h.addOp p = (h, v)) ∨
      h.fields p ∉ h.table ∧ h.addOp p = (h.push p, p) := by
  unfold addOp
  cases hfind : h.opList.find? fun v => h.fields v = h.fields p with
  | some v =>
      have hsame := List.find?_some hfind
      exact Or.inl ⟨v, List.mem_of_find?_eq_some hfind, by simpa using hsame, rfl⟩
  | none =>
      refine Or.inr ⟨fun hmem => ?_, rfl⟩
      obtain ⟨v, hv, hsame⟩ := List.mem_map.mp hmem
      have hne := List.find?_eq_none.mp hfind v hv
      simp [hsame] at hne

/-- A new op gets an index, and keeps its fields. -/
theorem fields_push (h : OpHeap) (p q : Nat) : (h.push p).fields q = h.fields q := by
  show (Function.update h.mem p { h.mem p with index := h.count } q).toOpFields = _
  by_cases hq : q = p
  · rw [hq, Function.update_self]
    rfl
  · rw [Function.update_of_ne hq]
    rfl

theorem table_push (h : OpHeap) (p : Nat) : (h.push p).table = h.table ++ [h.fields p] := by
  show (h.opList ++ [p]).map (h.push p).fields = _
  rw [List.map_append, List.map_congr_left fun q _ => fields_push h p q, List.map_singleton,
    fields_push]
  rfl

theorem push_leaves (hinv : h.Inv) {p : Nat} (hp : p < h.next) (hnew : h.fields p ∉ h.table) :
    Leaves h (h.fields p) (h.push p, p) := by
  have hne (q : Nat) (hq : q ∈ h.opList) : q ≠ p :=
    fun hqp => hnew (hqp ▸ List.mem_map_of_mem hq)
  have hsame (q : Nat) (hq : q ∈ h.opList) : (h.push p).mem q = h.mem q :=
    Function.update_of_ne (hne q hq) _ _
  refine ⟨⟨fun q hq => ?_, fun k q hk => ?_, ?_⟩, ⟨List.prefix_append _ _, hsame⟩,
    fields_push h p p⟩
  · rcases List.mem_append.mp hq with hold | hlast
    · exact hinv.valid q hold
    · exact List.mem_singleton.mp hlast ▸ hp
  · replace hk : (h.opList ++ [p])[k]? = some q := hk
    rcases Nat.lt_or_ge k h.opList.length with hlt | hge
    · rw [List.getElem?_append_left hlt] at hk
      rw [hsame q (List.mem_of_getElem? hk)]
      exact hinv.index k q hk
    · rw [List.getElem?_append_right hge] at hk
      have hlast : k - h.opList.length = 0 := by
        have hlt := (List.getElem?_eq_some_iff.mp hk).1
        rw [List.length_singleton] at hlt
        omega
      rw [hlast] at hk
      obtain rfl : p = q := by simpa using hk
      show (Function.update h.mem p { h.mem p with index := h.count } p).index = _
      rw [Function.update_self, show k = h.opList.length by omega]
      rfl
  · rw [table_push, List.nodup_append]
    refine ⟨hinv.distinct, List.nodup_singleton _, ?_⟩
    rintro a ha b hb rfl
    exact hnew (List.mem_singleton.mp hb ▸ ha)

theorem addOp_leaves (hinv : h.Inv) {p : Nat} (hp : p < h.next) :
    Leaves h (h.fields p) (h.addOp p) ∧ (h.addOp p).2 ∈ (h.addOp p).1.opList ∧
      (h.addOp p).1.table = if h.fields p ∈ h.table then h.table else h.table ++ [h.fields p] := by
  rcases addOp_cases h p with ⟨v, hv, hfields, heq⟩ | ⟨hnew, heq⟩
  · rw [heq]
    have hmem : h.fields p ∈ h.table := hfields ▸ List.mem_map_of_mem hv
    exact ⟨⟨hinv, Extends.refl h, hfields⟩, hv, (if_pos hmem).symm⟩
  · rw [heq]
    refine ⟨push_leaves hinv hp hnew, List.mem_append_right _ (List.mem_singleton_self p), ?_⟩
    rw [if_neg hnew]
    exact table_push h p

/-- An op that is made and added. -/
theorem create_leaves (hinv : h.Inv) (op : OpCell) :
    Leaves h op.toOpFields (h.create op) ∧ (h.create op).2 ∈ (h.create op).1.opList ∧
      (h.create op).1.table =
        if op.toOpFields ∈ h.table then h.table else h.table ++ [op.toOpFields] := by
  have halloc := alloc_leaves hinv op
  have hp : (h.alloc op).2 < (h.alloc op).1.next := Nat.lt_succ_self _
  have htable : (h.alloc op).1.table = h.table :=
    List.map_congr_left fun p hp => congrArg OpCell.toOpFields (halloc.keeps.same p hp)
  obtain ⟨hadd, hmem, hnew⟩ := addOp_leaves halloc.inv hp
  rw [halloc.fields, htable] at hnew
  exact ⟨⟨hadd.inv, halloc.keeps.trans hadd.keeps, hadd.fields.trans halloc.fields⟩, hmem, hnew⟩

end OpHeap

/-- **One call** returns an op with the fields that were asked for, and leaves the others as they
were. -/
theorem OpCall.run_leaves {h : OpHeap} {r : OpHeap × Nat} {c : OpCall} (hinv : h.Inv)
    (hrun : c.run h = some r) :
    OpHeap.Leaves h (c.requested h) r ∧ (c.adds = true → r.2 ∈ r.1.opList) := by
  cases c with
  | build op =>
      obtain rfl := Option.some.inj hrun
      exact ⟨OpHeap.alloc_leaves hinv ⟨op, 0⟩, fun hadds => by cases hadds⟩
  | create op =>
      obtain rfl := Option.some.inj hrun
      obtain ⟨hleaves, hmem, -⟩ := OpHeap.create_leaves hinv ⟨op, 0⟩
      exact ⟨hleaves, fun _ => hmem⟩
  | addOp p =>
      rw [run] at hrun
      split at hrun
      · rename_i hp
        obtain rfl := Option.some.inj hrun
        obtain ⟨hleaves, hmem, -⟩ := OpHeap.addOp_leaves hinv hp
        exact ⟨hleaves, fun _ => hmem⟩
      · cases hrun
  | newValue p _ | newPreCode p _ | newPostCode p _ =>
      rw [run] at hrun
      split at hrun
      · obtain rfl := Option.some.inj hrun
        obtain ⟨hleaves, hmem, -⟩ := OpHeap.create_leaves hinv _
        exact ⟨hleaves, fun _ => hmem⟩
      · cases hrun

theorem opMachine_step {h h' : OpHeap} {c : OpCall} (hstep : opMachine.step h c = some h') :
    ∃ p, c.run h = some (h', p) := by
  obtain ⟨r, hrun, rfl⟩ := Option.map_eq_some_iff.mp hstep
  exact ⟨r.2, hrun⟩

/-- A run keeps the table sound, and the ops that were in it. -/
theorem opMachine_run {calls : List OpCall} : ∀ {h h' : OpHeap}, h.Inv →
    opMachine.run h calls = some h' → h'.Inv ∧ OpHeap.Extends h h' := by
  induction calls with
  | nil =>
      intro h h' hinv hrun
      obtain rfl := Option.some.inj hrun
      exact ⟨hinv, OpHeap.Extends.refl h⟩
  | cons c calls ih =>
      intro h h' hinv hrun
      obtain ⟨mid, hstep, hrest⟩ := Machine.run_cons_eq_some.mp hrun
      obtain ⟨p, hcall⟩ := opMachine_step hstep
      have hleaves := (OpCall.run_leaves hinv hcall).1
      obtain ⟨hinv', hext⟩ := ih hleaves.inv hrest
      exact ⟨hinv', hleaves.keeps.trans hext⟩

/-! ## Indices -/

section Lookup

variable {α κ β : Type} [DecidableEq κ] {key : α → κ} {value : α → β}

/-- A key that no later item has keeps its value. -/
theorem foldl_update_of_not_mem {items : List α} {k : κ} (hk : k ∉ items.map key) :
    ∀ m : κ → Option β,
      items.foldl (fun m p => Function.update m (key p) (some (value p))) m k = m k := by
  induction items with
  | nil => exact fun _ => rfl
  | cons a items ih =>
      intro m
      rw [List.map_cons, List.mem_cons, not_or] at hk
      rw [List.foldl_cons, ih hk.2, Function.update_of_ne hk.1]

/-- Under different keys every item is found. -/
theorem foldl_update_of_mem {items : List α} (hkeys : (items.map key).Nodup) {a : α}
    (ha : a ∈ items) : ∀ m : κ → Option β,
      items.foldl (fun m p => Function.update m (key p) (some (value p))) m (key a) =
        some (value a) := by
  induction items with
  | nil => exact absurd ha List.not_mem_nil
  | cons b items ih =>
      intro m
      rw [List.map_cons, List.nodup_cons] at hkeys
      rw [List.foldl_cons]
      rcases List.mem_cons.mp ha with rfl | hmem
      · rw [foldl_update_of_not_mem hkeys.1, Function.update_self]
      · exact ih hkeys.2 hmem _

end Lookup

namespace OpHeap

variable {h h' : OpHeap}

/-- The indices are the places in the table, and `GetOpList` has every op under its index. -/
structure Indexed (h : OpHeap) : Prop where
  position : ∀ k p, h.opList[k]? = some p → (h.mem p).index.toNat = k
  loaded : ∀ p ∈ h.opList, h.getOpList (h.mem p).index = some (h.mem p).toBaseOpConfig

theorem Inv.position (hinv : h.Inv) (hlen : h.opList.length ≤ 2 ^ 32) {k p : Nat}
    (hk : h.opList[k]? = some p) : (h.mem p).index.toNat = k := by
  have hlt := (List.getElem?_eq_some_iff.mp hk).1
  rw [hinv.index k p hk, BitVec.toNat_ofNat, Nat.mod_eq_of_lt (by omega)]

/-- The indices wrap around when the table has more ops than there are indices. -/
theorem indexed_iff (hinv : h.Inv) : h.Indexed ↔ h.opList.length ≤ 2 ^ 32 := by
  constructor
  · intro hindexed
    by_contra hlong
    obtain ⟨p, hp⟩ : ∃ p, h.opList[2 ^ 32]? = some p :=
      ⟨_, List.getElem?_eq_getElem (show 2 ^ 32 < h.opList.length by omega)⟩
    have hposition := hindexed.position _ p hp
    rw [hinv.index _ p hp, BitVec.toNat_ofNat, Nat.mod_self] at hposition
    omega
  · intro hlen
    refine ⟨fun k p hk => hinv.position hlen hk, fun p hp => ?_⟩
    have hindices : (h.opList.map fun p => (h.mem p).index.toNat) =
        List.range h.opList.length := by
      refine List.ext_getElem (by simp) fun k hk hk' => ?_
      rw [List.getElem_map, List.getElem_range]
      exact hinv.position hlen (List.getElem?_eq_getElem _)
    have hkeys : (h.opList.map fun p => (h.mem p).index).Nodup := by
      refine List.Nodup.of_map BitVec.toNat ?_
      rw [List.map_map]
      exact hindices ▸ List.nodup_range
    exact foldl_update_of_mem hkeys hp _

/-- What every run of calls makes of the table. -/
structure Sound (h : OpHeap) : Prop where
  /-- The next call returns an op with the fields that it asks for, and adds it. -/
  returns : ∀ (c : OpCall) h' p, c.run h = some (h', p) →
    h'.fields p = c.requested h ∧ (c.adds = true → p ∈ h'.opList)
  /-- No two ops of the table have the same fields. -/
  distinct : h.table.Nodup
  /-- After any later calls the ops are what they were, under the same index. -/
  stable : ∀ later h', opMachine.run h later = some h' →
    h.opList <+: h'.opList ∧ ∀ p ∈ h.opList, h'.mem p = h.mem p
  /-- While the table fits, an index that was handed out leads the probe to its op. -/
  lasting : ∀ later h', opMachine.run h later = some h' → h'.opList.length ≤ 2 ^ 32 →
    ∀ p ∈ h.opList, h'.getOpList (h.mem p).index = some (h.mem p).toBaseOpConfig

end OpHeap

/-- **The op table.** After any calls the table is sound, and its indices are the places of the
ops, under which the probe finds them, exactly while there are at most `2 ^ 32` of them. -/
theorem opTable_sound {calls : List OpCall} {h : OpHeap}
    (hrun : opMachine.run .init calls = some h) :
    h.Sound ∧ (h.Indexed ↔ h.opList.length ≤ 2 ^ 32) := by
  have hinv := (opMachine_run OpHeap.inv_init hrun).1
  refine ⟨⟨fun c h' p hcall => ?_, hinv.distinct, fun later h' hlater => ?_,
    fun later h' hlater hlen p hp => ?_⟩, OpHeap.indexed_iff hinv⟩
  · obtain ⟨hleaves, hmem⟩ := OpCall.run_leaves hinv hcall
    exact ⟨hleaves.fields, hmem⟩
  · have hext := (opMachine_run hinv hlater).2
    exact ⟨hext.grows, hext.same⟩
  · obtain ⟨hinv', hext⟩ := opMachine_run hinv hlater
    have hloaded := ((OpHeap.indexed_iff hinv').mpr hlen).loaded p (hext.grows.subset hp)
    rwa [hext.same p hp] at hloaded

/-- `OPC_SET_READ_LEN`, from which `RSAT` makes the op of a struct of 24 bytes two times. -/
def rsatTwice : List OpCall :=
  [.rop "SET_READ_LEN" .setReadLen, .newValue 0 24, .newPostCode 1 OpCode.saveStruct.word,
    .newValue 0 24, .newPostCode 1 OpCode.saveStruct.word]

/-- The second time, both ops are found in the table. -/
theorem opTable_sound_rsatTwice :
    ∃ h, opMachine.run .init rsatTwice = some h ∧ h.opList = [0, 1, 2] ∧
      h.table = [opcSetReadLen.fields, (opcSetReadLen.newValue 24).fields,
        { (opcSetReadLen.newValue 24).fields with postCode := OpCode.saveStruct.word }] ∧
      h.Sound ∧ h.Indexed := by
  obtain ⟨h, hrun, hlist, htable⟩ : ∃ h, opMachine.run .init rsatTwice = some h ∧
      h.opList = [0, 1, 2] ∧
      h.table = [opcSetReadLen.fields, (opcSetReadLen.newValue 24).fields,
        { (opcSetReadLen.newValue 24).fields with postCode := OpCode.saveStruct.word }] :=
    ⟨_, rfl, by decide +kernel, by decide +kernel⟩
  obtain ⟨hsound, hindexed⟩ := opTable_sound hrun
  exact ⟨h, hrun, hlist, htable, hsound, hindexed.mpr (by rw [hlist]; decide)⟩

/-! ## Tables that are built from a list -/

/-- New ops are put into the table one after the other. -/
theorem opMachine_run_create {ops : List OpFields} : ∀ {h : OpHeap}, h.Inv →
    (h.table ++ ops).Nodup → ∃ h', opMachine.run h (ops.map OpCall.create) = some h' ∧ h'.Inv ∧
      h'.table = h.table ++ ops := by
  induction ops with
  | nil => exact fun {h} hinv _ => ⟨h, rfl, hinv, (List.append_nil _).symm⟩
  | cons op ops ih =>
      intro h hinv hnodup
      obtain ⟨hleaves, -, htable⟩ := OpHeap.create_leaves hinv ⟨op, 0⟩
      have hnew : op ∉ h.table := fun hmem =>
        (List.nodup_append.mp hnodup).2.2 op hmem op (List.mem_cons_self ..) rfl
      rw [if_neg hnew] at htable
      have happend : h.table ++ op :: ops = (h.create ⟨op, 0⟩).1.table ++ ops := by
        rw [htable, List.append_assoc]
        rfl
      obtain ⟨h', hrun, hinv', htable'⟩ := ih hleaves.inv (happend ▸ hnodup)
      exact ⟨h', Machine.run_cons_eq_some.mpr ⟨_, rfl, hrun⟩, hinv', happend ▸ htable'⟩

/-- The calls `SaveStruct(0)`, `SaveStruct(1)` and so on. -/
def saveStructs (n : Nat) : List OpCall :=
  (List.range n).map fun i => OpCall.saveStruct (BitVec.ofNat 64 i)

/-- Different sizes are different ops. -/
theorem saveStructs_run {n : Nat} (hn : n ≤ 2 ^ 64) :
    ∃ h, opMachine.run .init (saveStructs n) = some h ∧ h.Inv ∧ h.opList.length = n := by
  have hnodup : ((List.range n).map fun i => (saveStructOp (BitVec.ofNat 64 i)).fields).Nodup := by
    refine List.nodup_range.map_on fun i hi j hj heq => ?_
    have hvalue : BitVec.ofNat 64 i = BitVec.ofNat 64 j :=
      congrArg (fun op : OpFields => op.value) heq
    have hi' := List.mem_range.mp hi
    have hj' := List.mem_range.mp hj
    have hnat := congrArg BitVec.toNat hvalue
    rwa [BitVec.toNat_ofNat, BitVec.toNat_ofNat, Nat.mod_eq_of_lt (by omega),
      Nat.mod_eq_of_lt (by omega)] at hnat
  obtain ⟨h, hrun, hinv, htable⟩ := opMachine_run_create OpHeap.inv_init hnodup
  refine ⟨h, ?_, hinv, ?_⟩
  · rw [List.map_map] at hrun
    exact hrun
  · have hlen := congrArg List.length htable
    simpa [OpHeap.table, OpHeap.init] using hlen

/-- After one call more than there are indices the last op has the index of the first. -/
theorem opTable_wraps : ∃ h, opMachine.run .init (saveStructs (2 ^ 32 + 1)) = some h ∧
    (∃ p, h.opList[2 ^ 32]? = some p ∧ (h.mem p).index = 0) ∧ ¬ h.Indexed := by
  obtain ⟨h, hrun, hinv, hlen⟩ := saveStructs_run (n := 2 ^ 32 + 1) (by omega)
  refine ⟨h, hrun, ?_, fun hindexed => ?_⟩
  · obtain ⟨p, hp⟩ : ∃ p, h.opList[2 ^ 32]? = some p :=
      ⟨_, List.getElem?_eq_getElem (show 2 ^ 32 < h.opList.length by omega)⟩
    refine ⟨p, hp, ?_⟩
    rw [hinv.index _ p hp]
    rfl
  · have hle := (OpHeap.indexed_iff hinv).mp hindexed
    omega

/-! ## The table of the other modules -/

/-- The op table holds the ops of a list. -/
def OpHeap.Represents (h : OpHeap) (m : OpManager) : Prop :=
  h.Inv ∧ h.table = m.opList.map NamedOp.fields

theorem OpCode.toNat_word (c : OpCode) :
    c.word.toNat = if c.ctorIdx = 0 then 0 else 232 + c.ctorIdx := by
  cases c <;> rfl

theorem OpCode.word_inj {c c' : OpCode} (h : c.word = c'.word) : c = c' := by
  have hnat := congrArg BitVec.toNat h
  rw [OpCode.toNat_word, OpCode.toNat_word] at hnat
  have hidx : c.ctorIdx = c'.ctorIdx := by
    split at hnat <;> split at hnat <;> omega
  rw [← OpCode.ofNat_ctorIdx c, hidx, OpCode.ofNat_ctorIdx]

theorem NamedOp.fields_inj {op op' : NamedOp} (h : op.fields = op'.fields) : op = op' := by
  obtain ⟨⟨code, pre, post, value⟩, name⟩ := op
  obtain ⟨⟨code', pre', post', value'⟩, name'⟩ := op'
  simp only [NamedOp.fields, OpFields.mk.injEq, BaseOpConfig.mk.injEq] at h
  obtain ⟨⟨hcode, hpre, hpost, rfl⟩, rfl⟩ := h
  rw [OpCode.word_inj hcode, OpCode.word_inj hpre, OpCode.word_inj hpost]

theorem mem_map_fields {ops : List NamedOp} {op : NamedOp} :
    op.fields ∈ ops.map NamedOp.fields ↔ op ∈ ops := by
  constructor
  · intro hmem
    obtain ⟨op', hop', heq⟩ := List.mem_map.mp hmem
    exact NamedOp.fields_inj heq ▸ hop'
  · exact fun hmem => List.mem_map_of_mem hmem

/-- **Refinement.** `AddOp` of an op in memory is `addOp` of the list, and the index that is
handed out is its key. -/
theorem OpHeap.Represents.addOp {h : OpHeap} {m : OpManager} (hrep : h.Represents m)
    {op : NamedOp} {p : Nat} (hp : p < h.next) (hfields : h.fields p = op.fields) :
    (h.addOp p).1.Represents (m.addOp op) ∧
      ((h.addOp p).1.mem (h.addOp p).2).index = (m.addOp op).key op := by
  obtain ⟨hinv, htable⟩ := hrep
  obtain ⟨hleaves, hmem, hnew⟩ := OpHeap.addOp_leaves hinv hp
  have htable' : (h.addOp p).1.table = (m.addOp op).opList.map NamedOp.fields := by
    rw [hnew, htable, hfields]
    unfold OpManager.addOp
    by_cases hop : op ∈ m.opList
    · rw [if_pos (mem_map_fields.mpr hop), dif_pos hop]
    · rw [if_neg (mt mem_map_fields.mp hop), dif_neg hop, List.map_append, List.map_singleton]
  refine ⟨⟨hleaves.inv, htable'⟩, ?_⟩
  obtain ⟨k, hk⟩ := List.getElem?_of_mem hmem
  rw [hleaves.inv.index k _ hk]
  -- the place in the table is the one in the list
  have hplace : ((m.addOp op).opList.map NamedOp.fields)[k]? = some op.fields := by
    rw [← htable', OpHeap.table, List.getElem?_map, hk]
    exact congrArg some (hleaves.fields.trans hfields)
  obtain ⟨op', hop', heq⟩ := by
    rw [List.getElem?_map] at hplace
    exact Option.map_eq_some_iff.mp hplace
  obtain rfl := NamedOp.fields_inj heq
  obtain ⟨hlt, hget⟩ := List.getElem?_eq_some_iff.mp hop'
  have hidx := (m.addOp op').nodup.idxOf_getElem k hlt
  rw [hget] at hidx
  unfold OpManager.key OpManager.index
  rw [hidx]

/-- The basic ops are registered in the order of the list. -/
theorem represents_init : ∃ h,
    opMachine.run .init (basicOps.map fun op => OpCall.create op.fields) = some h ∧
      h.Represents .init := by
  have hnodup : (basicOps.map NamedOp.fields).Nodup :=
    OpManager.init.nodup.map fun _ _ => NamedOp.fields_inj
  obtain ⟨h, hrun, hinv, htable⟩ :=
    @opMachine_run_create (basicOps.map NamedOp.fields) .init OpHeap.inv_init hnodup
  rw [List.map_map] at hrun
  exact ⟨h, hrun, hinv, htable⟩

end Stackplz
