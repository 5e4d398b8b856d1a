import Stackplz.User.ArgType

/-!
# Point arguments

`PointArg` (`config_point_arg.go`): where an argument is read, as which type, and for which
programs its data is read and parsed. `getOpList` is the encoder's side of it and `parse` the
decoder's; the one compares the point type with the group type, the other with the program
the event comes from.
-/

set_option autoImplicit false

namespace Stackplz

/-- `EBPF_PROG_NONE` to `EBPF_UPROBE_EXIT`. -/
inductive PointType where
  | none | sysEnter | sysExit | sysAll | uprobeEnter | uprobeExit
deriving DecidableEq, Repr

/-- `REG_ARM64_MAX` -/
def regArm64Max : u32 := 33

/-- `PointArg`. -/
structure PointArg where
  name : Text
  regIndex : u32
  ty : ArgType
  extraOpList : List NamedOp
  filterIndexList : List u32
  pointType : PointType
  groupType : PointType
  isRet : Bool
deriving DecidableEq

/-- `NewSyscallPointArg`. -/
def newSyscallPointArg (name : Text) (ty : ArgType) (regIndex : u32) (pointType : PointType) :
    PointArg :=
  ⟨name, regIndex, ty, [], [], pointType, .none, false⟩

/-- `NewUprobePointArg`. -/
def newUprobePointArg (name : Text) (ty : ArgType) (regIndex : u32) : PointArg :=
  newSyscallPointArg name ty regIndex .uprobeEnter

/-- `B`: an argument of `sys_exit` without a register. -/
def newExitPointArg (name : Text) (ty : ArgType) : PointArg :=
  newSyscallPointArg name ty regArm64Max .sysExit

/-- `Clone`, which keeps neither the group type nor `IsRet`. -/
def PointArg.clone (a : PointArg) : PointArg := { a with groupType := .none, isRet := false }

/-! ## The encoder's side -/

/-- `ReadMore`. -/
def PointArg.readMore (a : PointArg) : Bool :=
  a.pointType == .sysAll || a.pointType == a.groupType

/-- `IsBuffer`: the type was derived from `buffer`. -/
def ArgType.isBuffer : ArgType → Bool
  | .bufferLen _ | .bufferReg _ => true
  | _ => false

/-- The types whose filters compare strings. -/
def ArgType.isString : ArgType → Bool
  | .string | .stdString => true
  | _ => false

/-- The ops that save the argument's own word. -/
def PointArg.wordOps (a : PointArg) : List NamedOp :=
  if a.isRet then [opcReadRet, opcSaveReg]
  else if a.extraOpList ≠ [] then a.extraOpList
  else [readSaveReg (a.regIndex.setWidth 64), opcMoveRegValue]

/-- The filters on the register value. -/
def PointArg.valueFilterOps (a : PointArg) : List NamedOp :=
  if a.isRet || a.ty.isString || a.ty.isBuffer then []
  else a.filterIndexList.map fun i => opcFilterValue.newValue (i.setWidth 64)

/-- The filters on the data of the type. -/
def PointArg.dataFilterOps (a : PointArg) : List NamedOp :=
  if a.ty.isString then a.filterIndexList.map fun i => opcFilterString.newValue (i.setWidth 64)
  else if a.ty.isBuffer then
    a.filterIndexList.map fun i => opcFilterBuffer.newValue (i.setWidth 64)
  else []

/-- `GetOpList`. The return value of a system call is saved by the program itself. -/
def PointArg.getOpList (a : PointArg) : List NamedOp :=
  if a.regIndex = regArm64Max then []
  else
    a.wordOps ++ a.valueFilterOps ++
      if a.readMore then a.ty.opList ++ a.dataFilterOps else []

/-! ## The key list of a point -/

/-- One round of `AddPointArg`: the last place of the list has to stay free. -/
def PointArgs.addOpKey {maxOp : Nat} (args : PointArgs maxOp) (key : u32) :
    Option (PointArgs maxOp) :=
  if h : args.opCount.toNat < maxOp then
    let count := args.opCount + 1
    if count.toNat = maxOp then none
    else some
      { args with opCount := count, opKeyList := args.opKeyList.set args.opCount.toNat key }
  else none

/-- `AddPointArg`; `none` is a panic. -/
def PointArgs.addPointArg {maxOp : Nat} (m : OpManager) (args : PointArgs maxOp) (a : PointArg) :
    Option (PointArgs maxOp) :=
  (a.getOpList.map m.key).foldlM PointArgs.addOpKey args

/-- `GetConfig` and its siblings: the arguments of a point packed into an empty list. -/
def PointArgs.pack (maxOp : Nat) (m : OpManager) (enterKey : u32) (args : List PointArg) :
    Option (PointArgs maxOp) :=
  args.foldlM (PointArgs.addPointArg m) ⟨enterKey, 0, Vector.replicate maxOp 0⟩

/-- The list holds `keys` from its start on, and zeros after them. -/
structure PointArgs.Holds {maxOp : Nat} (args : PointArgs maxOp) (keys : List u32) : Prop where
  opCount : args.opCount.toNat = keys.length
  room : keys.length < maxOp
  opKeyList : ∀ i (hi : i < maxOp), args.opKeyList[i] = (keys[i]?).getD 0

section Pack

variable {maxOp : Nat} {m : OpManager}

theorem addOpKey_holds (hmax : maxOp < 2 ^ 32) {args args' : PointArgs maxOp} {keys : List u32}
    {key : u32} (hargs : args.Holds keys) (h : args.addOpKey key = some args') :
    args'.Holds (keys ++ [key]) := by
  unfold PointArgs.addOpKey at h
  have hcount : (args.opCount + 1).toNat = keys.length + 1 := by
    have hroom := hargs.room
    rw [BitVec.toNat_add, hargs.opCount]
    show (keys.length + 1) % 2 ^ 32 = keys.length + 1
    omega
  split at h
  · rename_i hlt
    dsimp only at h
    split at h
    · cases h
    · rename_i hfull
      obtain rfl := Option.some.inj h
      rw [hcount] at hfull
      refine ⟨?_, ?_, fun i hi => ?_⟩
      · rw [List.length_append]
        exact hcount
      · rw [List.length_append, List.length_singleton]
        have := hargs.room
        omega
      · show (args.opKeyList.set args.opCount.toNat key)[i] = _
        rw [Vector.getElem_set]
        simp only [hargs.opCount]
        split
        · rename_i heq
          rw [← heq, List.getElem?_concat_length]
          rfl
        · rename_i hne
          rw [hargs.opKeyList i hi]
          by_cases hi' : i < keys.length
          · rw [List.getElem?_append_left hi']
          · rw [List.getElem?_append_right (by omega), List.getElem?_eq_none (by omega),
              List.getElem?_eq_none]
            rw [List.length_singleton]
            omega
  · cases h

theorem foldlM_addOpKey_holds (hmax : maxOp < 2 ^ 32) {new : List u32}
    {args args' : PointArgs maxOp} {keys : List u32} (hargs : args.Holds keys)
    (h : new.foldlM PointArgs.addOpKey args = some args') : args'.Holds (keys ++ new) := by
  induction new generalizing args keys with
  | nil =>
      obtain rfl := Option.some.inj h
      rwa [List.append_nil]
  | cons key new ih =>
      rw [List.foldlM_cons] at h
      obtain ⟨mid, hmid, hrest⟩ := Option.bind_eq_some_iff.mp h
      have hkeys := ih (addOpKey_holds hmax hargs hmid) hrest
      rwa [List.append_assoc] at hkeys

/-- A packed list holds the keys of all op lists, one after the other. -/
theorem pack_holds (hmax : maxOp < 2 ^ 32) (hpos : 0 < maxOp) {enterKey : u32}
    {args : List PointArg} {packed : PointArgs maxOp}
    (h : PointArgs.pack maxOp m enterKey args = some packed) :
    packed.Holds ((args.flatMap PointArg.getOpList).map m.key) := by
  have hadd (args : List PointArg) (start : PointArgs maxOp) (keys : List u32)
      (hstart : start.Holds keys)
      (h : args.foldlM (PointArgs.addPointArg m) start = some packed) :
      packed.Holds (keys ++ (args.flatMap PointArg.getOpList).map m.key) := by
    induction args generalizing start keys with
    | nil =>
        obtain rfl := Option.some.inj h
        rwa [List.flatMap_nil, List.map_nil, List.append_nil]
    | cons a args ih =>
        rw [List.foldlM_cons] at h
        obtain ⟨mid, hmid, hrest⟩ := Option.bind_eq_some_iff.mp h
        have hkeys := ih mid _ (foldlM_addOpKey_holds hmax hstart hmid) hrest
        rwa [List.append_assoc, ← List.map_append, ← List.flatMap_cons] at hkeys
  refine hadd args _ [] ⟨rfl, hpos, fun i hi => ?_⟩ h
  rw [Vector.getElem_replicate]
  rfl

end Pack

/-! ## The decoder's side -/

/-- `parse_more` for an event of the given program. -/
def PointArg.parseMore (a : PointArg) (program : PointType) : Bool :=
  a.pointType == .sysAll || a.pointType == program

/-- `Parse`: what is read after the argument's own word. -/
def PointArg.parse (a : PointArg) (program : PointType) : Reader (List (List u8)) :=
  a.ty.parse (a.parseMore program)

end Stackplz
