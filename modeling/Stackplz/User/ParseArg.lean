import Stackplz.Basic.Outcome
import Stackplz.User.PointArg

/-!
# Arguments from configurations

The two parsers that build a `PointArg`: `ParseArgType` from a piece of a hook point string,
`GetPointArg` from a parameter of a configuration file. Both compile the read address with
the same code. The last part says which fields of the argument each of them sets.
-/

set_option autoImplicit false

namespace Stackplz

/-- Why a configuration is turned down: an error, with the text it quotes, or a panic. -/
inductive Failure where
  | emptyLibrary
  | tooManyPoints
  | parseFor (text : Text)
  | parseArg (typeName argStr : Text)
  | panic
deriving DecidableEq

/-- What the parsers look up: the type registry and the filters of the command line. `none`
is a panic of the lookup. -/
structure ParseEnv where
  argTypeByName : Text → Option ArgType
  getFilterIndex : Text → Option u32
  addFilter : Text → Option u32

/-- The registry with the built-in types, and no filters. -/
def builtinEnv : ParseEnv := ⟨builtinByName, fun _ => none, fun _ => none⟩

/-- The outcome of a lookup that panics. -/
def orPanic {α : Type} : Option α → Except Failure α
  | some a => .ok a
  | none => .error .panic

/-- `RegsNameMap`. -/
def regsNameMap : List (Text × u32) :=
  (List.range 30).map (fun i => ('x' :: (Nat.repr i).toList, BitVec.ofNat 32 i)) ++
    [("lr".toList, 30), ("sp".toList, 31), ("pc".toList, 32)]

/-- `GetRegIndex`. -/
def getRegIndex (reg : Text) : Option u32 :=
  (regsNameMap.find? fun entry => entry.1 == reg).map fun entry => entry.2

/-- A register that has a name exists. -/
theorem getRegIndex_lt {reg : Text} {i : u32} (h : getRegIndex reg = some i) : i.toNat < 33 := by
  have hmap : ∀ entry ∈ regsNameMap, entry.2.toNat < 33 := by decide
  obtain ⟨entry, hfind, rfl⟩ := Option.map_eq_some_iff.mp h
  exact hmap entry (List.mem_of_find?_eq_some hfind)

/-! ## Changes of the type -/

/-- `R_NUM_HEX` and `NewNumFlags`: a number or pointer type in another style. -/
def ArgType.restyle (style : NumStyle → NumStyle) : ArgType → Except Failure ArgType
  | .num kind s => .ok (.num kind (style s))
  | .pointer s => .ok (.pointer (style s))
  | .pointerTo target s => .ok (.pointerTo target (style s))
  | _ => .error .panic

/-- `SetHexFormat`. -/
def PointArg.setHexFormat (a : PointArg) : Except Failure PointArg :=
  match a.ty with
  | .array .. => .ok a
  | ty => do
      let ty ← ty.restyle fun s => { s with format := .hex }
      return { a with ty := ty }

/-- `SetHexFormat` under the flag `to_hex`. -/
def PointArg.hexIf (toHex : Bool) (a : PointArg) : Except Failure PointArg :=
  if toHex then a.setHexFormat else .ok a

/-- `ToPointerType` under the flag `to_ptr`, and the group type set after it. -/
def PointArg.pointerIf (toPtr : Bool) (a : PointArg) : PointArg :=
  if toPtr then { a with ty := .pointerTo a.ty .plain, groupType := .uprobeEnter } else a

/-- The flag formats, with the style that `SetFlagsFormat` gives each. -/
def flagsFormats : List (String × NumStyle) :=
  [("inotify_flags", ⟨.hex, some "inotify".toList⟩), ("access_flags", ⟨.hex, some "access".toList⟩),
    ("mmap_flags", ⟨.hex, some "mmap".toList⟩), ("mremap_flags", ⟨.hex, some "mremap".toList⟩),
    ("file_flags", ⟨.hex, some "file".toList⟩), ("prot_flags", ⟨.hex, some "prot".toList⟩),
    ("fcntl_flags", ⟨.hex, some "stat".toList⟩), ("statx_flags", ⟨.hex, some "statx".toList⟩),
    ("unlink_flags", ⟨.hex, some "unlink".toList⟩), ("msg_flags", ⟨.hex, some "msg".toList⟩),
    ("socket_flags", ⟨.hex, some "socket".toList⟩),
    ("perm_flags", ⟨.oct, some "permission".toList⟩)]

/-- A type whose data the uprobe programs read. -/
def PointArg.setUprobeType (a : PointArg) (ty : ArgType) : PointArg :=
  { a with ty := ty, groupType := .uprobeEnter }

/-- `R_BUFFER_LEN` -/
def bufferLenType (length : Nat) : Except Failure ArgType :=
  if length > maxBytesArrSize then .error .panic else .ok (.bufferLen (BitVec.ofNat 32 length))

/-- The type of a `buf` argument, from the text that gives its size. -/
def bufType (size : Text) : Except Failure ArgType :=
  if size = [] then bufferLenType 256
  else
    match Text.parseUint size 0 32 with
    | some length => bufferLenType length
    | none => do
        let regIndex ← orPanic (getRegIndex size)
        return .bufferReg regIndex

/-! ## The read address -/

/-- The signed terms of a segment: each with whether a minus stands before it. -/
def signedTerms (minus : Bool) : Text → List (Bool × Text)
  | [] => [(minus, [])]
  | c :: cs =>
      if c = '+' || c = '-' then (minus, []) :: signedTerms (c = '-') cs
      else
        match signedTerms minus cs with
        | [] => [(minus, [c])]
        | (m, token) :: rest => (m, c :: token) :: rest

/-- The ops of one term, after those of the terms before it. The flag says whether a register
was read already. -/
def termOps (acc : List NamedOp × Bool) (term : Bool × Text) :
    Except Failure (List NamedOp × Bool) :=
  let (ops, hasFirstOp) := acc
  let (minus, token) := term
  if token = [] then .ok acc
  else
    match Text.parseUint token 0 64 with
    | some value =>
        if hasFirstOp then
          let op := if minus then opcSubOffset else opcAddOffset
          .ok (ops ++ [op.newValue (BitVec.ofNat 64 value)], hasFirstOp)
        else .error .panic
    | none =>
        match getRegIndex token with
        | none => .error .panic
        | some reg =>
            let move := readMoveReg (reg.setWidth 64)
            if hasFirstOp then
              .ok (ops ++ [move, if minus then opcSubReg else opcAddReg], hasFirstOp)
            else .ok (ops ++ [move], true)

/-- The ops of one segment; every segment but the first starts from the pointer at the
address so far. -/
def segmentOps (acc : List NamedOp × Bool) (segment : Text) (isFirst : Bool) :
    Except Failure (List NamedOp × Bool) :=
  let (ops, hasFirstOp) := acc
  let ops := if isFirst then ops else ops ++ [opcReadPointer, opcMovePointerValue]
  if segment = [] then .ok (ops, hasFirstOp)
  else (signedTerms false segment).foldlM termOps (ops, hasFirstOp)

/-- The `ExtraOpList` of a read address. -/
def readOpList (readOp : Text) : Except Failure (List NamedOp) :=
  if readOp = [] then .ok []
  else do
    let segments := Text.splitOn '.' readOp
    let (ops, _) ← segments.zipIdx.foldlM (fun acc x => segmentOps acc x.1 (x.2 == 0)) ([], false)
    return ops ++ [opcSaveAddr]

/-! ## Hook point strings -/

/-- The element type of the array types. -/
def arrayElem (typeName : String) : NumKind :=
  if typeName = "int_arr" then .int else if typeName = "uint_arr" then .uint else .uint64

/-- The number types that both parsers name. -/
def numTypes : List (String × NumKind) :=
  [("int", .int), ("uint", .uint), ("int8", .int8), ("uint8", .uint8), ("int16", .int16),
    ("uint16", .uint16), ("int32", .int32), ("uint32", .uint32), ("int64", .int64),
    ("uint64", .uint64)]

/-- The `switch` of `ParseArgType` on the type name without its hex mark. `item` is the text
before the first colon, `readOp` the text after it; what is left of it is the read address. -/
def ParseEnv.hookType (env : ParseEnv) (typeName item readOp argStr : Text) (a : PointArg) :
    Except Failure (PointArg × Text) :=
  let typeStr := String.ofList typeName
  match numTypes.lookup typeStr with
  | some kind => .ok ({ a with ty := .num kind .plain }, readOp)
  | none =>
      match typeStr with
      | "str" => .ok (a.setUprobeType .string, readOp)
      | "std" => .ok (a.setUprobeType .stdString, readOp)
      | "ptr" => .ok ({ a with ty := .pointer .plain }, readOp)
      | "ptr_arr" | "uint_arr" | "int_arr" =>
          let (count, rest) := Text.splitTwo ':' readOp
          match Text.parseUint count 0 32 with
          | none => .error (.parseArg typeName argStr)
          | some size =>
              let ty := ArgType.array (arrayElem typeStr) ⟨.hex, none⟩ (BitVec.ofNat 32 size)
              .ok (a.setUprobeType ty, rest.getD [])
      | "buf" => do
          let (size, rest) := Text.splitTwo ':' readOp
          let ty ← bufType size
          return (a.setUprobeType ty, rest.getD [])
      | _ => do
          let ty ← orPanic (env.argTypeByName item)
          return (a.setUprobeType ty, readOp)

/-- `ParseArgType`. -/
def ParseEnv.parseArgType (env : ParseEnv) (argStr : Text) (a : PointArg) :
    Except Failure PointArg := do
  let toPtr := Text.hasPrefix argStr ['*']
  let (item, readOp) := Text.splitTwo ':' (Text.trimPrefix argStr ['*'])
  let (typeName, filterNames) := Text.splitTwo '.' item
  let filters ← ((Text.splitOn '.' (filterNames.getD [])).filter (· ≠ [])).mapM
    fun name => orPanic (env.getFilterIndex name)
  let a := { a with filterIndexList := a.filterIndexList ++ filters }
  let toHex := Text.hasSuffix typeName ['x']
  let typeName := if toHex then Text.dropLast typeName 1 else typeName
  let (a, readOp) ← env.hookType typeName item (readOp.getD []) argStr a
  let a ← a.hexIf toHex
  let a := a.pointerIf toPtr
  let ops ← readOpList readOp
  return { a with extraOpList := a.extraOpList ++ ops }

/-! ## Configuration files -/

/-- `ParamConfig`. -/
structure ParamConfig where
  name : Text
  type : Text
  format : Text
  size : Text
  more : Text
  filter : List Text
  reg : Text
  readOp : Text

/-- The type name without the star of a pointer. -/
def ParamConfig.typeName (p : ParamConfig) : Text := Text.trimPrefix p.type ['*']

def ParamConfig.toPtr (p : ParamConfig) : Bool := Text.hasPrefix p.type ['*']

/-- The `switch` of `GetPointArg` on the type name. -/
def ParseEnv.paramType (env : ParseEnv) (p : ParamConfig) (a : PointArg) :
    Except Failure PointArg :=
  match String.ofList p.typeName with
  | "buf" => do
      let ty ← bufType p.size
      return a.setUprobeType ty
  | "iovec" => do
      let regIndex ← orPanic (getRegIndex p.size)
      return a.setUprobeType (.iovecReg regIndex)
  | "int_arr" | "uint_arr" | "ptr_arr" => do
      let size ← orPanic (Text.parseUint p.size 0 32)
      let format := if p.format = "hex".toList then NumFormat.hex else NumFormat.num
      let elem := arrayElem (String.ofList p.typeName)
      return a.setUprobeType (.array elem ⟨format, none⟩ (BitVec.ofNat 32 size))
  | "str" | "std" => do
      let ty ← orPanic (env.argTypeByName p.typeName)
      return a.setUprobeType ty
  | _ => do
      -- a number type, or a struct type of the registry
      let ty ← orPanic (env.argTypeByName p.typeName)
      return { a with ty := ty }

/-- The `switch` of `GetPointArg` on the format. -/
def ParamConfig.setFormat (p : ParamConfig) (a : PointArg) : Except Failure PointArg :=
  match String.ofList p.format with
  | "" => .ok a
  | "hex" | "hexdump" => a.setHexFormat
  | format => do
      let style ← orPanic (flagsFormats.lookup format)
      let ty ← a.ty.restyle fun _ => style
      return { a with ty := ty }

/-- The register of a parameter: the one it names, else the one of its position. -/
def ParamConfig.regIndex (p : ParamConfig) (argIndex : u32) : Except Failure u32 :=
  if p.reg = [] then .ok argIndex else orPanic (getRegIndex p.reg)

/-- `GetPointArg`. -/
def ParseEnv.getPointArg (env : ParseEnv) (p : ParamConfig) (argIndex : u32)
    (pointType : PointType) : Except Failure PointArg := do
  let name := if p.name = [] then 'a' :: (Nat.repr argIndex.toNat).toList else p.name
  let regIndex ← p.regIndex argIndex
  let a ← env.paramType p (newSyscallPointArg name (.pointer .plain) regIndex pointType)
  let a := a.pointerIf p.toPtr
  let a ← p.setFormat a
  let filters ← p.filter.mapM fun filter => orPanic (env.addFilter filter)
  let ops ← readOpList p.readOp
  return { a with filterIndexList := filters, extraOpList := ops }

/-! ## The ops of a read address -/

/-- The ops that a read address is compiled to, before the last one saves the address. -/
def NamedOp.isAddressOp (op : NamedOp) : Bool :=
  op.code ∈ [OpCode.readReg, .addOffset, .subOffset, .addReg, .subReg, .readPointer,
      .movePointerValue] &&
    op.preCode ∈ [OpCode.skip, .setRegIndex] && op.postCode ∈ [OpCode.skip, .moveRegValue]

/-- An `ExtraOpList`: empty, or the ops of an address and one op that saves it. -/
def IsAddressList (ops : List NamedOp) : Prop :=
  ops = [] ∨ ∃ address, ops = address ++ [opcSaveAddr] ∧ ∀ op ∈ address, op.isAddressOp = true

/-- The ops that a read address is compiled to, each for a register that has a name. -/
inductive AddressOp : NamedOp → Prop
  | move {token : Text} {reg : u32} (h : getRegIndex token = some reg) :
      AddressOp (readMoveReg (reg.setWidth 64))
  | addOffset (value : u64) : AddressOp (opcAddOffset.newValue value)
  | subOffset (value : u64) : AddressOp (opcSubOffset.newValue value)
  | addReg : AddressOp opcAddReg
  | subReg : AddressOp opcSubReg
  | readPointer : AddressOp opcReadPointer
  | movePointer : AddressOp opcMovePointerValue

theorem AddressOp.isAddressOp {op : NamedOp} (h : AddressOp op) : op.isAddressOp = true := by
  cases h <;> rfl

theorem termOps_spec {acc acc' : List NamedOp × Bool} {term : Bool × Text}
    (hacc : ∀ op ∈ acc.1, AddressOp op) (h : termOps acc term = .ok acc') :
    ∀ op ∈ acc'.1, AddressOp op := by
  obtain ⟨ops, hasFirstOp⟩ := acc
  obtain ⟨minus, token⟩ := term
  unfold termOps at h
  dsimp only at h hacc
  split at h
  · obtain rfl := Except.ok.inj h
    exact hacc
  · split at h
    · split at h
      · obtain rfl := Except.ok.inj h
        refine List.forall_mem_append.mpr ⟨hacc, List.forall_mem_singleton.mpr ?_⟩
        cases minus
        · exact .addOffset _
        · exact .subOffset _
      · cases h
    · split at h
      · cases h
      · rename_i reg hreg
        split at h
        · obtain rfl := Except.ok.inj h
          refine List.forall_mem_append.mpr
            ⟨hacc, List.forall_mem_cons.mpr ⟨.move hreg, List.forall_mem_singleton.mpr ?_⟩⟩
          cases minus
          · exact .addReg
          · exact .subReg
        · obtain rfl := Except.ok.inj h
          exact List.forall_mem_append.mpr ⟨hacc, List.forall_mem_singleton.mpr (.move hreg)⟩

theorem segmentOps_spec {acc acc' : List NamedOp × Bool} {segment : Text} {isFirst : Bool}
    (hacc : ∀ op ∈ acc.1, AddressOp op)
    (h : segmentOps acc segment isFirst = .ok acc') :
    ∀ op ∈ acc'.1, AddressOp op := by
  obtain ⟨ops, hasFirstOp⟩ := acc
  have hstart : ∀ op ∈ (if isFirst then ops else ops ++ [opcReadPointer, opcMovePointerValue]),
      AddressOp op := by
    cases isFirst with
    | true => exact hacc
    | false =>
        exact List.forall_mem_append.mpr
          ⟨hacc, List.forall_mem_cons.mpr
            ⟨.readPointer, List.forall_mem_singleton.mpr .movePointer⟩⟩
  unfold segmentOps at h
  dsimp only at h
  split at h
  · obtain rfl := Except.ok.inj h
    exact hstart
  · exact Outcome.foldlM_invariant (P := fun acc => ∀ op ∈ acc.1, AddressOp op)
      (fun _ _ _ => termOps_spec) hstart h

/-- What a text is compiled to: nothing, or the ops of an address and one op that saves it. -/
theorem readOpList_ops {readOp : Text} {ops : List NamedOp} (h : readOpList readOp = .ok ops) :
    ops = [] ∨ ∃ address, ops = address ++ [opcSaveAddr] ∧ ∀ op ∈ address, AddressOp op := by
  unfold readOpList at h
  split at h
  · exact Or.inl (Except.ok.inj h).symm
  · obtain ⟨⟨address, first⟩, hfold, h⟩ := Outcome.bind_eq_ok.mp h
    obtain rfl := Except.ok.inj h
    exact Or.inr ⟨address, rfl,
      Outcome.foldlM_invariant (P := fun acc => ∀ op ∈ acc.1, AddressOp op)
        (fun _ _ _ => segmentOps_spec) (List.forall_mem_nil _) hfold⟩

theorem readOpList_spec {readOp : Text} {ops : List NamedOp} (h : readOpList readOp = .ok ops) :
    IsAddressList ops := by
  rcases readOpList_ops h with hnil | ⟨address, hops, haddress⟩
  · exact Or.inl hnil
  · exact Or.inr ⟨address, hops, fun op hop => (haddress op hop).isAddressOp⟩

/-! ## What the parsers set -/

/-- The type names under which `GetPointArg` sets the group type. -/
def groupTypeNames : List String :=
  ["buf", "iovec", "int_arr", "uint_arr", "ptr_arr", "str", "std"]

/-- `GetPointArg` sets the group type of the parameter. -/
def ParamConfig.setsGroupType (p : ParamConfig) : Bool :=
  groupTypeNames.contains (String.ofList p.typeName) || p.toPtr

theorem restyle_hasData {style : NumStyle → NumStyle} {ty ty' : ArgType}
    (h : ty.restyle style = .ok ty') : ty'.hasData = ty.hasData := by
  cases ty <;> cases h <;> rfl

theorem setHexFormat_spec {a b : PointArg} (h : a.setHexFormat = .ok b) :
    ∃ ty, ty.hasData = a.ty.hasData ∧ b = { a with ty := ty } := by
  unfold PointArg.setHexFormat at h
  split at h
  · exact ⟨a.ty, rfl, (Except.ok.inj h).symm⟩
  · obtain ⟨ty, hty, h⟩ := Outcome.bind_eq_ok.mp h
    exact ⟨ty, restyle_hasData hty, (Except.ok.inj h).symm⟩

theorem hexIf_spec {toHex : Bool} {a b : PointArg} (h : a.hexIf toHex = .ok b) :
    ∃ ty, ty.hasData = a.ty.hasData ∧ b = { a with ty := ty } := by
  cases toHex with
  | true => exact setHexFormat_spec h
  | false => exact ⟨a.ty, rfl, (Except.ok.inj h).symm⟩

/-- Only the types without data are left without a group type. -/
theorem hookType_spec {env : ParseEnv} {typeName item readOp argStr : Text} {a : PointArg}
    {b : PointArg × Text} (h : env.hookType typeName item readOp argStr a = .ok b) :
    ∃ ty, b.1 = a.setUprobeType ty ∨ ty.hasData = false ∧ b.1 = { a with ty := ty } := by
  unfold ParseEnv.hookType at h
  dsimp only at h
  split at h
  · obtain rfl := Except.ok.inj h
    exact ⟨_, Or.inr ⟨rfl, rfl⟩⟩
  · split at h
    case h_3 =>
      obtain rfl := Except.ok.inj h
      exact ⟨_, Or.inr ⟨rfl, rfl⟩⟩
    case h_1 | h_2 =>
      obtain rfl := Except.ok.inj h
      exact ⟨_, Or.inl rfl⟩
    case h_4 | h_5 | h_6 =>
      split at h
      · cases h
      · obtain rfl := Except.ok.inj h
        exact ⟨_, Or.inl rfl⟩
    case h_7 | h_8 =>
      obtain ⟨ty, -, h⟩ := Outcome.bind_eq_ok.mp h
      obtain rfl := Except.ok.inj h
      exact ⟨ty, Or.inl rfl⟩

/-- What `ParseArgType` sets: the type, the filters, the read address, and the group type of
every type with data. -/
theorem parseArgType_spec {env : ParseEnv} {argStr : Text} {a b : PointArg}
    (h : env.parseArgType argStr a = .ok b) :
    ∃ ty groupType filters ops,
      b = { a with
        ty := ty, groupType := groupType, filterIndexList := filters
        extraOpList := a.extraOpList ++ ops } ∧
      (groupType = .uprobeEnter ∨ ty.hasData = false) ∧ IsAddressList ops := by
  unfold ParseEnv.parseArgType at h
  dsimp only at h
  obtain ⟨filters, -, h⟩ := Outcome.bind_eq_ok.mp h
  obtain ⟨⟨typed, readOp⟩, htyped, h⟩ := Outcome.bind_eq_ok.mp h
  obtain ⟨hexed, hhexed, h⟩ := Outcome.bind_eq_ok.mp h
  obtain ⟨ops, hops, h⟩ := Outcome.bind_eq_ok.mp h
  obtain rfl := Except.ok.inj h
  obtain ⟨ty, htyped⟩ := hookType_spec htyped
  obtain ⟨ty', hdata, rfl⟩ := hexIf_spec hhexed
  cases argStr.hasPrefix ['*'] with
  | true =>
      rcases htyped with rfl | ⟨-, rfl⟩
      · exact ⟨_, _, _, ops, rfl, Or.inl rfl, readOpList_spec hops⟩
      · exact ⟨_, _, _, ops, rfl, Or.inl rfl, readOpList_spec hops⟩
  | false =>
      rcases htyped with rfl | ⟨hnone, rfl⟩
      · exact ⟨_, _, _, ops, rfl, Or.inl rfl, readOpList_spec hops⟩
      · exact ⟨_, _, _, ops, rfl, Or.inr (hdata.trans hnone), readOpList_spec hops⟩

theorem paramType_spec {env : ParseEnv} {p : ParamConfig} {a b : PointArg}
    (h : env.paramType p a = .ok b) :
    ∃ ty, b = if groupTypeNames.contains (String.ofList p.typeName) then a.setUprobeType ty
      else { a with ty := ty } := by
  unfold ParseEnv.paramType at h
  split at h
  case h_8 hbuf hiovec hint huint hptr hstr hstd =>
    obtain ⟨ty, -, h⟩ := Outcome.bind_eq_ok.mp h
    have hnone : groupTypeNames.contains (String.ofList p.typeName) = false := by
      simp only [groupTypeNames, List.contains_cons, List.contains_nil, Bool.or_false,
        Bool.or_eq_false_iff, beq_eq_false_iff_ne]
      exact ⟨hbuf, hiovec, hint, huint, hptr, hstr, hstd⟩
    exact ⟨ty, by rw [hnone]; exact (Except.ok.inj h).symm⟩
  all_goals
    rename_i hname
    obtain ⟨ty, -, h⟩ := Outcome.bind_eq_ok.mp h
    exact ⟨_, by rw [hname]; exact (Except.ok.inj h).symm⟩

/-- The type of a parameter with its star. -/
theorem paramType_pointerIf {env : ParseEnv} {p : ParamConfig} {a b : PointArg}
    (h : env.paramType p a = .ok b) :
    ∃ ty, b.pointerIf p.toPtr = { a with
      ty := ty, groupType := if p.setsGroupType then .uprobeEnter else a.groupType } := by
  obtain ⟨ty, rfl⟩ := paramType_spec h
  unfold ParamConfig.setsGroupType
  cases p.toPtr <;> cases groupTypeNames.contains (String.ofList p.typeName) <;> exact ⟨_, rfl⟩

theorem setFormat_spec {p : ParamConfig} {a b : PointArg} (h : p.setFormat a = .ok b) :
    ∃ ty, b = { a with ty := ty } := by
  unfold ParamConfig.setFormat at h
  split at h
  · exact ⟨a.ty, (Except.ok.inj h).symm⟩
  · obtain ⟨ty, -, hty⟩ := setHexFormat_spec h
    exact ⟨ty, hty⟩
  · obtain ⟨ty, -, hty⟩ := setHexFormat_spec h
    exact ⟨ty, hty⟩
  · obtain ⟨style, -, h⟩ := Outcome.bind_eq_ok.mp h
    obtain ⟨ty, -, h⟩ := Outcome.bind_eq_ok.mp h
    exact ⟨ty, (Except.ok.inj h).symm⟩

/-- What `GetPointArg` makes of a parameter. -/
theorem getPointArg_spec {env : ParseEnv} {p : ParamConfig} {argIndex : u32}
    {pointType : PointType} {a : PointArg} (h : env.getPointArg p argIndex pointType = .ok a) :
    ∃ name regIndex ty filters ops,
      a = { newSyscallPointArg name ty regIndex pointType with
        groupType := if p.setsGroupType then .uprobeEnter else .none
        filterIndexList := filters, extraOpList := ops } ∧
      p.regIndex argIndex = .ok regIndex ∧ IsAddressList ops := by
  unfold ParseEnv.getPointArg at h
  dsimp only at h
  obtain ⟨regIndex, hreg, h⟩ := Outcome.bind_eq_ok.mp h
  obtain ⟨typed, htyped, h⟩ := Outcome.bind_eq_ok.mp h
  obtain ⟨formatted, hformatted, h⟩ := Outcome.bind_eq_ok.mp h
  obtain ⟨filters, -, h⟩ := Outcome.bind_eq_ok.mp h
  obtain ⟨ops, hops, h⟩ := Outcome.bind_eq_ok.mp h
  obtain rfl := Except.ok.inj h
  obtain ⟨ty, hty⟩ := paramType_pointerIf htyped
  obtain ⟨ty', rfl⟩ := setFormat_spec hformatted
  rw [hty]
  exact ⟨_, regIndex, ty', filters, ops, rfl, hreg, readOpList_spec hops⟩

end Stackplz
