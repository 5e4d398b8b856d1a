import Stackplz.User.ParseEvent

/-!
# The two forms of an event

`Parse` and `ParseJson` of the types (`argtype_base.go`), and of the points of the system
calls that call them (`config_syscall.go`). A type of the registry is an object of one of five
classes, each with the two methods of its own; beside its size it carries a callback `ParseCB`
or a struct parser `ParseImpl`, or neither. The text form asks for the callback first, the JSON
form for the struct parser, so that an object with both would be read in two ways. No
registration makes one, and the two forms read every event alike.
-/

set_option autoImplicit false

namespace Stackplz

/-! ## Objects of the registry -/

/-- The parsers that `SetParseCB` sets. -/
inductive ParseCB where
  | string | stringArray | array | iovec | msghdr
  /-- `parse_STACK_T` to `parse_SOCKADDR`, which decode a struct of `record` bytes -/
  | struct (record : Nat)
deriving DecidableEq

/-- The implementations of `IParseStruct` that `SetParseImpl` sets. -/
inductive ParseImpl where
  /-- `Arg_buffer` -/
  | buffer
  /-- `Arg_string` -/
  | string
  /-- `Arg_Timespec` and `Arg_Sigaction`, whose structs have `record` bytes -/
  | struct (record : Nat)
deriving DecidableEq

/-- The implementation is an `IArgBuffer`, which has `SetArgPayload`. -/
def ParseImpl.isArgBuffer : ParseImpl → Bool
  | .buffer | .string => true
  | .struct _ => false

/-- The bytes that are decoded into `GetStruct`; the payload of a new buffer is empty. -/
def ParseImpl.structBytes : ParseImpl → Nat
  | .buffer | .string => 0
  | .struct record => record

/-- The fields of `ARG_STRUCT` that its parsing looks at. -/
structure ArgStruct where
  size : u32
  parseCB : Option ParseCB
  parseImpl : Option ParseImpl
deriving DecidableEq

/-- The objects behind `IArgType`, as far as their parsing looks at them. -/
inductive ArgObject where
  /-- `ARG_INT` to `ARG_UINT64` -/
  | num (kind : NumKind)
  /-- an `ARG_PTR` with a nil `PtrArgType` -/
  | ptr
  /-- an `ARG_PTR` with a `PtrArgType` -/
  | ptrTo (isNum : Bool) (ptrArgType : ArgObject)
  /-- `ARG_BUFFER`, and `ARG_STRING`, which has the methods of `ARG_BUFFER` -/
  | buffer (parseImpl : Option ParseImpl)
  | struct (this : ArgStruct)
  | array (this : ArgStruct) (arrayLen : u32) (arrayArgType : Option NumKind)
deriving DecidableEq

/-! ## The text form and the JSON form -/

/-- What a parser returns, with the data it is made from: a text, or an object for the JSON
encoder. -/
inductive ParseResult where
  | text (data : List (List u8))
  | object (data : List (List u8))
deriving DecidableEq

/-- The result that `fmt_json` asks for. -/
def ParseResult.of (fmtJson : Bool) (data : List (List u8)) : ParseResult :=
  if fmtJson then .object data else .text data

/-- `result.(string)`, which panics on an object. -/
def ParseResult.asString : ParseResult → Reader (List (List u8))
  | .text data => return data
  | .object _ => Reader.stop

/-- `ARG_BUFFER.ParseArg`. -/
def parseBufferArg (parseImpl : Option ParseImpl) (parseMore fmtJson : Bool) :
    Reader ParseResult :=
  if parseMore then
    match parseImpl with
    | none => Reader.stop
    | some impl => do
        let len ← readLen
        if len > 0 then do
          let payload ← Reader.take len.toNat
          if impl.isArgBuffer then return .of fmtJson [payload] else Reader.stop
        else return .of fmtJson [[]]
  else return .of fmtJson []

/-- `ARG_STRUCT.GetStructLen`. -/
def ArgStruct.getStructLen (this : ArgStruct) : Reader u32 := do
  let len ← readLen
  if len > 0 && len ≠ this.size then Reader.stop else return len

/-- `ARG_STRUCT.ParseArg`. -/
def ArgStruct.parseArg (this : ArgStruct) (parseMore fmtJson : Bool) : Reader ParseResult :=
  if parseMore then
    match this.parseImpl with
    | none => Reader.stop
    | some impl => do
        let len ← readLen
        if len > 0 && len ≠ this.size then Reader.stop
        else if len ≠ 0 then do
          let record ← Reader.take impl.structBytes
          return .of fmtJson [record]
        else return .of fmtJson [[]]
  else return .of fmtJson []

/-- A callback, called with the object it is set on. A callback for the other class of object
stops at the type assertion on it. -/
def ParseCB.parse (ctx : ArgObject) (parseMore : Bool) (cb : ParseCB) :
    Reader (List (List u8)) :=
  if parseMore then
    match cb with
    | .string => do return [← readPayload]
    | .stringArray => readStrings maxLoopCount.toNat
    | .iovec => readIovecs
    | .msghdr => readMsghdr
    | .struct record =>
        match ctx with
        | .struct this => do
            let len ← this.getStructLen
            if len ≠ 0 then do return [← Reader.take record] else return [[]]
        | _ => Reader.stop
    | .array =>
        match ctx with
        | .array this arrayLen arrayArgType => do
            let len ← this.getStructLen
            if len = 0 then return [[]]
            else
              match arrayArgType.bind NumKind.elemSize with
              | some size => do return [← Reader.take (size * arrayLen.toNat)]
              | none => Reader.stop
        | _ => Reader.stop
  else return []

/-- `Parse` of the five classes. -/
def ArgObject.parse (parseMore : Bool) : ArgObject → Reader (List (List u8))
  | .num _ | .ptr => return []
  | .ptrTo isNum ptrArgType =>
      if parseMore then
        if isNum then do
          let value ← readPointed
          let rest ← ptrArgType.parse parseMore
          return value :: rest
        else ptrArgType.parse parseMore
      else return []
  | .buffer parseImpl => do
      let result ← parseBufferArg parseImpl parseMore false
      result.asString
  | .struct this =>
      match this.parseCB with
      | some cb => cb.parse (.struct this) parseMore
      | none => do
          let result ← this.parseArg parseMore false
          result.asString
  | .array this arrayLen arrayArgType =>
      if parseMore then
        match this.parseCB with
        | some cb => cb.parse (.array this arrayLen arrayArgType) parseMore
        | none => Reader.stop
      else return []

/-- `ParseJson` of the five classes. -/
def ArgObject.parseJson (parseMore : Bool) (object : ArgObject) : Reader ParseResult :=
  match object with
  | .num _ | .ptr | .ptrTo _ _ => do return .text (← object.parse parseMore)
  | .buffer parseImpl => parseBufferArg parseImpl parseMore true
  | .struct this | .array this _ _ =>
      match this.parseImpl with
      | none => do return .text (← object.parse parseMore)
      | some _ => this.parseArg parseMore true

/-! ## Registration -/

namespace ArgObject

def setSize (size : u32) : ArgObject → ArgObject
  | .struct this => .struct { this with size := size }
  | .array this arrayLen arrayArgType => .array { this with size := size } arrayLen arrayArgType
  | object => object

/-- `SetParseCB`; the other classes never look at the callback. -/
def setParseCB (cb : ParseCB) : ArgObject → ArgObject
  | .struct this => .struct { this with parseCB := some cb }
  | .array this arrayLen arrayArgType =>
      .array { this with parseCB := some cb } arrayLen arrayArgType
  | object => object

/-- `SetParseImpl`; a number and a pointer never look at it. -/
def setParseImpl (impl : ParseImpl) : ArgObject → ArgObject
  | .buffer _ => .buffer (some impl)
  | .struct this => .struct { this with parseImpl := some impl }
  | .array this arrayLen arrayArgType =>
      .array { this with parseImpl := some impl } arrayLen arrayArgType
  | object => object

/-- `SetArrayLen` and `SetArrayArgType`. -/
def setArray (arrayLen : u32) (elem : NumKind) : ArgObject → ArgObject
  | .array this _ _ => .array { this with size := elem.size * arrayLen } arrayLen (some elem)
  | object => object

/-- `struct`, which the struct types are clones of. -/
def structType : ArgObject := .struct ⟨0, none, none⟩

/-- `array`, which the array types are clones of. -/
def arrayType : ArgObject := .array ⟨0, none, none⟩ 0 none

/-- `init_BUFFER`; the buffers with a length of their own are clones of it. -/
def initBuffer : ArgObject := (ArgObject.buffer none).setParseImpl .buffer

/-- `init_STRING`. -/
def initString : ArgObject := (ArgObject.buffer none).setParseImpl .string

/-- `R_POINTER`. -/
def rPointer (p : ArgObject) (isNum : Bool) : ArgObject := .ptrTo isNum p

/-- `r_STD_STRING`. -/
def rStdString : ArgObject := structType.setParseCB .string

/-- `r_STRING_ARRAY`. -/
def rStringArray : ArgObject := structType.setParseCB .stringArray

/-- `r_PRE_ARRAY` and `r_ARRAY`. -/
def rArray (elem : NumKind) (arrayLen : u32) : ArgObject :=
  (arrayType.setArray arrayLen elem).setParseCB .array

/-- `r_STACK_T` to `r_SOCKADDR`. -/
def rStruct (size : u32) (record : Nat) : ArgObject :=
  (structType.setSize size).setParseCB (.struct record)

/-- `R_STRUCT` and `PRE_R_STRUCT` for a struct of `record` bytes. -/
def preRStruct (record : Nat) : ArgObject :=
  (structType.setSize (BitVec.ofNat 32 record)).setParseImpl (.struct record)

/-- `r_IOVEC`. -/
def rIovec : ArgObject := (structType.setSize (BitVec.ofNat 32 iovecSize)).setParseCB .iovec

/-- `r_IOVEC_X2` and `R_IOVEC_REG`, which set no size. -/
def rIovecReg : ArgObject := structType.setParseCB .iovec

/-- `r_MSGHDR`. -/
def rMsghdr : ArgObject := (structType.setSize (BitVec.ofNat 32 msghdrSize)).setParseCB .msghdr

end ArgObject

/-- The object that the registration of a type makes. -/
inductive Registered : ArgType → ArgObject → Prop where
  | num (kind : NumKind) (style : NumStyle) : Registered (.num kind style) (.num kind)
  | pointer (style : NumStyle) : Registered (.pointer style) .ptr
  | pointerTo {target : ArgType} {p : ArgObject} (hp : Registered target p) (style : NumStyle) :
      Registered (.pointerTo target style) (ArgObject.rPointer p true)
  | string : Registered .string ArgObject.initString
  | stdString : Registered .stdString ArgObject.rStdString
  | stringArray : Registered .stringArray ArgObject.rStringArray
  | buffer : Registered .buffer ArgObject.initBuffer
  | bufferLen (length : u32) : Registered (.bufferLen length) ArgObject.initBuffer
  | bufferReg (regIndex : u32) : Registered (.bufferReg regIndex) ArgObject.initBuffer
  | struct (type : StructType) :
      Registered (.struct type) (ArgObject.rStruct type.size type.record)
  | preStruct (record : Nat) :
      Registered (.struct (.ofSize record)) (ArgObject.preRStruct record)
  | array (elem : NumKind) (style : NumStyle) (length : u32) :
      Registered (.array elem style length) (ArgObject.rArray elem length)
  | iovec : Registered .iovec ArgObject.rIovec
  | iovecReg (regIndex : u32) : Registered (.iovecReg regIndex) ArgObject.rIovecReg
  | msghdr : Registered .msghdr ArgObject.rMsghdr
  | parentStruct : Registered .parent ArgObject.structType
  | parentArray : Registered .parent ArgObject.arrayType

/-- A type of the registry with its object. -/
structure RegisteredObject where
  type : ArgType
  object : ArgObject
  registered : Registered type object

/-- A `PointArg` with the object of its `TypeIndex`. -/
structure PointArgObject where
  arg : PointArg
  object : ArgObject
  registered : Registered arg.ty object

namespace PointArgObject

/-- `PointArg.Parse`. -/
def parse (a : PointArgObject) (program : PointType) : Reader (List (List u8)) :=
  a.object.parse (a.arg.parseMore program)

/-- `PointArg.ParseJson`. -/
def parseJson (a : PointArgObject) (program : PointType) : Reader ParseResult :=
  a.object.parseJson (a.arg.parseMore program)

end PointArgObject

/-- The arguments of a `SyscallPoint` with their objects. -/
structure SyscallPointObject where
  enterPointArgs : List PointArgObject
  exitPointArgs : List PointArgObject

namespace SyscallPointObject

/-- The loop of `ParseEnterPoint` and `ParseExitPoint`. -/
def parseArgs (program : PointType) (args : List PointArgObject) : Reader (List ReadArg) :=
  Reader.each (fun a => do
    let ptr ← readReg
    return (ptr, ← a.parse program)) args

/-- `ParseEnterPoint`. -/
def parseEnterPoint (this : SyscallPointObject) : Reader (List ReadArg) :=
  parseArgs .sysEnter this.enterPointArgs

/-- `ParseExitPoint`. -/
def parseExitPoint (this : SyscallPointObject) : Reader (List ReadArg) :=
  parseArgs .sysExit this.exitPointArgs

/-- `ParsePointJson`; every point type but that of the entry takes the arguments of the
exit. -/
def parsePointJson (this : SyscallPointObject) (program : PointType) :
    Reader (List (u64 × ParseResult)) :=
  Reader.each (fun a => do
    let ptr ← readReg
    return (ptr, ← a.parseJson program))
    (if program = .sysEnter then this.enterPointArgs else this.exitPointArgs)

end SyscallPointObject

/-! ## Objects and their types -/

/-- Every type has an object. -/
theorem exists_registered (type : ArgType) : ∃ object, Registered type object := by
  induction type with
  | num kind style => exact ⟨_, .num kind style⟩
  | pointer style => exact ⟨_, .pointer style⟩
  | pointerTo target style ih =>
      obtain ⟨p, hp⟩ := ih
      exact ⟨_, .pointerTo hp style⟩
  | string => exact ⟨_, .string⟩
  | stdString => exact ⟨_, .stdString⟩
  | stringArray => exact ⟨_, .stringArray⟩
  | buffer => exact ⟨_, .buffer⟩
  | bufferLen length => exact ⟨_, .bufferLen length⟩
  | bufferReg regIndex => exact ⟨_, .bufferReg regIndex⟩
  | struct type => exact ⟨_, .struct type⟩
  | array elem style length => exact ⟨_, .array elem style length⟩
  | iovec => exact ⟨_, .iovec⟩
  | iovecReg regIndex => exact ⟨_, .iovecReg regIndex⟩
  | msghdr => exact ⟨_, .msghdr⟩
  | parent => exact ⟨_, .parentStruct⟩

/-- `GetStructLen` and what follows it, as one reading of the header. -/
theorem ArgStruct.getStructLen_bind {α : Type} (this : ArgStruct) (f : u32 → Reader α) :
    (this.getStructLen >>= f) =
      readLen >>= fun len =>
        if len > 0 && len ≠ this.size then Reader.stop else f len := by
  unfold ArgStruct.getStructLen
  rw [Reader.bind_assoc]
  congr 1
  funext len
  split
  · rfl
  · rfl

theorem initBuffer_parse (parseMore : Bool) (impl : ParseImpl)
    (himpl : impl.isArgBuffer = true) :
    (ArgObject.buffer (some impl)).parse parseMore = ArgType.buffer.parse parseMore := by
  cases parseMore with
  | false => rfl
  | true =>
      show (parseBufferArg (some impl) true false >>= ParseResult.asString) =
        readPayload >>= fun payload => pure [payload]
      unfold parseBufferArg readPayload
      simp only [if_true, himpl, Reader.bind_assoc]
      congr 1
      funext len
      split
      · rw [Reader.bind_assoc]
        rfl
      · -- an empty payload is not read at all, or as no bytes
        rename_i hlen
        have hzero : len = 0 := by
          have : ¬ (0 : u32) < len := hlen
          bv_omega
        subst hzero
        funext buf
        rfl

theorem readStruct_bind (size : u32) (record : Nat) :
    (readStruct size record >>= fun payload => pure [payload]) =
      (readLen >>= fun len =>
        if len > 0 && len ≠ size then Reader.stop
        else if len ≠ 0 then do return [← Reader.take record] else return [[]]) := by
  unfold readStruct
  rw [Reader.bind_assoc]
  congr 1
  funext len
  by_cases hlen : (len > 0 && len ≠ size) = true
  · rw [if_pos hlen, if_pos hlen]
    rfl
  · rw [if_neg hlen, if_neg hlen]
    by_cases hzero : len = 0
    · rw [if_pos hzero, if_neg (not_not.mpr hzero)]
      rfl
    · rw [if_neg hzero, if_pos hzero]

theorem readArray_bind (elem : NumKind) (length : u32) :
    (readArray elem length >>= fun payload => pure [payload]) =
      (readLen >>= fun len =>
        if len > 0 && len ≠ elem.size * length then Reader.stop
        else if len = 0 then return [[]]
        else
          match elem.elemSize with
          | some size => do return [← Reader.take (size * length.toNat)]
          | none => Reader.stop) := by
  unfold readArray
  rw [Reader.bind_assoc]
  congr 1
  funext len
  by_cases hlen : (len > 0 && len ≠ elem.size * length) = true
  · rw [if_pos hlen, if_pos hlen]
    rfl
  · rw [if_neg hlen, if_neg hlen]
    by_cases hzero : len = 0
    · rw [if_pos hzero, if_pos hzero]
      rfl
    · rw [if_neg hzero, if_neg hzero]
      cases elem.elemSize with
      | none => rfl
      | some size => rfl

/-- The text form of a struct with a struct parser. -/
theorem preRStruct_parse (record : Nat) (parseMore : Bool) :
    (ArgObject.preRStruct record).parse parseMore =
      (ArgType.struct (.ofSize record)).parse parseMore := by
  cases parseMore with
  | false => rfl
  | true =>
      show (ArgStruct.parseArg ⟨BitVec.ofNat 32 record, none, some (.struct record)⟩ true false >>=
        ParseResult.asString) =
        readStruct (BitVec.ofNat 32 record) record >>= fun payload => pure [payload]
      rw [readStruct_bind]
      unfold ArgStruct.parseArg
      simp only [if_true]
      rw [Reader.bind_assoc]
      congr 1
      funext len
      split
      · rfl
      · split
        · rw [Reader.bind_assoc]
          rfl
        · rfl

/-- `Parse` of an object reads what the parser of its type reads, and returns the same data. -/
theorem Registered.parse_eq {type : ArgType} {object : ArgObject} (h : Registered type object)
    (parseMore : Bool) : object.parse parseMore = type.parse parseMore := by
  induction h with
  | num kind style => rfl
  | pointer style => rfl
  | pointerTo hp style ih =>
      unfold ArgObject.rPointer ArgObject.parse ArgType.parse
      rw [ih]
      rfl
  | string => exact initBuffer_parse parseMore .string rfl
  | buffer => exact initBuffer_parse parseMore .buffer rfl
  | bufferLen length => exact initBuffer_parse parseMore .buffer rfl
  | bufferReg regIndex => exact initBuffer_parse parseMore .buffer rfl
  | stdString | stringArray | iovec | iovecReg _ | msghdr => cases parseMore <;> rfl
  | struct type =>
      cases parseMore with
      | false => rfl
      | true =>
          show (ArgStruct.getStructLen ⟨type.size, some (.struct type.record), none⟩ >>= _) =
            readStruct type.size type.record >>= fun payload => pure [payload]
          rw [ArgStruct.getStructLen_bind, readStruct_bind]
  | preStruct record => exact preRStruct_parse record parseMore
  | array elem style length =>
      cases parseMore with
      | false => rfl
      | true =>
          show (ArgStruct.getStructLen ⟨elem.size * length, some .array, none⟩ >>= _) =
            readArray elem length >>= fun payload => pure [payload]
          rw [ArgStruct.getStructLen_bind, readArray_bind]
          rfl
  | parentStruct | parentArray => cases parseMore <;> rfl

/-- The text form of a list of arguments reads what the decoder of the samples reads. -/
theorem parseArgs_eq (program : PointType) (args : List PointArgObject) :
    SyscallPointObject.parseArgs program args =
      readSyscallArgs program (args.map PointArgObject.arg) := by
  induction args with
  | nil => rfl
  | cons a args ih =>
      have ha : a.parse program = a.arg.parse program :=
        a.registered.parse_eq (a.arg.parseMore program)
      unfold SyscallPointObject.parseArgs readSyscallArgs at ih ⊢
      simp only [List.map_cons, Reader.each]
      rw [ih, ha]

/-! ## The two forms read alike -/

/-- At most one parser is set, and none of the second kind on an array. -/
def ArgObject.OneParser : ArgObject → Prop
  | .struct this => this.parseCB = none ∨ this.parseImpl = none
  | .array this _ _ => this.parseImpl = none
  | _ => True

theorem Registered.oneParser {type : ArgType} {object : ArgObject}
    (h : Registered type object) : object.OneParser := by
  cases h with
  | preStruct record => exact Or.inl rfl
  | stdString | stringArray | struct _ | iovec | iovecReg _ | msghdr => exact Or.inr rfl
  | parentStruct => exact Or.inl rfl
  | array _ _ _ | parentArray => rfl
  | _ => trivial

theorem parseBufferArg_sameReads (parseImpl : Option ParseImpl) (parseMore : Bool) :
    Reader.SameReads (parseBufferArg parseImpl parseMore true)
      (parseBufferArg parseImpl parseMore false) := by
  unfold parseBufferArg
  cases parseMore with
  | false => exact Reader.sameReads_pure _ _
  | true =>
      cases parseImpl with
      | none => exact Reader.sameReads_stop
      | some impl =>
          refine Reader.sameReads_bind readLen fun len => ?_
          split
          · refine Reader.sameReads_bind _ fun payload => ?_
            split
            · exact Reader.sameReads_pure _ _
            · exact Reader.sameReads_stop
          · exact Reader.sameReads_pure _ _

theorem ArgStruct.parseArg_sameReads (this : ArgStruct) (parseMore : Bool) :
    Reader.SameReads (this.parseArg parseMore true) (this.parseArg parseMore false) := by
  unfold ArgStruct.parseArg
  cases parseMore with
  | false => exact Reader.sameReads_pure _ _
  | true =>
      cases this.parseImpl with
      | none => exact Reader.sameReads_stop
      | some impl =>
          refine Reader.sameReads_bind readLen fun len => ?_
          split
          · exact Reader.sameReads_stop
          · split
            · exact Reader.sameReads_bind _ fun record => Reader.sameReads_pure _ _
            · exact Reader.sameReads_pure _ _

/-- The result is a text. -/
def ParseResult.IsText (result : ParseResult) : Prop := ∃ data, result = .text data

theorem parseBufferArg_isText (parseImpl : Option ParseImpl) (parseMore : Bool) :
    Reader.Returns (parseBufferArg parseImpl parseMore false) ParseResult.IsText := by
  unfold parseBufferArg
  cases parseMore with
  | false => exact Reader.returns_pure ⟨[], rfl⟩
  | true =>
      cases parseImpl with
      | none => exact Reader.returns_stop
      | some impl =>
          refine Reader.Returns.bind fun len => ?_
          split
          · refine Reader.Returns.bind fun payload => ?_
            split
            · exact Reader.returns_pure ⟨_, rfl⟩
            · exact Reader.returns_stop
          · exact Reader.returns_pure ⟨_, rfl⟩

theorem ArgStruct.parseArg_isText (this : ArgStruct) (parseMore : Bool) :
    Reader.Returns (this.parseArg parseMore false) ParseResult.IsText := by
  unfold ArgStruct.parseArg
  cases parseMore with
  | false => exact Reader.returns_pure ⟨[], rfl⟩
  | true =>
      cases this.parseImpl with
      | none => exact Reader.returns_stop
      | some impl =>
          refine Reader.Returns.bind fun len => ?_
          split
          · exact Reader.returns_stop
          · split
            · exact Reader.Returns.bind fun record => Reader.returns_pure ⟨_, rfl⟩
            · exact Reader.returns_pure ⟨_, rfl⟩

/-- The type assertion of the text form never stops it. -/
theorem asString_sameReads {r : Reader ParseResult} (hr : Reader.Returns r ParseResult.IsText) :
    Reader.SameReads (r >>= ParseResult.asString) r := by
  refine Reader.sameReads_bind_pure hr fun result hresult => ?_
  obtain ⟨data, rfl⟩ := hresult
  exact ⟨data, rfl⟩

/-- An object with one parser is read alike in both forms. -/
theorem ArgObject.parseJson_sameReads {object : ArgObject} (h : object.OneParser)
    (parseMore : Bool) :
    Reader.SameReads (object.parseJson parseMore) (object.parse parseMore) := by
  have htext := Reader.sameReads_map (object.parse parseMore) ParseResult.text
  cases object with
  | num kind => exact htext
  | ptr => exact htext
  | ptrTo isNum ptrArgType => exact htext
  | buffer parseImpl =>
      have hstring := asString_sameReads (parseBufferArg_isText parseImpl parseMore)
      exact (parseBufferArg_sameReads parseImpl parseMore).trans hstring.symm
  | struct this =>
      unfold ArgObject.parseJson
      dsimp only
      split
      · exact htext
      · -- a struct parser, so that there is no callback that the text form would prefer
        rename_i impl himpl
        have hcb : this.parseCB = none := by simpa [ArgObject.OneParser, himpl] using h
        have hstring := asString_sameReads (this.parseArg_isText parseMore)
        have hjson := (this.parseArg_sameReads parseMore).trans hstring.symm
        unfold ArgObject.parse
        rw [hcb]
        exact hjson
  | array this arrayLen arrayArgType =>
      have himpl : this.parseImpl = none := h
      unfold ArgObject.parseJson
      dsimp only
      rw [himpl]
      exact htext

/-- The arguments of one list are read alike, for an event of any program. -/
theorem parseArgs_sameReads (program : PointType) (args : List PointArgObject) :
    Reader.SameReads
      (Reader.each (fun a : PointArgObject => do
        let ptr ← readReg
        return (ptr, ← a.parseJson program)) args)
      (SyscallPointObject.parseArgs program args) := by
  refine Reader.sameReads_each fun a _ => ?_
  refine Reader.sameReads_bind readReg fun ptr => ?_
  have hjson := ArgObject.parseJson_sameReads a.registered.oneParser (a.arg.parseMore program)
  exact hjson.bind fun result data => Reader.sameReads_pure _ _

/-- The JSON form and the text form of an event are read alike: of every registered type,
whether its data is parsed or not, and of every point of a system call. -/
theorem json_reads_as_text :
    (∀ (r : RegisteredObject) (parseMore : Bool),
      Reader.SameReads (r.object.parseJson parseMore) (r.object.parse parseMore)) ∧
    ∀ point : SyscallPointObject,
      Reader.SameReads (point.parsePointJson .sysEnter) point.parseEnterPoint ∧
      Reader.SameReads (point.parsePointJson .sysExit) point.parseExitPoint := by
  refine ⟨fun r parseMore => ?_, fun point => ⟨?_, ?_⟩⟩
  · exact ArgObject.parseJson_sameReads r.registered.oneParser parseMore
  · exact parseArgs_sameReads .sysEnter point.enterPointArgs
  · exact parseArgs_sameReads .sysExit point.exitPointArgs

end Stackplz
