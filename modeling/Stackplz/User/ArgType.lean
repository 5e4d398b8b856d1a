import Mathlib.Data.List.DropRight
import Stackplz.Basic.Reader
import Stackplz.User.OpHelper

/-!
# Argument types

The types of the registry `arg_types`, each with the ops that save its data and the parser
that reads it back. A registered type never changes, so a type is modelled by its value in
place of its index, and the name lookup, which depends on all registrations so far, is a
parameter of the functions that use it.
-/

set_option autoImplicit false

namespace Stackplz

/-! ## The types -/

/-- The number types `int`, `uint`, `int8` to `uint64`. -/
inductive NumKind where
  | int | uint | int8 | int16 | int32 | int64 | uint8 | uint16 | uint32 | uint64
deriving DecidableEq, Repr

/-- `GetSize` of a number type. -/
def NumKind.size : NumKind → u32
  | .int8 | .uint8 => 1
  | .int16 | .uint16 => 2
  | .int | .uint | .int32 | .uint32 => 4
  | .int64 | .uint64 => 8

/-- `FORMAT_NUM` to `FORMAT_BIN`. -/
inductive NumFormat where
  | num | hexPure | hex | dec | oct | bin
deriving DecidableEq, Repr

/-- How a number is printed; it has no part in what is saved and read. -/
structure NumStyle where
  format : NumFormat
  flags : Option Text
deriving DecidableEq

/-- The style of a type that is registered without one. -/
def NumStyle.plain : NumStyle := ⟨.num, none⟩

/-- A type that saves one struct of `size` bytes. `record` is the number of bytes its parser
decodes after the header. -/
structure StructType where
  size : u32
  record : Nat
deriving DecidableEq

/-- The types of the registry. -/
inductive ArgType where
  | num (kind : NumKind) (style : NumStyle)
  | pointer (style : NumStyle)
  /-- `R_POINTER(target, true)` -/
  | pointerTo (target : ArgType) (style : NumStyle)
  | string | stdString | stringArray
  | buffer
  | bufferLen (length : u32)
  | bufferReg (regIndex : u32)
  | struct (type : StructType)
  | array (elem : NumKind) (style : NumStyle) (length : u32)
  | iovec
  | iovecReg (regIndex : u32)
  | msghdr
  /-- the parent types `struct` and `array` themselves -/
  | parent
deriving DecidableEq

def maxIovCount : Nat := 6

/-! ## What the probe saves -/

/-- `unsafe.Sizeof(syscall.Iovec{})` -/
def iovecSize : Nat := 16

/-- `unsafe.Sizeof(syscall.Msghdr{})` -/
def msghdrSize : Nat := 56

/-- The op list of `iovec`: the struct, then the buffer it describes. -/
def iovecOps : List NamedOp :=
  [opcSetReadLen.newValue (BitVec.ofNat 64 iovecSize), opcSaveStruct,
    opcSetReadLen.newValue (BitVec.ofNat 64 maxBytesArrSize), buildReadPtrLen 8, opcReadPointer,
    opcMovePointerValue, opcSaveStruct]

/-- `GetOpList` of a type. -/
def ArgType.opList : ArgType → List NamedOp
  | .num _ _ | .pointer _ | .parent => []
  | .pointerTo target _ => saveStructOp 8 :: target.opList
  | .string => [opcSaveString]
  | .stdString => [opcReadStdString, opcSaveString]
  | .stringArray =>
      [opcSetBreakCount.newValue (maxLoopCount.setWidth 64), opcForBreak, opcSavePtrString,
        opcAddOffset.newValue 8, opcForBreak]
  | .buffer => [saveStructOp (BitVec.ofNat 64 maxBytesArrSize)]
  | .bufferLen length => [opcSetReadLen.newValue (length.setWidth 64), opcSaveStruct]
  | .bufferReg regIndex =>
      [opcSetReadLen.newValue (BitVec.ofNat 64 maxBytesArrSize),
        buildReadRegLen (regIndex.setWidth 64), opcSaveStruct]
  | .struct type => [opcSetReadLen.newValue (type.size.setWidth 64), opcSaveStruct]
  | .array elem _ length => [saveStructOp ((elem.size * length).setWidth 64)]
  | .iovec => iovecOps
  | .iovecReg regIndex =>
      [buildReadRegBreakCount (regIndex.setWidth 64), opcSaveReg, opcForBreak, opcSetTmpValue] ++
        iovecOps ++
        [opcMoveTmpValue, opcAddOffset.newValue (BitVec.ofNat 64 iovecSize), opcForBreak]
  | .msghdr =>
      [opcSetReadLen.newValue (BitVec.ofNat 64 msghdrSize), opcSaveStruct, opcSetTmpValue,
        opcSetReadLen.newValue (BitVec.ofNat 64 maxBytesArrSize), buildReadPtrLen 40,
        buildReadPtrAddr 32, opcSaveStruct, opcMoveTmpValue, buildReadPtrBreakCount 24,
        buildReadPtrAddr 16, opcForBreak, opcSetTmpValue] ++
        iovecOps ++
        [opcMoveTmpValue, opcAddOffset.newValue (BitVec.ofNat 64 iovecSize), opcForBreak]

/-! ## What the parser reads -/

/-- `Arg_struct` (or `Arg_str`): the index of a save, which no parser looks at, and the number
of bytes that follow. -/
def readLen : Reader u32 := do
  let header ← Reader.take 5
  return LittleEndian.toWord 4 (header.drop 1)

/-- `Arg_reg`: the index of a save and a word. -/
def readReg : Reader u64 := do
  let header ← Reader.take 9
  return LittleEndian.toWord 8 (header.drop 1)

/-- A header and as many bytes as it says. -/
def readPayload : Reader (List u8) := do
  let len ← readLen
  Reader.take len.toNat

/-- The word behind a pointer, where its record holds one. -/
def readPointed : Reader (List u8) := do
  let len ← readLen
  if len = 8 then Reader.take 8 else return []

/-- `GetStructLen` and the struct after it, of which `record` bytes are read. -/
def readStruct (size : u32) (record : Nat) : Reader (List u8) := do
  let len ← readLen
  if len > 0 && len ≠ size then Reader.stop
  else if len = 0 then return []
  else Reader.take record

/-- The bytes that `parse_ARRAY` reads for one element; `none` where it has no case. -/
def NumKind.elemSize : NumKind → Option Nat
  | .int | .uint | .int32 => some 4
  | .uint64 => some 8
  | _ => none

/-- `parse_ARRAY`. -/
def readArray (elem : NumKind) (length : u32) : Reader (List u8) := do
  let len ← readLen
  if len > 0 && len ≠ elem.size * length then Reader.stop
  else if len = 0 then return []
  else
    match elem.elemSize with
    | some size => Reader.take (size * length.toNat)
    | none => Reader.stop

/-- The number of `iovec` records, from a count that is compared as an `int`. -/
def iovReadCount (count : u64) : Nat :=
  if count.toInt < (maxIovCount : Int) then count.toInt.toNat else maxIovCount

/-- One `iovec` with its buffer. -/
def readIovec : Reader (List (List u8)) := do
  let fix ← Reader.take 21
  let payload ← readPayload
  return [fix.drop 5, payload]

/-- `parse_IOVEC`. -/
def readIovecs : Reader (List (List u8)) := do
  let count ← readReg
  let iovecs ← Reader.each (fun _ => readIovec) (List.range (iovReadCount count))
  return iovecs.flatten

/-- `parse_MSGHDR`; the number of buffers is `Iovlen` of the struct. -/
def readMsghdr : Reader (List (List u8)) := do
  let header ← Reader.take (5 + msghdrSize)
  let msghdr := header.drop 5
  let control ← readPayload
  let count := LittleEndian.toWord 8 ((msghdr.drop 24).take 8)
  let iovecs ← Reader.each (fun _ => readIovec) (List.range (iovReadCount count))
  return msghdr :: control :: iovecs.flatten

/-- The payloads that `parse_STRING_ARRAY` reads, with the number of rounds that are left. -/
def readStrings : Nat → Reader (List (List u8))
  | 0 => return []
  | n + 1 => do
      let addr ← readReg
      let len ← readLen
      if len = strarrMagicLen then return []
      else do
        let payload ← Reader.take len.toNat
        if addr = 0 then return []
        else do
          let rest ← readStrings n
          return payload :: rest

/-- The white space of `unicode.IsSpace`, in UTF-8. -/
def whiteSpace : List (List u8) :=
  [[0x09], [0x0a], [0x0b], [0x0c], [0x0d], [0x20], [0xc2, 0x85], [0xc2, 0xa0], [0xe1, 0x9a, 0x80],
    [0xe2, 0x80, 0x80], [0xe2, 0x80, 0x81], [0xe2, 0x80, 0x82], [0xe2, 0x80, 0x83],
    [0xe2, 0x80, 0x84], [0xe2, 0x80, 0x85], [0xe2, 0x80, 0x86], [0xe2, 0x80, 0x87],
    [0xe2, 0x80, 0x88], [0xe2, 0x80, 0x89], [0xe2, 0x80, 0x8a], [0xe2, 0x80, 0xa8],
    [0xe2, 0x80, 0xa9], [0xe2, 0x80, 0xaf], [0xe2, 0x81, 0x9f], [0xe3, 0x80, 0x80]]

/-- Take runes off the front, `n` of them at most. -/
def trimFront (runes : List (List u8)) : Nat → List u8 → List u8
  | 0, s => s
  | n + 1, s =>
      match runes.find? fun rune => rune.isPrefixOf s with
      | some rune => trimFront runes n (s.drop rune.length)
      | none => s

/-- `bytes.TrimSpace`. -/
def trimSpace (s : List u8) : List u8 :=
  let s := trimFront whiteSpace s.length s
  (trimFront (whiteSpace.map List.reverse) s.length s.reverse).reverse

/-- `util.B2STrim`: without the NUL bytes at the two ends, and then without the white space. -/
def b2sTrim (src : List u8) : List u8 :=
  trimSpace ((src.dropWhile (· == 0)).rdropWhile (· == 0))

/-- `parse_STRING_ARRAY`: the strings that it puts behind their addresses. -/
def parseStringArray : Reader (List (List u8)) := do
  let payloads ← readStrings maxLoopCount.toNat
  return payloads.map b2sTrim

/-- `Parse` of a type: the data read from the buffer beside the argument's own word. Payloads are
as they are read, before they become text. -/
def ArgType.parse (parseMore : Bool) : ArgType → Reader (List (List u8))
  | .num _ _ | .pointer _ => return []
  | .pointerTo target _ =>
      if parseMore then do
        let value ← readPointed
        let rest ← target.parse parseMore
        return value :: rest
      else return []
  | .string | .stdString | .buffer | .bufferLen _ | .bufferReg _ =>
      if parseMore then do
        let payload ← readPayload
        return [payload]
      else return []
  | .struct type =>
      if parseMore then do
        let payload ← readStruct type.size type.record
        return [payload]
      else return []
  | .array elem _ length =>
      if parseMore then do
        let payload ← readArray elem length
        return [payload]
      else return []
  | .stringArray => if parseMore then readStrings maxLoopCount.toNat else return []
  | .iovec | .iovecReg _ => if parseMore then readIovecs else return []
  | .msghdr => if parseMore then readMsghdr else return []
  | .parent => if parseMore then Reader.stop else return []

/-- The types with data beside the argument's own word. -/
def ArgType.hasData : ArgType → Bool
  | .num _ _ | .pointer _ | .parent => false
  | _ => true

/-! ## The registry -/

/-- A struct type whose parser decodes what was saved. -/
def StructType.ofSize (size : Nat) : StructType := ⟨BitVec.ofNat 32 size, size⟩

/-- The names and aliases that `init` and `PreRegister` put into the registry. -/
def builtinTypes : List (String × ArgType) :=
  [("ptr", .pointer .plain), ("int", .num .int .plain), ("uint", .num .uint .plain),
    ("int8", .num .int8 .plain), ("int16", .num .int16 .plain), ("int32", .num .int32 .plain),
    ("int64", .num .int64 .plain), ("uint8", .num .uint8 .plain),
    ("uint16", .num .uint16 .plain), ("uint32", .num .uint32 .plain),
    ("uint64", .num .uint64 .plain), ("socklen_t", .num .uint32 .plain),
    ("size_t", .num .uint64 .plain), ("ssize_t", .num .int64 .plain), ("buffer", .buffer),
    ("buf", .buffer), ("string", .string), ("str", .string), ("struct", .parent),
    ("array", .parent), ("array_int_1", .array .int .plain 1),
    ("array_int_2", .array .int .plain 2), ("array_uint_1", .array .uint .plain 1),
    ("ptr_int", .pointerTo (.num .int .plain) .plain),
    ("ptr_uint", .pointerTo (.num .uint .plain) .plain), ("std", .stdString),
    ("string_array", .stringArray), ("stack_t", .struct (.ofSize 16)),
    ("timespec", .struct (.ofSize 16)), ("uint_fmt_2", .num .uint ⟨.hex, none⟩),
    ("array_uint_fmt_2_1", .array .uint ⟨.hex, none⟩ 1),
    ("siginfo", .struct (.ofSize 24)), ("sigaction", .struct (.ofSize 40)),
    ("epoll_event", .struct (.ofSize 16)), ("pollfd", .struct (.ofSize 8)),
    -- registered with the parser of `pollfd`
    ("dirent", .struct ⟨280, 8⟩), ("ittmerspec", .struct (.ofSize 32)),
    ("rusage", .struct (.ofSize 144)), ("utsname", .struct (.ofSize 390)),
    ("timeval", .struct (.ofSize 16)), ("timezone", .struct (.ofSize 8)),
    ("sysinfo", .struct (.ofSize 112)), ("stat", .struct (.ofSize 128)),
    ("statfs", .struct (.ofSize 120)), ("iovec", .iovec), ("iovec_x2", .iovecReg 2),
    ("msghdr", .msghdr), ("sockaddr", .struct (.ofSize 110)), ("buffer_x2", .bufferReg 2),
    ("int_flags_stat", .num .int ⟨.hex, some "stat".toList⟩),
    ("int_flags_statx", .num .int ⟨.hex, some "statx".toList⟩),
    ("int_flags_unlink", .num .int ⟨.hex, some "unlink".toList⟩),
    ("int_flags_socket", .num .int ⟨.hex, some "socket".toList⟩),
    ("int_flags_file", .num .int ⟨.hex, some "file".toList⟩),
    ("int16_flags_permission", .num .int16 ⟨.oct, some "permission".toList⟩)]

/-- `GetArgTypeByName` before any type is registered dynamically. -/
def builtinByName (name : Text) : Option ArgType :=
  (builtinTypes.find? fun entry => entry.1.toList == name).map fun entry => entry.2

/-! ## Reading records back -/

/-- The bytes of `[index][len]`. -/
theorem consumes_readLen (index : u8) (len : u32) :
    Reader.Consumes readLen (index :: LittleEndian.ofWord 4 len) len := by
  have htake : Reader.Consumes (Reader.take 5) (index :: LittleEndian.ofWord 4 len)
      (index :: LittleEndian.ofWord 4 len) :=
    Reader.consumes_take_of_length (by simp)
  have hlen := htake.bind_pure fun header => LittleEndian.toWord 4 (header.drop 1)
  rw [List.drop_one, List.tail_cons, LittleEndian.toWord_ofWord] at hlen
  exact hlen

/-- The bytes of `[index][value]`. -/
theorem consumes_readReg (index : u8) (value : u64) :
    Reader.Consumes readReg (index :: LittleEndian.ofWord 8 value) value := by
  have htake : Reader.Consumes (Reader.take 9) (index :: LittleEndian.ofWord 8 value)
      (index :: LittleEndian.ofWord 8 value) :=
    Reader.consumes_take_of_length (by simp)
  have hvalue := htake.bind_pure fun header => LittleEndian.toWord 8 (header.drop 1)
  rw [List.drop_one, List.tail_cons, LittleEndian.toWord_ofWord] at hvalue
  exact hvalue

/-- The bytes of `[index][len][payload]`. -/
theorem consumes_readPayload (index : u8) {len : u32} {payload : List u8}
    (h : payload.length = len.toNat) :
    Reader.Consumes readPayload (index :: (LittleEndian.ofWord 4 len ++ payload)) payload := by
  rw [← List.cons_append]
  exact (consumes_readLen index len).bind (Reader.consumes_take_of_length h)

end Stackplz
