import Stackplz.Probe.Arguments
import Stackplz.User.HookPoint

/-!
# Uprobe events

`UprobeEvent.ParseContext` (`event_uprobe.go`) as a reader of the bytes that the probe has
submitted. The point is looked up by the index in the event; its arguments are then read one
after the other, until one of them has no bytes left.
-/

set_option autoImplicit false

namespace Stackplz

/-- An argument as it is read: its own word and the data of its type. -/
abbrev ReadArg := u64 × List (List u8)

/-- `UprobeFields`. -/
structure UprobeFields where
  probeIndex : u32
  lr : u64
  sp : u64
  pc : u64
  ret : Option ReadArg
  args : List ReadArg
deriving DecidableEq

/-- `ReadArg` of a field of `w` bytes: an index, which nothing looks at, and the field. -/
def readField (w : Nat) : Reader (BitVec (8 * w)) := do
  let _ ← Reader.take 1
  Reader.word w

/-- The loop over the arguments; it ends where a word cannot be read. -/
def readPointArgs (program : PointType) : List PointArg → Reader (List ReadArg)
  | [] => return []
  | a :: as =>
      Reader.bindOr readReg [] fun ptr => do
        let data ← a.parse program
        let rest ← readPointArgs program as
        return (ptr, data) :: rest

/-- The return value, which may be unconfigured or unavailable. -/
def readRetArg : Option PointArg → Reader (Option ReadArg)
  | none => return none
  | some a =>
      Reader.bindOr readReg none fun ptr => do
        let data ← a.parse .uprobeExit
        return some (ptr, data)

/-- The part of `ParseContext` that depends on the event. -/
def readArguments (eventId : u32) (point : UprobeArgs) :
    Reader (Option ReadArg × List ReadArg) :=
  if eventId = uprobeExit then do
    let ret ← readRetArg point.retArg
    let args ← readPointArgs .uprobeExit point.pointArgs
    return (ret, args)
  else do
    let args ← readPointArgs .uprobeEnter point.pointArgs
    return (none, args)

/-- `ParseContext`, up to the padding behind the arguments. -/
def parseContext (eventId : u32) (points : List UprobeArgs) : Reader UprobeFields :=
  if eventId ≠ uprobeEnter ∧ eventId ≠ uprobeExit then Reader.stop
  else do
    let probeIndex ← readField 4
    let lr ← readField 8
    let sp ← readField 8
    let pc ← readField 8
    match points[probeIndex.toNat]? with
    | none => Reader.stop
    | some point => do
        let (ret, args) ← readArguments eventId point
        return ⟨probeIndex, lr, sp, pc, ret, args⟩

theorem consumes_readField (w : Nat) (index : u8) (x : BitVec (8 * w)) :
    Reader.Consumes (readField w) (index :: LittleEndian.ofWord w x) x := by
  have hindex : Reader.Consumes (Reader.take 1) [index] [index] :=
    Reader.consumes_take_of_length rfl
  exact hindex.bind (Reader.consumes_word w x)

end Stackplz
