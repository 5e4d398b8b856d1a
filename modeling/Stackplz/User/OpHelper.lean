import Stackplz.Basic.Text
import Stackplz.Probe.Types

/-!
# The op table

`op_helper.go`: the ops that op lists are built from, and the table `OPM` that gives each
its index. The table is only ever extended, so an index keeps its meaning; an op list is
modelled by its ops, and its keys are their indices in the table.
-/

set_option autoImplicit false

namespace Stackplz

/-! ## Ops -/

/-- `argtype.OpConfig` without its index. -/
structure NamedOp extends OpConfig where
  name : Text
deriving DecidableEq

/-- `ROP`: a basic op. -/
def rop (name : String) (code : OpCode) : NamedOp := ⟨⟨code, .skip, .skip, 0⟩, name.toList⟩

/-- The op with another value, under the same name. -/
def NamedOp.newValue (op : NamedOp) (value : u64) : NamedOp := { op with value := value }

def opcSkip : NamedOp := rop "SKIP" .skip
def opcSetReadLen : NamedOp := rop "SET_READ_LEN" .setReadLen
def opcAddOffset : NamedOp := rop "ADD_OFFSET" .addOffset
def opcSubOffset : NamedOp := rop "SUB_OFFSET" .subOffset
def opcMoveRegValue : NamedOp := rop "MOVE_REG_VALUE" .moveRegValue
def opcMovePointerValue : NamedOp := rop "MOVE_POINTER_VALUE" .movePointerValue
def opcMoveTmpValue : NamedOp := rop "MOVE_TMP_VALUE" .moveTmpValue
def opcSetTmpValue : NamedOp := rop "SET_TMP_VALUE" .setTmpValue
def opcForBreak : NamedOp := rop "FOR_BREAK" .forBreak
def opcSetBreakCount : NamedOp := rop "OP_SET_BREAK_COUNT" .setBreakCount
def opcSaveAddr : NamedOp := rop "SAVE_ADDR" .saveAddr
def opcAddReg : NamedOp := rop "ADD_REG" .addReg
def opcSubReg : NamedOp := rop "SUB_REG" .subReg
def opcSaveReg : NamedOp := rop "SAVE_REG" .saveReg
def opcReadPointer : NamedOp := rop "READ_POINTER" .readPointer
def opcSaveStruct : NamedOp := rop "SAVE_STRUCT" .saveStruct
def opcSaveString : NamedOp := rop "SAVE_STRING" .saveString
def opcFilterValue : NamedOp := rop "FILTER_VALUE" .filterValue
def opcFilterBuffer : NamedOp := rop "FILTER_BUFFER" .filterBuffer
def opcFilterString : NamedOp := rop "FILTER_STRING" .filterString
def opcSavePtrString : NamedOp := rop "SAVE_PTR_STRING" .savePtrString
def opcReadStdString : NamedOp := rop "READ_STD_STRING" .readStdString
def opcReadRet : NamedOp := rop "READ_RET" .readRet

/-- The basic ops in the order in which they are registered. -/
def basicOps : List NamedOp :=
  [opcSkip, rop "RESET_CTX" .resetCtx, rop "SET_REG_INDEX" .setRegIndex, opcSetReadLen,
    rop "SET_READ_LEN_REG_VALUE" .setReadLenRegValue,
    rop "SET_READ_LEN_POINTER_VALUE" .setReadLenPointerValue,
    rop "SET_READ_COUNT" .setReadCount, opcAddOffset, opcSubOffset, opcMoveRegValue,
    opcMovePointerValue, opcMoveTmpValue, opcSetTmpValue, opcForBreak, opcSetBreakCount,
    rop "SET_BREAK_COUNT_REG_VALUE" .setBreakCountRegValue,
    rop "SET_BREAK_COUNT_POINTER_VALUE" .setBreakCountPointerValue, opcSaveAddr, opcAddReg,
    opcSubReg, rop "READ_REG" .readReg, opcSaveReg, opcReadPointer,
    rop "SAVE_POINTER" .savePointer, opcSaveStruct, opcSaveString, opcFilterValue,
    opcFilterBuffer, opcFilterString, opcSavePtrString, opcReadStdString, opcReadRet]

/-- An op that does three things at once: `pre`, `code` and `post` with one value, which is
also part of its name. -/
def combinedOp (name : String) (code pre post : OpCode) (value : u64) : NamedOp :=
  ⟨⟨code, pre, post, value⟩, name.toList ++ '_' :: (Nat.repr value.toNat).toList⟩

/-- `Add_READ_SAVE_REG`. -/
def readSaveReg (value : u64) : NamedOp :=
  combinedOp "READ_SAVE_REG" .readReg .setRegIndex .saveReg value

/-- `Add_READ_MOVE_REG`. -/
def readMoveReg (value : u64) : NamedOp :=
  combinedOp "READ_MOVE_REG" .readReg .setRegIndex .moveRegValue value

/-- `SaveStruct`. -/
def saveStructOp (value : u64) : NamedOp :=
  combinedOp "SAVE_STRUCT" .setReadLen .skip .saveStruct value

/-- `BuildReadRegBreakCount`. -/
def buildReadRegBreakCount (regIndex : u64) : NamedOp :=
  combinedOp "READ_REG_AS_BREAK_COUNT" .readReg .setRegIndex .setBreakCountRegValue regIndex

/-- `BuildReadPtrBreakCount`. -/
def buildReadPtrBreakCount (offset : u64) : NamedOp :=
  combinedOp "READ_PTR_AS_BREAK_COUNT" .readPointer .addOffset .setBreakCountPointerValue offset

/-- `BuildReadRegLen`. -/
def buildReadRegLen (regIndex : u64) : NamedOp :=
  combinedOp "READ_REG_AS_READ_LEN" .readReg .setRegIndex .setReadLenRegValue regIndex

/-- `BuildReadPtrLen`. -/
def buildReadPtrLen (offset : u64) : NamedOp :=
  combinedOp "READ_PTR_AS_READ_LEN" .readPointer .addOffset .setReadLenPointerValue offset

/-- `BuildReadPtrAddr`. -/
def buildReadPtrAddr (offset : u64) : NamedOp :=
  combinedOp "READ_PTR_AS_ADDR" .readPointer .addOffset .movePointerValue offset

/-! ## The table -/

/-- `OpManager`. -/
structure OpManager where
  opList : List NamedOp
  nodup : opList.Nodup
  /-- Key zero, which fills the unused places of a key list, is the terminator. -/
  skip : opList.head? = some opcSkip

namespace OpManager

/-- `OPM` after the basic ops are registered. -/
def init : OpManager := ⟨basicOps, by decide, rfl⟩

/-- `AddOp`: an op that is in the table is not added again. -/
def addOp (m : OpManager) (op : NamedOp) : OpManager :=
  if h : op ∈ m.opList then m
  else
    { opList := m.opList ++ [op]
      nodup := by
        rw [List.nodup_append]
        refine ⟨m.nodup, by simp, ?_⟩
        rintro a ha b hb rfl
        exact h (List.mem_singleton.mp hb ▸ ha)
      skip := by
        rw [List.head?_append, m.skip]
        rfl }

/-- `Index` of an op of the table. -/
def index (m : OpManager) (op : NamedOp) : Nat := m.opList.idxOf op

/-- The key under which an op is loaded. -/
def key (m : OpManager) (op : NamedOp) : u32 := BitVec.ofNat 32 (m.index op)

theorem mem_addOp (m : OpManager) (op : NamedOp) : op ∈ (m.addOp op).opList := by
  unfold addOp
  split
  · assumption
  · simp

@[simp] theorem index_skip (m : OpManager) : m.index opcSkip = 0 := by
  have hskip := m.skip
  unfold index
  cases hlist : m.opList with
  | nil => simp [hlist] at hskip
  | cons op ops =>
      have hop : op = opcSkip := by simpa [hlist] using hskip
      rw [hop, List.idxOf_cons_self]

/-- `op_list` holds the table: every op under its key. -/
def LoadedIn (m : OpManager) (opList : OpListMap) : Prop :=
  ∀ op ∈ m.opList, opList.lookup (m.key op) = some op.toOpConfig

/-- A table that is loaded answers key zero with the terminator. -/
theorem LoadedIn.lookup_zero {m : OpManager} {opList : OpListMap} (h : m.LoadedIn opList) :
    opList.lookup 0 = some opcSkip.toOpConfig := by
  have hmem : opcSkip ∈ m.opList := List.mem_of_mem_head? m.skip
  have hkey : m.key opcSkip = 0 := by
    unfold key
    rw [index_skip]
    rfl
  rw [← hkey]
  exact h opcSkip hmem

/-- `op_list` after the table is loaded. -/
def load (m : OpManager) : OpListMap :=
  m.opList.foldl (fun map op => map.put (m.key op) op.toOpConfig) .empty

/-- A table that fits is loaded whole. -/
theorem loadedIn_load {m : OpManager} (h : m.opList.length ≤ 256) : m.LoadedIn m.load := by
  have hindex (op : NamedOp) (hop : op ∈ m.opList) : (m.key op).toNat = m.opList.idxOf op := by
    have hlt := List.idxOf_lt_length_of_mem hop
    show (m.opList.idxOf op) % 2 ^ 32 = _
    omega
  have hkeys : (m.opList.map m.key).Nodup := by
    refine m.nodup.map_on fun op hop op' hop' heq => ?_
    have hsame : m.opList.idxOf op = m.opList.idxOf op' := by
      rw [← hindex op hop, ← hindex op' hop', heq]
    exact List.idxOf_inj hop |>.mp hsame
  exact (BoundedMap.lookup_foldl_put hkeys (Nat.le_trans (Nat.le_of_eq (Nat.zero_add _)) h)).1

end OpManager

end Stackplz
