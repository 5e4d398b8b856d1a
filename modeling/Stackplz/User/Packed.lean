import Stackplz.Probe.Iterations
import Stackplz.User.PointArg

/-!
# The op list of a point in the probe

The keys that are packed for a point lead the interpreter through the op lists of its
arguments, one after the other, and then to the terminator. The facts are stated for a table
that is loaded and for arguments whose ops are in it.
-/

set_option autoImplicit false

namespace Stackplz

/-- The codes of an argument's op list, in order. -/
def PointArg.steps (a : PointArg) : List (OpConfig × OpCode) :=
  a.getOpList.flatMap fun op => op.steps

theorem opcForBreak_steps :
    opcForBreak.toOpConfig.steps = [(opcForBreak.toOpConfig, .forBreak)] := rfl

/-- The ops that are packed for the arguments. -/
def packedOps (args : List PointArg) : List OpConfig :=
  (args.flatMap PointArg.getOpList).map NamedOp.toOpConfig

/-- The codes of an argument list are those of its arguments. -/
theorem steps_packedOps (args : List PointArg) :
    (packedOps args).flatMap OpConfig.steps = (args.map PointArg.steps).flatten := by
  unfold packedOps
  induction args with
  | nil => rfl
  | cons a args ih =>
      rw [List.flatMap_cons, List.map_append, List.flatMap_append, ih, List.map_cons,
        List.flatten_cons, List.flatMap_map]
      rfl

section Packed

variable {maxOp : Nat} {env : ProbeEnv} {m : OpManager} {args : List PointArg} {enterKey : u32}
  {packed : PointArgs maxOp}

/-- A packed list that is loaded leads to the ops of its arguments, and then to the
terminator. -/
theorem packed_lookup (hmax : maxOp < 2 ^ 32) (hpos : 0 < maxOp) (hloaded : m.LoadedIn env.opList)
    (hmem : ∀ a ∈ args, ∀ op ∈ a.getOpList, op ∈ m.opList)
    (hpack : PointArgs.pack maxOp m enterKey args = some packed) {i : Nat}
    (hi : i ≤ (packedOps args).length) :
    ∃ hk : i < maxOp, env.opList.lookup packed.opKeyList[i] =
      some (((packedOps args)[i]?).getD opcSkip.toOpConfig) := by
  have hholds := pack_holds hmax hpos hpack
  have hroom := hholds.room
  rw [packedOps, List.length_map] at hi
  rw [List.length_map] at hroom
  have hk : i < maxOp := by omega
  refine ⟨hk, ?_⟩
  rw [hholds.opKeyList i hk, List.getElem?_map, packedOps, List.getElem?_map]
  cases hop : (args.flatMap PointArg.getOpList)[i]? with
  | none => exact hloaded.lookup_zero
  | some op =>
      obtain ⟨a, ha, hop⟩ := List.mem_flatMap.mp (List.mem_of_getElem? hop)
      exact hloaded op (hmem a ha op hop)

theorem packed_keysAt (hmax : maxOp < 2 ^ 32) (hpos : 0 < maxOp)
    (hloaded : m.LoadedIn env.opList) (hmem : ∀ a ∈ args, ∀ op ∈ a.getOpList, op ∈ m.opList)
    (hpack : PointArgs.pack maxOp m enterKey args = some packed) :
    KeysAt env packed.opKeyList 0 (packedOps args) := by
  intro i hi
  obtain ⟨hk, hkey⟩ := packed_lookup hmax hpos hloaded hmem hpack (Nat.le_of_lt hi)
  rw [List.getElem?_eq_getElem hi] at hkey
  simp only [Nat.zero_add]
  exact ⟨hk, hkey⟩

/-- After the ops comes the terminator. -/
theorem packed_end (hmax : maxOp < 2 ^ 32) (hpos : 0 < maxOp) (hloaded : m.LoadedIn env.opList)
    (hmem : ∀ a ∈ args, ∀ op ∈ a.getOpList, op ∈ m.opList)
    (hpack : PointArgs.pack maxOp m enterKey args = some packed) :
    ∃ hk : (packedOps args).length < maxOp,
      env.opList.lookup packed.opKeyList[(packedOps args).length] = some opcSkip.toOpConfig := by
  obtain ⟨hk, hkey⟩ := packed_lookup hmax hpos hloaded hmem hpack (Nat.le_refl _)
  rw [List.getElem?_eq_none (Nat.le_refl _)] at hkey
  exact ⟨hk, hkey⟩

/-- A run of `read_args` that reaches its end has run the op list of each argument in turn. -/
theorem readArgs_done (hmax : maxOp < 2 ^ 32) (hpos : 0 < maxOp) (hloaded : m.LoadedIn env.opList)
    (hmem : ∀ a ∈ args, ∀ op ∈ a.getOpList, op ∈ m.opList)
    (hstraight : ∀ a ∈ args, ∀ op ∈ a.getOpList, op.isStraight = true)
    (hpack : PointArgs.pack maxOp m enterKey args = some packed) {ctx : OpCtx} {event : EventData}
    {strBuf : StrBufMap} (hidle : ctx.Idle) (hindex : ctx.opKeyIndex = 0)
    (hdone : (readArgs env packed ctx event strBuf).1 = .done) :
    ∃ logs last, runLists env (args.map PointArg.steps) ⟨ctx.toOpData, event, strBuf⟩ =
        some (logs, last) ∧ (readArgs env packed ctx event strBuf).2.event = last.event := by
  obtain ⟨st', hloop, hevent⟩ : ∃ st', readArgsLoop env packed.opKeyList maxOp
      ⟨env.opList.lookup 0, ctx, event, strBuf⟩ = (.done, st') ∧
        (readArgs env packed ctx event strBuf).2.event = st'.event := by
    unfold readArgs at hdone ⊢
    generalize readArgsLoop env packed.opKeyList maxOp
      ⟨env.opList.lookup 0, ctx, event, strBuf⟩ = r at hdone ⊢
    obtain ⟨reason, st'⟩ := r
    cases reason with
    | done => exact ⟨st', rfl, rfl⟩
    | _ => cases hdone
  obtain ⟨n₁, st₁, hloop₁, hat₁, hstate₁⟩ :=
    readArgsLoop_enter hloaded.lookup_zero hidle hindex hloop
  have hstraight' : ∀ op ∈ packedOps args, op.isStraight = true := by
    intro op hop
    obtain ⟨named, hnamed, rfl⟩ := List.mem_map.mp hop
    obtain ⟨a, ha, hnamed⟩ := List.mem_flatMap.mp hnamed
    exact hstraight a ha named hnamed
  obtain ⟨n₂, st₂, log, hloop₂, hat₂, hrun⟩ := readArgsLoop_ops hmax hat₁
    (packed_keysAt hmax hpos hloaded hmem hpack) hstraight' hloop₁
  rw [Nat.zero_add] at hat₂
  obtain ⟨hk, hkey⟩ := packed_end hmax hpos hloaded hmem hpack
  have hlast := readArgsLoop_skip hat₂ hk hkey rfl hloop₂
  rw [steps_packedOps, hstate₁] at hrun
  obtain ⟨logs, hlogs⟩ := runLists_of_flatten hrun
  exact ⟨logs, st₂.opState, hlogs, hevent.trans (congrArg OpState.event hlast)⟩

end Packed

/-- A process whose memory reads as zero and whose registers hold `value`, with this op table
loaded. -/
def flatEnv (m : OpManager) (value : u64) : ProbeEnv :=
  ⟨fun _ => some 0, ⟨Vector.replicate 31 value, 0, 0, 0⟩, m.load, .empty⟩

theorem loadedIn_flatEnv {m : OpManager} (h : m.opList.length ≤ 256) (value : u64) :
    m.LoadedIn (flatEnv m value).opList := OpManager.loadedIn_load h

end Stackplz
