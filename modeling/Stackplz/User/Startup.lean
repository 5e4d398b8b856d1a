import Stackplz.Basic.GoMap
import Stackplz.Probe.Syscall
import Stackplz.User.HookPoint
import Stackplz.User.Leftover
import Stackplz.User.ThreadFilter

/-!
# Loading the maps

`updateFilter` of the two modules (`stack.go`, `syscall.go`): the configuration is written into
the maps that the programs read. An op list is built when its point is packed, and building it
adds ops to the table, so points are packed under tables that still grow; the table itself is
loaded last. A map that is full, an op list that is too long and a name that is too long are
panics. The results say what is in the maps when none happens:

* `getConfig_eq`, `loadPoints_eq` — packing under a growing table is packing under the table at
  the end;
* `loadedIn_updateOpList` — `op_list` holds the whole table, whatever the order of the visit;
* `pointsIn_of_load` — every point of a loaded map is packed for the table in `op_list`;
* `loadMaps_isSome_iff` — a start-up succeeds exactly within the limits of the maps.
-/

set_option autoImplicit false

namespace Stackplz

/-! ## The table while op lists are built -/

namespace OpManager

/-- The table after the op list of an argument is built: each of its ops is asked for. -/
def addOps (m : OpManager) (ops : List NamedOp) : OpManager := ops.foldl addOp m

theorem prefix_addOp (m : OpManager) (op : NamedOp) : m.opList <+: (m.addOp op).opList := by
  unfold addOp
  split
  · exact List.prefix_refl _
  · exact List.prefix_append _ _

theorem prefix_addOps (m : OpManager) (ops : List NamedOp) :
    m.opList <+: (m.addOps ops).opList := by
  induction ops generalizing m with
  | nil => exact List.prefix_refl _
  | cons op ops ih => exact (m.prefix_addOp op).trans (ih (m.addOp op))

theorem mem_addOps (m : OpManager) {ops : List NamedOp} {op : NamedOp} (h : op ∈ ops) :
    op ∈ (m.addOps ops).opList := by
  induction ops generalizing m with
  | nil => exact absurd h List.not_mem_nil
  | cons new ops ih =>
      rcases List.mem_cons.mp h with rfl | hlater
      · exact ((m.addOp op).prefix_addOps ops).subset (m.mem_addOp op)
      · exact ih (m.addOp new) hlater

theorem addOps_append (m : OpManager) (ops ops' : List NamedOp) :
    m.addOps (ops ++ ops') = (m.addOps ops).addOps ops' := List.foldl_append

/-- An op keeps its key when the table grows. -/
theorem key_of_prefix {m m' : OpManager} (h : m.opList <+: m'.opList) {op : NamedOp}
    (hop : op ∈ m.opList) : m'.key op = m.key op := by
  obtain ⟨new, hnew⟩ := h
  unfold key index
  rw [← hnew, List.idxOf_append_of_mem hop]

theorem map_key_of_prefix {m m' : OpManager} (h : m.opList <+: m'.opList) {ops : List NamedOp}
    (hops : ∀ op ∈ ops, op ∈ m.opList) : ops.map m'.key = ops.map m.key := by
  apply List.map_congr_left
  intro op hop
  exact key_of_prefix h (hops op hop)

end OpManager

/-! ## Packing a point -/

/-- A packed list with these keys. -/
def PointArgs.ofKeys (maxOp : Nat) (enterKey : u32) (keys : List u32) : PointArgs maxOp :=
  ⟨enterKey, BitVec.ofNat 32 keys.length, Vector.ofFn fun i => keys.getD i 0⟩

section OfKeys

variable {maxOp : Nat} {enterKey : u32}

theorem addOpKey_ofKeys (hmax : maxOp < 2 ^ 32) {keys : List u32} (hroom : keys.length < maxOp)
    (key : u32) :
    (PointArgs.ofKeys maxOp enterKey keys).addOpKey key =
      if keys.length + 1 < maxOp then some (.ofKeys maxOp enterKey (keys ++ [key])) else none := by
  have hcount : (BitVec.ofNat 32 keys.length).toNat = keys.length := by
    rw [BitVec.toNat_ofNat]
    omega
  have hnext : BitVec.ofNat 32 keys.length + 1 = BitVec.ofNat 32 (keys ++ [key]).length := by
    rw [List.length_append, List.length_singleton, BitVec.ofNat_add]
    rfl
  have hsucc : (BitVec.ofNat 32 (keys ++ [key]).length).toNat = keys.length + 1 := by
    rw [List.length_append, List.length_singleton, BitVec.toNat_ofNat]
    omega
  unfold PointArgs.addOpKey PointArgs.ofKeys
  simp only [hcount, hroom, hnext, hsucc, dif_pos]
  by_cases hfull : keys.length + 1 = maxOp
  · rw [if_pos hfull, if_neg (by omega)]
  · rw [if_neg hfull, if_pos (by omega)]
    congr 2
    apply Vector.ext
    intro i hi
    rw [Vector.getElem_set, Vector.getElem_ofFn, Vector.getElem_ofFn,
      List.getD_eq_getElem?_getD, List.getD_eq_getElem?_getD]
    dsimp only
    -- below the place of the new key, at it, and behind it
    rcases Nat.lt_trichotomy i keys.length with hlt | rfl | hgt
    · rw [if_neg (by omega), List.getElem?_append_left hlt]
    · rw [if_pos rfl, List.getElem?_concat_length]
      rfl
    · rw [if_neg (by omega), List.getElem?_eq_none (by omega), List.getElem?_eq_none]
      rw [List.length_append, List.length_singleton]
      omega

theorem foldlM_addOpKey_ofKeys (hmax : maxOp < 2 ^ 32) (new : List u32) {keys : List u32}
    (hroom : keys.length < maxOp) :
    new.foldlM PointArgs.addOpKey (PointArgs.ofKeys maxOp enterKey keys) =
      if keys.length + new.length < maxOp then some (.ofKeys maxOp enterKey (keys ++ new))
      else none := by
  induction new generalizing keys with
  | nil => simp [hroom]
  | cons key new ih =>
      rw [List.foldlM_cons, addOpKey_ofKeys hmax hroom]
      by_cases hnext : keys.length + 1 < maxOp
      · rw [if_pos hnext]
        have hlen : (keys ++ [key]).length = keys.length + 1 := List.length_append
        calc new.foldlM PointArgs.addOpKey (PointArgs.ofKeys maxOp enterKey (keys ++ [key]))
            = if (keys ++ [key]).length + new.length < maxOp then
                some (.ofKeys maxOp enterKey (keys ++ [key] ++ new)) else none :=
              ih (by omega)
          _ = _ := by
              rw [hlen, List.append_assoc, List.length_cons, Nat.add_assoc, Nat.add_comm 1]
              rfl
      · rw [if_neg hnext, if_neg (by rw [List.length_cons]; omega)]
        rfl

/-- The list that every packing starts with. -/
theorem ofKeys_nil :
    PointArgs.ofKeys maxOp enterKey [] = ⟨enterKey, 0, Vector.replicate maxOp 0⟩ := by
  unfold PointArgs.ofKeys
  congr 1
  apply Vector.ext
  intro i hi
  simp

end OfKeys

/-- One round of `GetConfig`: the op list of an argument is built, and its keys are added. -/
def PointArgs.addArg {maxOp : Nat} (s : OpManager × PointArgs maxOp) (a : PointArg) :
    Option (OpManager × PointArgs maxOp) :=
  let m := s.1.addOps a.getOpList
  (s.2.addPointArg m a).map fun packed => (m, packed)

/-- `GetConfig` and its siblings; `none` is a panic. -/
def PointArgs.getConfig (maxOp : Nat) (m : OpManager) (enterKey : u32) (args : List PointArg) :
    Option (OpManager × PointArgs maxOp) :=
  args.foldlM PointArgs.addArg (m, ⟨enterKey, 0, Vector.replicate maxOp 0⟩)

/-- The ops of an argument list, in order. -/
def argOps (args : List PointArg) : List NamedOp := args.flatMap PointArg.getOpList

section GetConfig

variable {maxOp : Nat} {enterKey : u32}

/-- The rounds of `GetConfig` behind the ops that were packed before. -/
theorem foldlM_addArg (hmax : maxOp < 2 ^ 32) (args : List PointArg) {m : OpManager}
    {done : List NamedOp} (hdone : ∀ op ∈ done, op ∈ m.opList) (hroom : done.length < maxOp) :
    args.foldlM PointArgs.addArg (m, PointArgs.ofKeys maxOp enterKey (done.map m.key)) =
      if (done ++ argOps args).length < maxOp then
        some (m.addOps (argOps args),
          .ofKeys maxOp enterKey ((done ++ argOps args).map (m.addOps (argOps args)).key))
      else none := by
  induction args generalizing m done with
  | nil => simp [argOps, OpManager.addOps, hroom]
  | cons a args ih =>
      let mid := m.addOps a.getOpList
      have hops : argOps (a :: args) = a.getOpList ++ argOps args := List.flatMap_cons
      have hend : m.addOps (argOps (a :: args)) = mid.addOps (argOps args) := by
        rw [hops, OpManager.addOps_append]
      have hpre : m.opList <+: mid.opList := m.prefix_addOps a.getOpList
      have hold : ∀ op ∈ done, op ∈ mid.opList := fun op hop => hpre.subset (hdone op hop)
      -- growing the table moves no op, so the keys packed before stay what they are
      have hstart : done.map m.key = done.map mid.key :=
        (OpManager.map_key_of_prefix hpre hdone).symm
      have hround : PointArgs.addArg (m, PointArgs.ofKeys maxOp enterKey (done.map m.key)) a =
          if (done ++ a.getOpList).length < maxOp then
            some (mid, .ofKeys maxOp enterKey ((done ++ a.getOpList).map mid.key)) else none := by
        unfold PointArgs.addArg PointArgs.addPointArg
        dsimp only
        rw [hstart, foldlM_addOpKey_ofKeys hmax _ (by rwa [List.length_map]), List.length_map,
          List.length_map, ← List.map_append, ← List.length_append]
        by_cases hfits : (done ++ a.getOpList).length < maxOp
        · rw [if_pos hfits, if_pos hfits]
          rfl
        · rw [if_neg hfits, if_neg hfits]
          rfl
      rw [List.foldlM_cons, hround, hend, hops, ← List.append_assoc]
      by_cases hfits : (done ++ a.getOpList).length < maxOp
      · rw [if_pos hfits]
        refine ih ?_ hfits
        intro op hop
        rcases List.mem_append.mp hop with hop | hop
        · exact hold op hop
        · exact m.mem_addOps hop
      -- no later argument makes room again
      · rw [if_neg hfits, if_neg]
        · rfl
        · rw [List.length_append]
          omega

/-- **Packing while the table grows.** The keys are those of the table at the end. -/
theorem getConfig_eq (hmax : maxOp < 2 ^ 32) (hpos : 0 < maxOp) (m : OpManager)
    (args : List PointArg) :
    PointArgs.getConfig maxOp m enterKey args =
      if (argOps args).length < maxOp then
        some (m.addOps (argOps args),
          .ofKeys maxOp enterKey ((argOps args).map (m.addOps (argOps args)).key))
      else none := by
  have hdone : ∀ op ∈ ([] : List NamedOp), op ∈ m.opList := fun op hop =>
    absurd hop List.not_mem_nil
  rw [PointArgs.getConfig, ← ofKeys_nil]
  exact foldlM_addArg hmax args hdone hpos

/-- The same list packed under a table that does not grow any more. -/
theorem pack_eq (hmax : maxOp < 2 ^ 32) (hpos : 0 < maxOp) (m : OpManager)
    (args : List PointArg) :
    PointArgs.pack maxOp m enterKey args =
      if (argOps args).length < maxOp then
        some (.ofKeys maxOp enterKey ((argOps args).map m.key)) else none := by
  have hflat (start : PointArgs maxOp) : args.foldlM (PointArgs.addPointArg m) start =
      ((argOps args).map m.key).foldlM PointArgs.addOpKey start := by
    induction args generalizing start with
    | nil => rfl
    | cons a args ih =>
        rw [List.foldlM_cons, argOps, List.flatMap_cons, List.map_append, List.foldlM_append]
        exact congrArg (Option.bind _) (funext ih)
  have hnil : ([] : List u32).length < maxOp := hpos
  rw [PointArgs.pack, hflat, ← ofKeys_nil, foldlM_addOpKey_ofKeys hmax _ hnil, List.length_map,
    List.length_nil, Nat.zero_add, List.nil_append]

end GetConfig

/-! ## The points of a map -/

/-- A point as it is loaded: its key, its entry key and its arguments. -/
structure PointLoad where
  key : u32
  enterKey : u32
  args : List PointArg

/-- The ops of a point, in order. -/
def PointLoad.ops (p : PointLoad) : List NamedOp := argOps p.args

/-- What a point is packed into under a table. -/
def PointLoad.packed (maxOp : Nat) (m : OpManager) (p : PointLoad) : PointArgs maxOp :=
  .ofKeys maxOp p.enterKey (p.ops.map m.key)

section LoadPoints

variable {maxOp cap : Nat}

/-- One round of the loops over points. -/
def loadPoint (s : OpManager × BoundedMap u32 (PointArgs maxOp) cap) (p : PointLoad) :
    Option (OpManager × BoundedMap u32 (PointArgs maxOp) cap) := do
  let (m, config) ← PointArgs.getConfig maxOp s.1 p.enterKey p.args
  let map ← s.2.update p.key config
  return (m, map)

/-- The loops over points, into an empty map; `none` is a panic. -/
def loadPoints (maxOp cap : Nat) (m : OpManager) (points : List PointLoad) :
    Option (OpManager × BoundedMap u32 (PointArgs maxOp) cap) :=
  points.foldlM loadPoint (m, .empty)

/-- The table after all points are packed. -/
def OpManager.withPoints (m : OpManager) (points : List PointLoad) : OpManager :=
  m.addOps (points.flatMap PointLoad.ops)

theorem foldlM_loadPoint (hmax : maxOp < 2 ^ 32) (hpos : 0 < maxOp) (points : List PointLoad)
    (m : OpManager) (map : BoundedMap u32 (PointArgs maxOp) cap) :
    points.foldlM loadPoint (m, map) =
      if ∀ p ∈ points, p.ops.length < maxOp then
        (map.updateAll PointLoad.key (PointLoad.packed maxOp (m.withPoints points)) points).map
          fun map' => (m.withPoints points, map')
      else none := by
  induction points generalizing m map with
  | nil => simp [BoundedMap.updateAll, OpManager.withPoints, OpManager.addOps]
  | cons p points ih =>
      let mid := m.addOps p.ops
      have hend : m.withPoints (p :: points) = mid.withPoints points := by
        unfold OpManager.withPoints
        rw [List.flatMap_cons, OpManager.addOps_append]
      -- the keys of a point are the same under the table at the end
      have hpacked : p.packed maxOp mid = p.packed maxOp (mid.withPoints points) := by
        have hpre : mid.opList <+: (mid.withPoints points).opList := mid.prefix_addOps _
        unfold PointLoad.packed
        rw [OpManager.map_key_of_prefix hpre fun op hop => m.mem_addOps hop]
      have hround : loadPoint (m, map) p =
          if p.ops.length < maxOp then
            (map.update p.key (p.packed maxOp (mid.withPoints points))).map fun map' => (mid, map')
          else none := by
        unfold loadPoint
        rw [getConfig_eq hmax hpos]
        by_cases hfits : (argOps p.args).length < maxOp
        · rw [if_pos hfits, if_pos (show p.ops.length < maxOp from hfits), ← hpacked]
          exact Option.map_eq_bind.symm
        · rw [if_neg hfits, if_neg (show ¬ p.ops.length < maxOp from hfits)]
          rfl
      rw [List.foldlM_cons, hround, hend]
      by_cases hfits : p.ops.length < maxOp
      · rw [if_pos hfits]
        have hall : (∀ q ∈ p :: points, q.ops.length < maxOp) ↔
            ∀ q ∈ points, q.ops.length < maxOp := by
          rw [List.forall_mem_cons, and_iff_right hfits]
        rw [BoundedMap.updateAll, List.foldlM_cons]
        cases map.update p.key (p.packed maxOp (mid.withPoints points)) with
        | none => simp
        | some map' =>
            have hrest := ih mid map'
            simp only [hall]
            exact hrest
      · rw [if_neg hfits, if_neg fun h => hfits (h p List.mem_cons_self)]
        rfl

/-- **Loading points.** They go into the map packed under the table at the end. -/
theorem loadPoints_eq (hmax : maxOp < 2 ^ 32) (hpos : 0 < maxOp) (m : OpManager)
    (points : List PointLoad) :
    loadPoints maxOp cap m points =
      if ∀ p ∈ points, p.ops.length < maxOp then
        (BoundedMap.empty.updateAll PointLoad.key
          (PointLoad.packed maxOp (m.withPoints points)) points).map
            fun map => (m.withPoints points, map)
      else none :=
  foldlM_loadPoint hmax hpos points m .empty

end LoadPoints

/-! ## The op table -/

/-- The ops of the table under their keys. -/
def OpManager.entries (m : OpManager) : List (GoEntry u32 OpConfig) :=
  m.opList.map fun op => ⟨m.key op, op.toOpConfig⟩

/-- `GetALLOpList`. -/
def OpManager.getALLOpList (m : OpManager) : GoMap u32 OpConfig :=
  m.entries.foldl (fun map entry => map.insert entry.1 entry.2) ∅

/-- `update_op_list`, which visits a map; `none` is a panic. -/
def updateOpList (range : GoRange u32 OpConfig) (m : OpManager) : Option OpListMap :=
  BoundedMap.empty.updateAll Sigma.fst Sigma.snd (range.order m.getALLOpList)

section OpList

variable {m : OpManager} {range : GoRange u32 OpConfig} {opList : OpListMap}

/-- The first ops have keys of their own, as many of them as there are keys. -/
theorem nodup_keys_take (m : OpManager) {n : Nat} (hn : n ≤ 2 ^ 32) :
    ((m.opList.take n).map m.key).Nodup := by
  have hindex : ∀ op ∈ m.opList.take n, (m.key op).toNat = m.opList.idxOf op := by
    intro op hop
    have hlt : m.opList.idxOf op < n := by
      calc m.opList.idxOf op
          = (m.opList.take n).idxOf op := by
            rw [← List.idxOf_append_of_mem hop, List.take_append_drop]
        _ < (m.opList.take n).length := List.idxOf_lt_length_of_mem hop
        _ ≤ n := List.length_take_le n m.opList
    show m.opList.idxOf op % 2 ^ 32 = _
    omega
  refine (m.nodup.sublist (List.take_sublist n _)).map_on fun op hop op' hop' heq => ?_
  have hsame : m.opList.idxOf op = m.opList.idxOf op' := by
    rw [← hindex op hop, ← hindex op' hop', heq]
  exact (List.idxOf_inj (List.mem_of_mem_take hop)).mp hsame

theorem keys_order_getALLOpList (range : GoRange u32 OpConfig) (m : OpManager) :
    ((range.order m.getALLOpList).map Sigma.fst).toFinset = (m.opList.map m.key).toFinset := by
  ext key
  have hperm := ((range.perm m.getALLOpList).map Sigma.fst).mem_iff (a := key)
  have hmem : key ∈ m.getALLOpList.entries.map Sigma.fst ↔ key ∈ m.getALLOpList := Iff.rfl
  rw [List.mem_toFinset, List.mem_toFinset, hperm, hmem, OpManager.getALLOpList,
    mem_foldl_insert, OpManager.entries, List.map_map]
  simp [AList.notMem_empty, Function.comp_def]

/-- The map has room for tables of up to 256 ops. -/
theorem updateOpList_isSome_iff : (updateOpList range m).isSome ↔ m.opList.length ≤ 256 := by
  rw [updateOpList, BoundedMap.updateAll_empty_isSome_iff, ← List.card_toFinset,
    keys_order_getALLOpList]
  constructor
  · intro hcard
    by_contra hlen
    -- the first 257 ops alone have too many keys
    have hsub : ((m.opList.take 257).map m.key).toFinset ⊆ (m.opList.map m.key).toFinset := by
      intro key hkey
      rw [List.mem_toFinset] at hkey ⊢
      exact List.map_subset m.key (List.take_subset 257 m.opList) hkey
    have hle := Finset.card_le_card hsub
    rw [List.toFinset_card_of_nodup (nodup_keys_take m (by decide)), List.length_map,
      List.length_take] at hle
    omega
  · intro hlen
    calc (m.opList.map m.key).toFinset.card ≤ (m.opList.map m.key).length := List.toFinset_card_le _
      _ = m.opList.length := List.length_map _
      _ ≤ 256 := hlen

/-- **The op table is loaded whole,** whatever the order in which it is visited. -/
theorem loadedIn_updateOpList (h : updateOpList range m = some opList) : m.LoadedIn opList := by
  have hsome : (updateOpList range m).isSome := by
    rw [h]
    rfl
  have hlen : m.opList.length ≤ 256 := updateOpList_isSome_iff.mp hsome
  have hnodup : m.entries.NodupKeys := by
    have hkeys := nodup_keys_take m (n := m.opList.length) (by omega)
    rw [List.take_length] at hkeys
    unfold List.NodupKeys List.keys OpManager.entries
    rwa [List.map_map]
  have hentries : m.getALLOpList.entries = m.entries.reverse := by
    have hfold := entries_foldl_insert m.entries ∅ (by simpa using hnodup)
    rwa [AList.empty_entries, List.append_nil] at hfold
  intro op hop
  have hmem : (⟨m.key op, op.toOpConfig⟩ : GoEntry u32 OpConfig) ∈ range.order m.getALLOpList := by
    rw [(range.perm m.getALLOpList).mem_iff, hentries, List.mem_reverse]
    exact List.mem_map_of_mem hop
  exact BoundedMap.lookup_updateAll_nodup (range.nodupKeys _) h hmem

end OpList

/-! ## Loaded points -/

/-- `update_arg_filter`; `none` is a panic. -/
def updateArgFilter (filters : List ConfigFilter) : Option ArgFilterMap :=
  BoundedMap.empty.updateAll (fun f => f.filterIndex.setWidth 64) ConfigFilter.toArgFilter filters

/-- The arguments name filters that are configured. -/
def FiltersKnown (filters : List ConfigFilter) (args : List PointArg) : Prop :=
  ∀ a ∈ args, ∀ i ∈ a.filterIndexList, ∃ f ∈ filters, f.filterIndex = i

theorem filtersKnown_of_nil (filters : List ConfigFilter) {args : List PointArg}
    (h : ∀ a ∈ args, a.filterIndexList = []) : FiltersKnown filters args := by
  intro a ha i hi
  rw [h a ha] at hi
  exact absurd hi List.not_mem_nil

/-- A map holds these points, packed for the table that is loaded, and no others. -/
structure PointsIn {maxOp cap : Nat} (m : OpManager) (opList : OpListMap)
    (argFilter : ArgFilterMap) (map : BoundedMap u32 (PointArgs maxOp) cap)
    (points : List PointLoad) : Prop where
  found : ∀ p ∈ points, ∃ packed, map.lookup p.key = some packed
  packed : ∀ k packed, map.lookup k = some packed →
    ∃ p ∈ points, p.key = k ∧ PackedIn m opList argFilter p.enterKey p.args packed

section Loaded

variable {maxOp cap : Nat} {m m' final : OpManager} {opList : OpListMap} {argFilter : ArgFilterMap}
  {filters : List ConfigFilter} {points : List PointLoad}
  {map : BoundedMap u32 (PointArgs maxOp) cap}

theorem isSome_lookup_argFilter (h : updateArgFilter filters = some argFilter) {i : u32}
    (hi : ∃ f ∈ filters, f.filterIndex = i) :
    (argFilter.lookup (i.setWidth 64)).isSome = true := by
  obtain ⟨f, hf, rfl⟩ := hi
  obtain ⟨g, -, -, hlookup⟩ := BoundedMap.lookup_updateAll_of_mem h hf
  rw [hlookup]
  rfl

/-- **Points are found as they were packed,** once the table at the end is loaded. -/
theorem pointsIn_of_load (hmax : maxOp < 2 ^ 32) (hpos : 0 < maxOp)
    (hload : loadPoints maxOp cap m points = some (m', map))
    (hgrown : m'.opList <+: final.opList) (hops : final.LoadedIn opList)
    (hfilter : updateArgFilter filters = some argFilter)
    (hknown : ∀ p ∈ points, FiltersKnown filters p.args) :
    PointsIn final opList argFilter map points := by
  rw [loadPoints_eq hmax hpos] at hload
  split at hload
  · rename_i hfits
    obtain ⟨loaded, hupdates, heq⟩ := Option.map_eq_some_iff.mp hload
    obtain ⟨rfl, rfl⟩ := Prod.mk.inj heq
    refine ⟨fun p hp => ?_, fun k packed hlookup => ?_⟩
    · obtain ⟨q, -, -, hlookup⟩ := BoundedMap.lookup_updateAll_of_mem hupdates hp
      exact ⟨_, hlookup⟩
    · rw [BoundedMap.lookup_updateAll hupdates] at hlookup
      -- of several points under one key the last is in the map
      cases hfind : points.reverse.find? fun p => p.key = k with
      | none =>
          rw [hfind] at hlookup
          exact absurd hlookup (by simp)
      | some p =>
          rw [hfind] at hlookup
          have hp : p ∈ points := List.mem_reverse.mp (List.mem_of_find?_eq_some hfind)
          have hin : ∀ op ∈ p.ops, op ∈ (m.withPoints points).opList := fun op hop =>
            m.mem_addOps (List.mem_flatMap.mpr ⟨p, hp, hop⟩)
          have hkey : p.key = k := by simpa using List.find?_some hfind
          refine ⟨p, hp, hkey, hops, ?_, ?_, ?_⟩
          · intro a ha op hop
            exact hgrown.subset (hin op (List.mem_flatMap.mpr ⟨a, ha, hop⟩))
          · have hlen : (argOps p.args).length < maxOp := hfits p hp
            rw [pack_eq hmax hpos, if_pos hlen, ← Option.some.inj hlookup]
            unfold PointLoad.packed
            rw [← OpManager.map_key_of_prefix hgrown hin]
            rfl
          · intro a ha i hi
            exact isSome_lookup_argFilter hfilter (hknown p hp a ha i hi)
  · cases hload

theorem loadPoints_isSome_iff (hmax : maxOp < 2 ^ 32) (hpos : 0 < maxOp) :
    (loadPoints maxOp cap m points).isSome ↔
      (∀ p ∈ points, p.ops.length < maxOp) ∧ (points.map PointLoad.key).dedup.length ≤ cap := by
  rw [loadPoints_eq hmax hpos]
  by_cases hfits : ∀ p ∈ points, p.ops.length < maxOp
  · rw [if_pos hfits, Option.isSome_map, BoundedMap.updateAll_empty_isSome_iff]
    exact (and_iff_right hfits).symm
  · rw [if_neg hfits]
    exact iff_of_false Bool.false_ne_true fun h => hfits h.1

theorem fst_of_loadPoints (hmax : maxOp < 2 ^ 32) (hpos : 0 < maxOp)
    (hload : loadPoints maxOp cap m points = some (m', map)) : m' = m.withPoints points := by
  rw [loadPoints_eq hmax hpos] at hload
  split at hload
  · obtain ⟨_, -, heq⟩ := Option.map_eq_some_iff.mp hload
    exact (Prod.mk.inj heq).1.symm
  · cases hload

end Loaded

/-! ## The modules -/

/-- What both modules read of `ModuleConfig`. -/
structure LoadConfig where
  selfPid : u32
  lists : IdLists
  threadNames : ThreadNames
  commonFilter : CommonFilter
  filters : List ConfigFilter

/-- The maps of a module, and the op table they were loaded under: the first and the second map
of points are those of the entries and of the exits. -/
structure LoadedMaps (maxOp cap : Nat) where
  filter : FilterMaps
  argFilter : ArgFilterMap
  table : OpManager
  first : BoundedMap u32 (PointArgs maxOp) cap
  second : BoundedMap u32 (PointArgs maxOp) cap
  opList : OpListMap

namespace LoadConfig

/-- `update_base_config`, `update_common_filter`, `update_child_parent` and
`update_thread_filter`, with the lists of ids that the module loads. -/
def loadFilters (conf : LoadConfig) (lists : IdLists) : Option FilterMaps := do
  let commonList ← lists.loadCommonList
  let childParentMap ← updateChildParent (conf.lists.items .pidWhitelist)
  let threadFilter ← conf.threadNames.updateThreadFilter
  return ⟨conf.threadNames.getConfigMap conf.selfPid, threadFilter, commonList, childParentMap,
    some conf.commonFilter⟩

/-- `updateFilter` of the modules: the filters, the loops over points and `update_op_list`. A
panic in any of them ends the start-up. -/
def loadMaps (conf : LoadConfig) (maxOp cap : Nat) (lists : IdLists) (range : GoRange u32 OpConfig)
    (m : OpManager) (first second : List PointLoad) : Option (LoadedMaps maxOp cap) := do
  let filter ← conf.loadFilters lists
  let argFilter ← updateArgFilter conf.filters
  let (m, firstMap) ← loadPoints maxOp cap m first
  let (m, secondMap) ← loadPoints maxOp cap m second
  let opList ← updateOpList range m
  return ⟨filter, argFilter, m, firstMap, secondMap, opList⟩

end LoadConfig

/-! ### The limits -/

/-- The keys under which the lists of ids are loaded. -/
def IdLists.keys (lists : IdLists) : List u32 :=
  ListKind.all.flatMap fun k => (lists.items k).map (· + k.start)

theorem loadCommonList_eq (lists : IdLists) :
    lists.loadCommonList = BoundedMap.empty.updateAll id id lists.keys := by
  have hkinds (kinds : List ListKind) (m : CommonList) :
      kinds.foldlM (fun m k => updateCommonList m (lists.items k) k.start) m =
        m.updateAll id id (kinds.flatMap fun k => (lists.items k).map (· + k.start)) := by
    induction kinds generalizing m with
    | nil => rfl
    | cons k kinds ih =>
        have hlist : updateCommonList m (lists.items k) k.start =
            m.updateAll id id ((lists.items k).map (· + k.start)) := by
          unfold updateCommonList BoundedMap.updateAll
          rw [List.foldlM_map]
          rfl
        rw [List.foldlM_cons, List.flatMap_cons, hlist, BoundedMap.updateAll, BoundedMap.updateAll,
          List.foldlM_append]
        exact congrArg (Option.bind _) (funext ih)
  exact hkinds ListKind.all .empty

/-- The limits of the maps for lists, names and filters. -/
structure LoadConfig.Fits (conf : LoadConfig) (lists : IdLists) : Prop where
  ids : lists.keys.dedup.length ≤ 1024
  pids : (conf.lists.items .pidWhitelist).dedup.length ≤ 512
  nameLengths : conf.threadNames.NamesFit
  names : (conf.threadNames.entries.map Prod.fst).dedup.length ≤ 40
  filters : (conf.filters.map fun f => f.filterIndex.setWidth 64).dedup.length ≤ 40

/-- The limits of the maps for points and their ops. -/
structure PointsFit (maxOp cap : Nat) (m : OpManager) (first second : List PointLoad) : Prop where
  firstOps : ∀ p ∈ first, p.ops.length < maxOp
  secondOps : ∀ p ∈ second, p.ops.length < maxOp
  firstKeys : (first.map PointLoad.key).dedup.length ≤ cap
  secondKeys : (second.map PointLoad.key).dedup.length ≤ cap
  table : ((m.withPoints first).withPoints second).opList.length ≤ 256

section Modules

variable {conf : LoadConfig} {lists : IdLists} {range : GoRange u32 OpConfig} {m : OpManager}
  {maxOp cap : Nat} {first second : List PointLoad} {loaded : LoadedMaps maxOp cap}

theorem loadFilters_isSome_iff (hnul : conf.threadNames.NulFree) :
    ((conf.loadFilters lists).isSome ∧ (updateArgFilter conf.filters).isSome) ↔
      conf.Fits lists := by
  have hids : lists.loadCommonList.isSome ↔ lists.keys.dedup.length ≤ 1024 := by
    rw [loadCommonList_eq, BoundedMap.updateAll_empty_isSome_iff, List.map_id]
  have hpids : (updateChildParent (conf.lists.items .pidWhitelist)).isSome ↔
      (conf.lists.items .pidWhitelist).dedup.length ≤ 512 := by
    have hparents : ((BoundedMap.empty : ChildParentMap).updateAll id id
        (conf.lists.items .pidWhitelist)).isSome ↔ _ := BoundedMap.updateAll_empty_isSome_iff _
    rwa [List.map_id] at hparents
  have hnames := updateThreadFilter_isSome_iff hnul
  have hfilters : (updateArgFilter conf.filters).isSome ↔
      (conf.filters.map fun f => f.filterIndex.setWidth 64).dedup.length ≤ 40 :=
    BoundedMap.updateAll_empty_isSome_iff conf.filters
  have hall : (conf.loadFilters lists).isSome ↔ lists.loadCommonList.isSome ∧
      (updateChildParent (conf.lists.items .pidWhitelist)).isSome ∧
        conf.threadNames.updateThreadFilter.isSome := by
    unfold LoadConfig.loadFilters
    cases lists.loadCommonList with
    | none => simp
    | some _ =>
        cases updateChildParent (conf.lists.items .pidWhitelist) with
        | none => simp
        | some _ => cases conf.threadNames.updateThreadFilter <;> simp
  rw [hall, hids, hpids, hnames, hfilters]
  constructor
  · rintro ⟨⟨ids, pids, nameLengths, names⟩, filters⟩
    exact ⟨ids, pids, nameLengths, names, filters⟩
  · rintro ⟨ids, pids, nameLengths, names, filters⟩
    exact ⟨⟨ids, pids, nameLengths, names⟩, filters⟩

theorem loadMaps_eq_some (hmax : maxOp < 2 ^ 32) (hpos : 0 < maxOp) :
    conf.loadMaps maxOp cap lists range m first second = some loaded ↔
      (conf.loadFilters lists = some loaded.filter ∧
        updateArgFilter conf.filters = some loaded.argFilter) ∧
      loadPoints maxOp cap m first = some (m.withPoints first, loaded.first) ∧
        loadPoints maxOp cap (m.withPoints first) second = some (loaded.table, loaded.second) ∧
        updateOpList range loaded.table = some loaded.opList := by
  unfold LoadConfig.loadMaps
  simp only [Option.bind_eq_bind, Option.bind_eq_some_iff, Option.pure_def, Option.some.injEq,
    Prod.exists]
  constructor
  · rintro ⟨filter, hfilter, argFilter, harg, mid, firstMap, h₁, table, secondMap, h₂, opList,
      hops, rfl⟩
    obtain rfl := fst_of_loadPoints hmax hpos h₁
    exact ⟨⟨hfilter, harg⟩, h₁, h₂, hops⟩
  · rintro ⟨⟨hfilter, harg⟩, h₁, h₂, hops⟩
    exact ⟨_, hfilter, _, harg, _, _, h₁, _, _, h₂, _, hops, rfl⟩

/-- **Start-up succeeds exactly within the limits** of the maps. -/
theorem loadMaps_isSome_iff (hmax : maxOp < 2 ^ 32) (hpos : 0 < maxOp)
    (hnul : conf.threadNames.NulFree) :
    (conf.loadMaps maxOp cap lists range m first second).isSome ↔
      conf.Fits lists ∧ PointsFit maxOp cap m first second := by
  rw [← loadFilters_isSome_iff hnul]
  constructor
  · intro h
    obtain ⟨loaded, hload⟩ := Option.isSome_iff_exists.mp h
    obtain ⟨⟨hfilter, harg⟩, h₁, h₂, hops⟩ := (loadMaps_eq_some hmax hpos).mp hload
    obtain ⟨hops₁, hkeys₁⟩ := (loadPoints_isSome_iff hmax hpos).mp (Option.isSome_of_eq_some h₁)
    obtain ⟨hops₂, hkeys₂⟩ := (loadPoints_isSome_iff hmax hpos).mp (Option.isSome_of_eq_some h₂)
    have htable := updateOpList_isSome_iff.mp (Option.isSome_of_eq_some hops)
    rw [fst_of_loadPoints hmax hpos h₂] at htable
    exact ⟨⟨Option.isSome_of_eq_some hfilter, Option.isSome_of_eq_some harg⟩, hops₁, hops₂, hkeys₁,
      hkeys₂, htable⟩
  · rintro ⟨⟨hfilter, harg⟩, hfit⟩
    obtain ⟨filter, hfilter⟩ := Option.isSome_iff_exists.mp hfilter
    obtain ⟨argFilter, harg⟩ := Option.isSome_iff_exists.mp harg
    have hfirst : (loadPoints maxOp cap m first).isSome :=
      (loadPoints_isSome_iff hmax hpos).mpr ⟨hfit.firstOps, hfit.firstKeys⟩
    obtain ⟨⟨mid, firstMap⟩, h₁⟩ := Option.isSome_iff_exists.mp hfirst
    obtain rfl := fst_of_loadPoints hmax hpos h₁
    have hsecond : (loadPoints maxOp cap (m.withPoints first) second).isSome :=
      (loadPoints_isSome_iff hmax hpos).mpr ⟨hfit.secondOps, hfit.secondKeys⟩
    obtain ⟨⟨table, secondMap⟩, h₂⟩ := Option.isSome_iff_exists.mp hsecond
    have htable : (updateOpList range table).isSome := by
      rw [updateOpList_isSome_iff, fst_of_loadPoints hmax hpos h₂]
      exact hfit.table
    obtain ⟨opList, hops⟩ := Option.isSome_iff_exists.mp htable
    let loaded : LoadedMaps maxOp cap := ⟨filter, argFilter, table, firstMap, secondMap, opList⟩
    have hload : conf.loadMaps maxOp cap lists range m first second = some loaded :=
      (loadMaps_eq_some hmax hpos).mpr ⟨⟨hfilter, harg⟩, h₁, h₂, hops⟩
    exact Option.isSome_of_eq_some hload

/-- The maps hold their points, packed for the table that is loaded. -/
theorem pointsIn_of_loadMaps (hmax : maxOp < 2 ^ 32) (hpos : 0 < maxOp)
    (h : conf.loadMaps maxOp cap lists range m first second = some loaded)
    (hfirst : ∀ p ∈ first, FiltersKnown conf.filters p.args)
    (hsecond : ∀ p ∈ second, FiltersKnown conf.filters p.args) :
    PointsIn loaded.table loaded.opList loaded.argFilter loaded.first first ∧
      PointsIn loaded.table loaded.opList loaded.argFilter loaded.second second := by
  obtain ⟨⟨-, harg⟩, h₁, h₂, hops⟩ := (loadMaps_eq_some hmax hpos).mp h
  have hloaded := loadedIn_updateOpList hops
  have hgrown : (m.withPoints first).opList <+: loaded.table.opList := by
    rw [fst_of_loadPoints hmax hpos h₂]
    exact (m.withPoints first).prefix_addOps _
  exact ⟨pointsIn_of_load hmax hpos h₁ hgrown hloaded harg hfirst,
    pointsIn_of_load hmax hpos h₂ (List.prefix_refl _) hloaded harg hsecond⟩

/-- The programs find the common filter of the configuration. -/
theorem commonFilter_of_loadMaps (hmax : maxOp < 2 ^ 32) (hpos : 0 < maxOp)
    (h : conf.loadMaps maxOp cap lists range m first second = some loaded) :
    loaded.filter.commonFilter = some conf.commonFilter := by
  have hfilter := ((loadMaps_eq_some hmax hpos).mp h).1.1
  unfold LoadConfig.loadFilters at hfilter
  simp only [Option.bind_eq_bind, Option.bind_eq_some_iff, Option.pure_def,
    Option.some.injEq] at hfilter
  obtain ⟨_, -, _, -, _, -, heq⟩ := hfilter
  rw [← heq]

end Modules

/-! ## System calls -/

/-- The entry and the exit of a system call as they are loaded. -/
def SyscallPoint.enterLoad (p : SyscallPoint) : PointLoad := ⟨p.nr, 0, p.enterPointArgs⟩
def SyscallPoint.exitLoad (p : SyscallPoint) : PointLoad := ⟨p.nr, 0, p.exitPointArgs⟩

/-- `updateFilter` of `MSyscall`. -/
def LoadConfig.loadSyscalls (conf : LoadConfig) (range : GoRange u32 OpConfig) (m : OpManager)
    (points : List SyscallPoint) : Option (LoadedMaps syscallMaxOpCount 512) :=
  conf.loadMaps syscallMaxOpCount 512 conf.lists range m (points.map SyscallPoint.enterLoad)
    (points.map SyscallPoint.exitLoad)

/-- The maps that the programs of the module read. -/
def LoadedMaps.syscallMaps (loaded : LoadedMaps syscallMaxOpCount 512) : SyscallMaps where
  filter := loaded.filter
  sysenterPointArgs := loaded.first
  sysexitPointArgs := loaded.second
  opList := loaded.opList
  argFilter := loaded.argFilter

/-- The maps of the system call module hold these points, and no others. -/
structure SyscallMaps.Loaded (maps : SyscallMaps) (m : OpManager) (points : List SyscallPoint) :
    Prop where
  enter : PointsIn m maps.opList maps.argFilter maps.sysenterPointArgs
    (points.map SyscallPoint.enterLoad)
  exit : PointsIn m maps.opList maps.argFilter maps.sysexitPointArgs
    (points.map SyscallPoint.exitLoad)

/-- What a successful start-up of the system call module has loaded. -/
theorem loaded_of_loadSyscalls {conf : LoadConfig} {range : GoRange u32 OpConfig} {m : OpManager}
    {points : List SyscallPoint} {loaded : LoadedMaps syscallMaxOpCount 512}
    (h : conf.loadSyscalls range m points = some loaded)
    (henter : ∀ p ∈ points, FiltersKnown conf.filters p.enterPointArgs)
    (hexit : ∀ p ∈ points, FiltersKnown conf.filters p.exitPointArgs) :
    loaded.syscallMaps.Loaded loaded.table points := by
  obtain ⟨enter, exit⟩ := pointsIn_of_loadMaps (by decide) (by decide) h
    (List.forall_mem_map.mpr henter) (List.forall_mem_map.mpr hexit)
  exact ⟨enter, exit⟩

end Stackplz
