import Mathlib.Data.Finset.Image
import Mathlib.Data.List.GetD
import Stackplz.Probe.Filtering
import Stackplz.User.FilterHelper

/-!
# Thread names

`Parse_Namelist` and `DefaultThreadBlacklist` (`config_module.go`), `update_thread_filter`
(`stack.go`, `syscall.go`) and the first stage of `should_trace`. The names of three lists are
written into one map under the name filled up with zeros, the white list last:

* `updateThreadFilter_isSome_iff` — which lists the map takes;
* `lookup_threadFilter` — what the probe finds under the name of a task;
* `shouldTrace_threadNames` — what this makes of `should_trace`.
-/

set_option autoImplicit false

namespace Stackplz

/-! ## The lists -/

/-- `MAX_COUNT`. -/
def maxCount : Nat := 1024

def comma : u8 := 0x2c

/-- `Parse_Namelist`; `none` is a panic. -/
def parseNamelist (nameList : Bytes) : Option (List Bytes) :=
  if nameList = [] then some []
  else
    let items := nameList.splitOn comma
    if maxCount < items.length then none else some items

/-- The fields of `ModuleConfig` for thread names. -/
structure ThreadNames where
  tNameWhitelist : List Bytes
  tNameBlacklist : List Bytes
  fullTName : Bool

namespace ThreadNames

/-- The options `--tname`, `--no-tname` and `--full-tname`. -/
def parse (tName noTName : Bytes) (fullTName : Bool) : Option ThreadNames := do
  let tNameWhitelist ← parseNamelist tName
  let tNameBlacklist ← parseNamelist noTName
  return ⟨tNameWhitelist, tNameBlacklist, fullTName⟩

/-- `DefaultThreadBlacklist`. -/
def defaultThreadBlacklist (conf : ThreadNames) : List Bytes :=
  if conf.fullTName then []
  else
    ["Profile Saver", "Runtime worker", "ReferenceQueueD", "FinalizerDaemon",
      "FinalizerWatchd", "HeapTaskDaemon", "perfetto_hprof_", "RenderThread",
      "FinalizerDaemon", "RxCachedThreadS", "mali-cmar-backe", "mali-utility-wo",
      "mali-mem-purge", "mali-hist-dump", "mali-event-hand", "hwuiTask0", "hwuiTask1",
      "NDK MediaCodec_"].map ascii

/-- `GetConfigMap`. -/
def getConfigMap (conf : ThreadNames) (selfPid : u32) : ConfigEntry :=
  ⟨selfPid, if conf.tNameWhitelist.length > 0 then 1 else 0⟩

end ThreadNames

/-! ## The map -/

/-- A name copied into a zeroed `ThreadFilter`. -/
def threadKey (name : Bytes) : ThreadName := Vector.ofFn fun i => name.getD i 0

/-- One loop of `update_thread_filter`; `none` is a panic. -/
def updateThreadNames (flag : u32) (m : ThreadFilterMap) (names : List Bytes) :
    Option ThreadFilterMap :=
  names.foldlM (fun m v => if v.length > 16 then none else m.update (threadKey v) flag) m

/-- `update_thread_filter`. -/
def ThreadNames.updateThreadFilter (conf : ThreadNames) : Option ThreadFilterMap := do
  let m ← updateThreadNames threadNameBlacklist .empty conf.defaultThreadBlacklist
  let m ← updateThreadNames threadNameBlacklist m conf.tNameBlacklist
  updateThreadNames threadNameWhitelist m conf.tNameWhitelist

namespace ThreadNames

/-- The names that are written, in order, with their flags. -/
def entries (conf : ThreadNames) : List (Bytes × u32) :=
  (conf.defaultThreadBlacklist ++ conf.tNameBlacklist).map (fun v => (v, threadNameBlacklist)) ++
    conf.tNameWhitelist.map fun v => (v, threadNameWhitelist)

/-- No name is longer than the field. -/
def NamesFit (conf : ThreadNames) : Prop := ∀ e ∈ conf.entries, e.1.length ≤ 16

/-- No name contains the byte that ends a name in the kernel. -/
def NulFree (conf : ThreadNames) : Prop := ∀ e ∈ conf.entries, 0 ∉ e.1

end ThreadNames

/-! ## Keys -/

theorem toList_threadKey {name : Bytes} (h : name.length ≤ 16) :
    (threadKey name).toList = name ++ List.replicate (16 - name.length) 0 := by
  apply List.ext_getElem
  · simp [h]
  · intro i hi _
    rw [Vector.length_toList] at hi
    have hkey : (threadKey name)[i] = name.getD i 0 := Vector.getElem_ofFn hi
    rw [Vector.getElem_toList, hkey]
    by_cases hlt : i < name.length
    · rw [List.getElem_append_left hlt, List.getD_eq_getElem _ _ hlt]
    · rw [List.getElem_append_right (by omega), List.getElem_replicate,
        List.getD_eq_default _ _ (by omega)]

/-- Names that fit are told apart by their keys: the key is the name up to its first zero. -/
theorem threadKey_inj {a b : Bytes} (ha : a.length ≤ 16) (hb : b.length ≤ 16) (ha0 : 0 ∉ a)
    (hb0 : 0 ∉ b) : threadKey a = threadKey b ↔ a = b := by
  have hname {name : Bytes} (h : name.length ≤ 16) (h0 : 0 ∉ name) :
      (threadKey name).toList.takeWhile (· ≠ 0) = name := by
    rw [toList_threadKey h, List.takeWhile_append_of_pos]
    · simp
    · intro b hb
      have hne : b ≠ 0 := fun heq => h0 (heq ▸ hb)
      simpa using hne
  constructor
  · intro h
    calc a = (threadKey a).toList.takeWhile (· ≠ 0) := (hname ha ha0).symm
      _ = (threadKey b).toList.takeWhile (· ≠ 0) := by rw [h]
      _ = b := hname hb hb0
  · intro h
    rw [h]

section Loaded

variable {conf : ThreadNames}

/-- A loop is a run of map updates under the keys of its names. -/
theorem updateThreadNames_eq_some {flag : u32} {names : List Bytes} {m m' : ThreadFilterMap} :
    updateThreadNames flag m names = some m' ↔
      (∀ v ∈ names, v.length ≤ 16) ∧
        m.updateAll (fun e => threadKey e.1) Prod.snd (names.map fun v => (v, flag)) =
          some m' := by
  induction names generalizing m with
  | nil => simp [updateThreadNames, BoundedMap.updateAll]
  | cons v names ih =>
      unfold updateThreadNames BoundedMap.updateAll at ih ⊢
      rw [List.foldlM_cons, List.map_cons, List.foldlM_cons, List.forall_mem_cons]
      by_cases hv : v.length ≤ 16
      · rw [if_neg (by omega)]
        cases m.update (threadKey v) flag with
        | none => simp
        | some mid => simp [ih, hv]
      · simp [hv, show v.length > 16 by omega]

/-- The three loops are one run of updates. -/
theorem updateThreadFilter_eq_some {m : ThreadFilterMap} :
    conf.updateThreadFilter = some m ↔
      conf.NamesFit ∧
        BoundedMap.empty.updateAll (fun e => threadKey e.1) Prod.snd conf.entries = some m := by
  have hfit (flag : u32) (names : List Bytes) :
      (∀ e ∈ names.map fun v => (v, flag), e.1.length ≤ 16) ↔ ∀ v ∈ names, v.length ≤ 16 :=
    List.forall_mem_map
  unfold ThreadNames.updateThreadFilter ThreadNames.NamesFit ThreadNames.entries
  simp only [Option.bind_eq_bind, Option.bind_eq_some_iff, updateThreadNames_eq_some,
    List.map_append, BoundedMap.updateAll_append_eq_some, List.forall_mem_append, hfit]
  constructor
  · rintro ⟨first, ⟨hdefault, hfirst⟩, mid, ⟨hblack, hmid⟩, hwhite, hlast⟩
    exact ⟨⟨⟨hdefault, hblack⟩, hwhite⟩, mid, ⟨first, hfirst, hmid⟩, hlast⟩
  · rintro ⟨⟨⟨hdefault, hblack⟩, hwhite⟩, mid, ⟨first, hfirst, hmid⟩, hlast⟩
    exact ⟨first, ⟨hdefault, hfirst⟩, mid, ⟨hblack, hmid⟩, hwhite, hlast⟩

/-- **Which names are loaded.** The map takes the lists exactly when no name is longer than a
key and there are no more than 40 different names. -/
theorem updateThreadFilter_isSome_iff (hnul : conf.NulFree) :
    conf.updateThreadFilter.isSome ↔
      conf.NamesFit ∧ (conf.entries.map Prod.fst).dedup.length ≤ 40 := by
  rw [Option.isSome_iff_exists]
  simp only [updateThreadFilter_eq_some, exists_and_left]
  refine and_congr_right fun hfit => ?_
  rw [← Option.isSome_iff_exists, BoundedMap.updateAll_empty_isSome_iff]
  have hinj : Set.InjOn threadKey ↑(conf.entries.map Prod.fst).toFinset := by
    intro a ha b hb hkey
    rw [Finset.mem_coe, List.mem_toFinset] at ha hb
    obtain ⟨e, he, rfl⟩ := List.mem_map.mp ha
    obtain ⟨f, hf, rfl⟩ := List.mem_map.mp hb
    exact (threadKey_inj (hfit e he) (hfit f hf) (hnul e he) (hnul f hf)).mp hkey
  have hcount : (conf.entries.map fun e => threadKey e.1).dedup.length =
      (conf.entries.map Prod.fst).dedup.length := by
    calc (conf.entries.map fun e => threadKey e.1).dedup.length
        = ((conf.entries.map Prod.fst).map threadKey).toFinset.card := by
          rw [List.card_toFinset, List.map_map, Function.comp_def]
      _ = ((conf.entries.map Prod.fst).toFinset.image threadKey).card := by
          congr 1
          ext key
          simp
      _ = (conf.entries.map Prod.fst).dedup.length := by
          rw [Finset.card_image_of_injOn hinj, List.card_toFinset]
  rw [hcount]

/-- What the probe finds under the name of a task: the white list was written last. -/
theorem lookup_threadFilter {m : ThreadFilterMap} (hload : conf.updateThreadFilter = some m)
    (hnul : conf.NulFree) {name : Bytes} (hname : name.length ≤ 16) (hname0 : 0 ∉ name) :
    m.lookup (threadKey name) =
      if name ∈ conf.tNameWhitelist then some threadNameWhitelist
      else if name ∈ conf.defaultThreadBlacklist ++ conf.tNameBlacklist then
        some threadNameBlacklist
      else none := by
  obtain ⟨hfit, hupdates⟩ := updateThreadFilter_eq_some.mp hload
  obtain ⟨mid, hblack, hwhite⟩ := BoundedMap.updateAll_append_eq_some.mp hupdates
  have hkey : ∀ e ∈ conf.entries, threadKey e.1 = threadKey name → e.1 = name := fun e he =>
    (threadKey_inj (hfit e he) hname (hnul e he) hname0).mp
  -- a list under one flag answers for its own names, and for these only
  have hlist {flag : u32} {names : List Bytes} {before after : ThreadFilterMap}
      (hnames : ∀ v ∈ names, (v, flag) ∈ conf.entries)
      (h : before.updateAll (fun e => threadKey e.1) Prod.snd (names.map fun v => (v, flag)) =
        some after) :
      after.lookup (threadKey name) =
        if name ∈ names then some flag else before.lookup (threadKey name) := by
    by_cases hmem : name ∈ names
    · obtain ⟨e, he, _, hlookup⟩ :=
        BoundedMap.lookup_updateAll_of_mem h (List.mem_map_of_mem (f := fun v => (v, flag)) hmem)
      obtain ⟨v, _, rfl⟩ := List.mem_map.mp he
      rw [if_pos hmem, hlookup]
    · rw [if_neg hmem]
      refine BoundedMap.lookup_updateAll_of_not_mem h ?_
      rw [List.map_map, List.mem_map]
      rintro ⟨v, hv, heq⟩
      exact hmem (hkey (v, flag) (hnames v hv) heq ▸ hv)
  rw [hlist (fun v hv => List.mem_append_right _ (List.mem_map_of_mem hv)) hwhite,
    hlist (fun v hv => List.mem_append_left _ (List.mem_map_of_mem hv)) hblack,
    BoundedMap.lookup_empty]

/-! ## The verdict -/

/-- The maps without thread names. -/
def FilterMaps.withoutNames (maps : FilterMaps) : FilterMaps :=
  { maps with config := { maps.config with threadWhitelist := 0 }, threadFilter := .empty }

/-- **Thread names come first.** For every task, under the name that the kernel has for it, the
white list decides before every other list, then the two black lists; a thread of neither is
dropped when there is a white list, and otherwise left to the ids. -/
theorem shouldTrace_threadNames {maps : FilterMaps} {selfPid : u32}
    (hload : conf.updateThreadFilter = some maps.threadFilter)
    (hconfig : maps.config = conf.getConfigMap selfPid) (hnul : conf.NulFree)
    (context : EventContext) {name : Bytes} (hname : name.length < 16) (hname0 : 0 ∉ name)
    (hcomm : context.comm = threadKey name) :
    shouldTrace maps context =
      if selfPid = context.pid then false
      else if name ∈ conf.tNameWhitelist then true
      else if name ∈ conf.defaultThreadBlacklist ++ conf.tNameBlacklist then false
      else if conf.tNameWhitelist ≠ [] then false
      else shouldTrace maps.withoutNames context := by
  have hlookup := lookup_threadFilter hload hnul hname.le hname0
  rw [← hcomm] at hlookup
  have hpid : maps.config.stackplzPid = selfPid := congrArg ConfigEntry.stackplzPid hconfig
  by_cases hself : selfPid = context.pid
  · have hverdict : threadNameVerdict maps context = some false := by
      rw [threadNameVerdict, hpid, if_pos hself]
    rw [shouldTrace, shouldTraceBy, hverdict, if_pos hself]
  · have hnone : threadNameVerdict maps.withoutNames context = none := by
      simp [threadNameVerdict, FilterMaps.withoutNames, hpid, hself]
    rw [if_neg hself, shouldTrace, shouldTrace, shouldTraceBy, shouldTraceBy, hnone,
      threadNameVerdict, hpid, if_neg hself, hlookup]
    -- a name of both lists has the flag of the white list, which is written last
    by_cases hwhite : name ∈ conf.tNameWhitelist
    · simp [hwhite, threadNameWhitelist, threadNameBlacklist]
    · by_cases hblack : name ∈ conf.defaultThreadBlacklist ++ conf.tNameBlacklist
      · simp only [if_neg hwhite, if_pos hblack, threadNameBlacklist, if_true]
      · simp only [if_neg hwhite, if_neg hblack]
        have hflag : maps.config.threadWhitelist = 1 ↔ conf.tNameWhitelist ≠ [] := by
          rw [hconfig]
          simp [ThreadNames.getConfigMap, List.length_pos_iff]
        by_cases hlist : conf.tNameWhitelist ≠ []
        · rw [if_pos (hflag.mpr hlist), if_pos hlist]
        · rw [if_neg fun h => hlist (hflag.mp h), if_neg hlist]
          rfl

end Loaded

/-! ## The options -/

/-- The options as they reach the maps; `none` is a panic. -/
def loadThreadNames (selfPid : u32) (tName noTName : Bytes) (fullTName : Bool) :
    Option (ConfigEntry × ThreadFilterMap) := do
  let conf ← ThreadNames.parse tName noTName fullTName
  let threadFilter ← conf.updateThreadFilter
  return (conf.getConfigMap selfPid, threadFilter)

/-- A name that can be given on the command line. -/
structure IsThreadName (name : Bytes) : Prop where
  nonempty : name ≠ []
  comma : comma ∉ name
  nul : 0 ∉ name

/-- The names of an option, joined by commas. -/
def joinNames (names : List Bytes) : Bytes := [comma].intercalate names

theorem parseNamelist_joinNames {names : List Bytes} (hnames : ∀ v ∈ names, IsThreadName v) :
    parseNamelist (joinNames names) = if names.length ≤ maxCount then some names else none := by
  cases names with
  | nil => rfl
  | cons v vs =>
      have hsplit : (joinNames (v :: vs)).splitOn comma = v :: vs :=
        List.splitOn_intercalate comma (fun w hw => (hnames w hw).comma) (List.cons_ne_nil v vs)
      have hne : joinNames (v :: vs) ≠ [] := by
        intro hnil
        have hfirst : [] = v := by
          rw [hnil] at hsplit
          exact (List.cons.inj hsplit).1
        exact (hnames v List.mem_cons_self).nonempty hfirst.symm
      rw [parseNamelist, if_neg hne]
      dsimp only
      rw [hsplit]
      by_cases hlen : (v :: vs).length ≤ maxCount
      · rw [if_neg (by omega), if_pos hlen]
      · rw [if_pos (by omega), if_neg hlen]

theorem nul_defaultThreadBlacklist (conf : ThreadNames) :
    ∀ v ∈ conf.defaultThreadBlacklist, 0 ∉ v := by
  unfold ThreadNames.defaultThreadBlacklist
  cases conf.fullTName with
  | true => simp
  | false => decide

section Options

variable {white black : List Bytes}

theorem nulFree_of_names (hwhite : ∀ v ∈ white, IsThreadName v)
    (hblack : ∀ v ∈ black, IsThreadName v) (fullTName : Bool) :
    ThreadNames.NulFree ⟨white, black, fullTName⟩ := by
  intro e he
  rcases List.mem_append.mp he with he | he
  · obtain ⟨v, hv, rfl⟩ := List.mem_map.mp he
    rcases List.mem_append.mp hv with hv | hv
    · exact nul_defaultThreadBlacklist _ v hv
    · exact (hblack v hv).nul
  · obtain ⟨v, hv, rfl⟩ := List.mem_map.mp he
    exact (hwhite v hv).nul

/-- What the options load, by what they name. -/
theorem loadThreadNames_eq_some (hwhite : ∀ v ∈ white, IsThreadName v)
    (hblack : ∀ v ∈ black, IsThreadName v) {fullTName : Bool} {selfPid : u32}
    {config : ConfigEntry} {threadFilter : ThreadFilterMap} :
    loadThreadNames selfPid (joinNames white) (joinNames black) fullTName =
        some (config, threadFilter) ↔
      white.length ≤ maxCount ∧ black.length ≤ maxCount ∧
        config = ThreadNames.getConfigMap ⟨white, black, fullTName⟩ selfPid ∧
        ThreadNames.updateThreadFilter ⟨white, black, fullTName⟩ = some threadFilter := by
  unfold loadThreadNames ThreadNames.parse
  rw [parseNamelist_joinNames hwhite, parseNamelist_joinNames hblack]
  by_cases hw : white.length ≤ maxCount
  · by_cases hb : black.length ≤ maxCount
    · simp only [hw, hb, if_true, true_and, Option.bind_eq_bind, Option.bind_some,
        Option.bind_eq_some_iff, Option.pure_def, Option.some.injEq, Prod.mk.injEq]
      constructor
      · rintro ⟨m, hm, rfl, rfl⟩
        exact ⟨rfl, hm⟩
      · rintro ⟨rfl, hm⟩
        exact ⟨threadFilter, hm, rfl, rfl⟩
    · simp [hw, hb]
  · simp [hw]

/-- **The thread name options.** For all names on the two options, loading them succeeds
exactly when there are not too many and none is too long; then, in every process and for every
task, a name of the white list is traced whatever the ids say, a name of the black lists is
not, and with a white list nothing else is. -/
theorem threadNameOptions_decide (hwhite : ∀ v ∈ white, IsThreadName v)
    (hblack : ∀ v ∈ black, IsThreadName v) (fullTName : Bool) (selfPid : u32) :
    let conf : ThreadNames := ⟨white, black, fullTName⟩
    let loaded := loadThreadNames selfPid (joinNames white) (joinNames black) fullTName
    (loaded.isSome ↔ white.length ≤ maxCount ∧ black.length ≤ maxCount ∧ conf.NamesFit ∧
      (conf.entries.map Prod.fst).dedup.length ≤ 40) ∧
    ∀ maps : FilterMaps, loaded = some (maps.config, maps.threadFilter) →
      ∀ (context : EventContext) (name : Bytes), name.length < 16 → 0 ∉ name →
        context.comm = threadKey name →
        shouldTrace maps context =
          if selfPid = context.pid then false
          else if name ∈ white then true
          else if name ∈ conf.defaultThreadBlacklist ++ black then false
          else if white ≠ [] then false
          else shouldTrace maps.withoutNames context := by
  intro conf loaded
  have hnul : conf.NulFree := nulFree_of_names hwhite hblack fullTName
  refine ⟨?_, fun maps hload context name hname hname0 hcomm => ?_⟩
  · rw [← updateThreadFilter_isSome_iff hnul, Option.isSome_iff_exists, Option.isSome_iff_exists]
    constructor
    · rintro ⟨⟨config, threadFilter⟩, hload⟩
      obtain ⟨hw, hb, _, hfilter⟩ := (loadThreadNames_eq_some hwhite hblack).mp hload
      exact ⟨hw, hb, threadFilter, hfilter⟩
    · rintro ⟨hw, hb, threadFilter, hfilter⟩
      exact ⟨(conf.getConfigMap selfPid, threadFilter),
        (loadThreadNames_eq_some hwhite hblack).mpr ⟨hw, hb, rfl, hfilter⟩⟩
  · obtain ⟨_, _, hconfig, hfilter⟩ := (loadThreadNames_eq_some hwhite hblack).mp hload
    exact shouldTrace_threadNames hfilter hconfig hnul context hname hname0 hcomm

end Options

/-- A name that is on both options is traced. -/
theorem threadNameOptions_decide_both :
    ∃ maps : FilterMaps,
      loadThreadNames 7 (joinNames [ascii "main"]) (joinNames [ascii "main"]) false =
        some (maps.config, maps.threadFilter) ∧
      shouldTrace maps ⟨42, 42, 1000, threadKey (ascii "main")⟩ = true := by
  have hmain : ∀ v ∈ [ascii "main"], IsThreadName v := by
    intro v hv
    rw [List.mem_singleton.mp hv]
    exact ⟨by decide, by decide, by decide⟩
  obtain ⟨hsome, hdecide⟩ := threadNameOptions_decide hmain hmain false 7
  obtain ⟨loaded, hload⟩ := Option.isSome_iff_exists.mp
    (hsome.mpr ⟨by decide, by decide, by unfold ThreadNames.NamesFit; decide, by decide +kernel⟩)
  let maps : FilterMaps :=
    ⟨loaded.1, loaded.2, .empty, .empty, some ⟨0, traceCommon, 0⟩⟩
  refine ⟨maps, hload, ?_⟩
  rw [hdecide maps hload _ (ascii "main") (by decide) (by decide) rfl, if_neg (by decide),
    if_pos (List.mem_singleton_self _)]

end Stackplz
