import Stackplz.Basic.RuleChain
import Stackplz.Probe.Types

/-!
# Which tasks are traced

`should_trace` (`filtering.h`) asks one shared map, `common_list`, about eight kinds of
ids. `update_common_list` (`syscall.go`) stores an id of a list under the id plus the offset
of its list, in 32-bit arithmetic. Both sides are modelled here, and
`shouldTrace_eq_own_iff` says for which configurations and tasks the shared map answers as
eight separate lists would.
-/

set_option autoImplicit false

namespace Stackplz

/-! ## The configured lists -/

/-- The eight lists that share `common_list`. -/
inductive ListKind where
  | uidWhitelist | uidBlacklist | pidWhitelist | pidBlacklist
  | tidWhitelist | tidBlacklist | sysWhitelist | sysBlacklist
deriving DecidableEq, Repr

/-- The offset of a list in `common_list`. -/
def ListKind.start : ListKind → u32
  | uidWhitelist => uidWhitelistStart
  | uidBlacklist => uidBlacklistStart
  | pidWhitelist => pidWhitelistStart
  | pidBlacklist => pidBlacklistStart
  | tidWhitelist => tidWhitelistStart
  | tidBlacklist => tidBlacklistStart
  | sysWhitelist => sysWhitelistStart
  | sysBlacklist => sysBlacklistStart

/-- Every kind, in the order the lists are loaded. -/
def ListKind.all : List ListKind :=
  [uidWhitelist, uidBlacklist, pidWhitelist, pidBlacklist, tidWhitelist, tidBlacklist,
    sysWhitelist, sysBlacklist]

theorem ListKind.mem_all (k : ListKind) : k ∈ ListKind.all := by
  cases k <;> decide

/-- The id lists of `ModuleConfig`, as the command line fills them. -/
structure IdLists where
  items : ListKind → List u32

/-- `update_common_list`: store every item under itself plus `offset`; `none` is the panic
on a full map. -/
def updateCommonList (m : CommonList) (items : List u32) (offset : u32) : Option CommonList :=
  items.foldlM (fun m v => m.update (v + offset) (v + offset)) m

/-- The list part of `update_common_filter`, followed by the two system call lists that
`updateFilter` adds. -/
def IdLists.loadCommonList (cfg : IdLists) : Option CommonList :=
  ListKind.all.foldlM (fun m k => updateCommonList m (cfg.items k) k.start) BoundedMap.empty

/-! ## `should_trace` -/

/-- The maps `should_trace` reads. -/
structure FilterMaps where
  config : ConfigEntry
  threadFilter : ThreadFilterMap
  commonList : CommonList
  childParentMap : ChildParentMap
  commonFilter : Option CommonFilter

/-- The checks made before any id is looked up: the tracer itself and the thread name. -/
def threadNameVerdict (maps : FilterMaps) (context : EventContext) : Option Bool :=
  if maps.config.stackplzPid = context.pid then some false
  else
    match maps.threadFilter.lookup context.comm with
    | none => if maps.config.threadWhitelist = 1 then some false else none
    | some threadNameFlag =>
        if threadNameFlag = threadNameBlacklist then some false
        else if threadNameFlag = threadNameWhitelist then some true
        else none

def groupRoot : u32 := 1 <<< 1
def groupSystem : u32 := 1 <<< 2
def groupShell : u32 := 1 <<< 3
def groupApp : u32 := 1 <<< 4
def groupIso : u32 := 1 <<< 5

/-- The last checks: the uid groups of `common_filter`. -/
def uidGroupVerdict (maps : FilterMaps) (uid : u32) : Bool :=
  match maps.commonFilter with
  | none => false
  | some filter =>
      let inGroup (group : u32) := filter.traceUidGroup &&& group == group
      if inGroup groupRoot && uid == 0 then true
      else if inGroup groupSystem && uid == 1000 then true
      else if inGroup groupShell && uid == 2000 then true
      else if inGroup groupApp && decide (10000 ≤ uid) && decide (uid ≤ 19999) then true
      else if inGroup groupIso && decide (99000 ≤ uid) && decide (uid ≤ 99999) then true
      else false

/-- The checks of `should_trace` in order, where `hit k id` says whether list `k` answers
for `id`. -/
def shouldTraceBy (hit : ListKind → u32 → Bool) (maps : FilterMaps)
    (context : EventContext) : Bool :=
  match threadNameVerdict maps context with
  | some verdict => verdict
  | none =>
      if hit .tidBlacklist context.tid then false
      else if hit .tidWhitelist context.tid then true
      else if hit .pidBlacklist context.pid then false
      else if hit .pidWhitelist context.pid then true
      else if (maps.childParentMap.lookup context.pid).isSome then true
      else if hit .uidBlacklist context.uid then false
      else if hit .uidWhitelist context.uid then true
      else uidGroupVerdict maps context.uid

/-- A lookup in `common_list` for the id of one kind. -/
def CommonList.hit (m : CommonList) (k : ListKind) (id : u32) : Bool :=
  (m.lookup (k.start + id)).isSome

/-- `should_trace`: every list is asked through the shared map. -/
def shouldTrace (maps : FilterMaps) (context : EventContext) : Bool :=
  shouldTraceBy maps.commonList.hit maps context

/-- The lookup of `sysno_whitelist_key` in `raw_syscalls_sys_enter` and `_exit`. -/
def sysnoWhitelisted (maps : FilterMaps) (sysno : u32) : Bool :=
  maps.commonList.hit .sysWhitelist sysno

/-- The lookup of `sysno_blacklist_key`. -/
def sysnoBlacklisted (maps : FilterMaps) (sysno : u32) : Bool :=
  maps.commonList.hit .sysBlacklist sysno

/-! ## What the loaded map answers -/

/-- The id is in the list of its own kind. -/
def IdLists.own (cfg : IdLists) (k : ListKind) (id : u32) : Bool :=
  decide (id ∈ cfg.items k)

/-- Some id of another list is stored under the key that the lookup of `id` uses. -/
def IdLists.collides (cfg : IdLists) (k : ListKind) (id : u32) : Bool :=
  ListKind.all.any fun k' => decide (k' ≠ k) && decide (k.start + id - k'.start ∈ cfg.items k')

theorem hasKey_updateCommonList (items : List u32) (offset key : u32) :
    ∀ m m' : CommonList, updateCommonList m items offset = some m' →
      (m'.HasKey key ↔ m.HasKey key ∨ key - offset ∈ items) := by
  induction items with
  | nil =>
      intro m m' h
      obtain rfl : m = m' := by simpa [updateCommonList] using h
      simp
  | cons v items ih =>
      intro m m' h
      obtain ⟨m₁, hv, hrest⟩ : ∃ m₁, m.update (v + offset) (v + offset) = some m₁ ∧
          updateCommonList m₁ items offset = some m' := by
        simpa [updateCommonList, List.foldlM_cons, Option.bind_eq_some_iff] using h
      have hput : m₁ = m.put (v + offset) (v + offset) := (BoundedMap.put_of_update hv).symm
      have hkey : key = v + offset ↔ key - offset = v := by
        constructor
        · rintro rfl
          exact BitVec.add_sub_cancel v offset
        · rintro rfl
          exact (BitVec.sub_add_cancel key offset).symm
      rw [ih m₁ m' hrest, hput, BoundedMap.hasKey_put _ (BoundedMap.hasRoom_of_update hv),
        List.mem_cons, hkey]
      tauto

private theorem hasKey_loadKinds (cfg : IdLists) (key : u32) (kinds : List ListKind) :
    ∀ m m' : CommonList,
      kinds.foldlM (fun m k => updateCommonList m (cfg.items k) k.start) m = some m' →
      (m'.HasKey key ↔ m.HasKey key ∨ ∃ k ∈ kinds, key - k.start ∈ cfg.items k) := by
  induction kinds with
  | nil =>
      intro m m' h
      obtain rfl : m = m' := by simpa using h
      simp
  | cons k kinds ih =>
      intro m m' h
      obtain ⟨m₁, hk, hrest⟩ : ∃ m₁, updateCommonList m (cfg.items k) k.start = some m₁ ∧
          kinds.foldlM (fun m k => updateCommonList m (cfg.items k) k.start) m₁ = some m' := by
        simpa [List.foldlM_cons, Option.bind_eq_some_iff] using h
      rw [ih m₁ m' hrest, hasKey_updateCommonList _ _ key m m₁ hk]
      simp only [List.mem_cons, exists_eq_or_imp]
      tauto

/-- **The keys of the loaded map**: a key is present when taking some list's offset off it
leaves an id of that list. -/
theorem hasKey_loadCommonList {cfg : IdLists} {m : CommonList}
    (hload : cfg.loadCommonList = some m) (key : u32) :
    m.HasKey key ↔ ∃ k, key - k.start ∈ cfg.items k := by
  rw [hasKey_loadKinds cfg key _ _ _ hload]
  constructor
  · rintro (hempty | ⟨k, _, hk⟩)
    · exact absurd hempty (BoundedMap.hasKey_empty key)
    · exact ⟨k, hk⟩
  · rintro ⟨k, hk⟩
    exact Or.inr ⟨k, ListKind.mem_all k, hk⟩

/-- A lookup succeeds on the id's own account or through a collision. -/
theorem hit_loadCommonList {cfg : IdLists} {m : CommonList}
    (hload : cfg.loadCommonList = some m) (k : ListKind) (id : u32) :
    m.hit k id = (cfg.own k id || cfg.collides k id) := by
  have hown : k.start + id - k.start = id := by
    rw [BitVec.add_comm, BitVec.add_sub_cancel]
  rw [CommonList.hit, BoundedMap.lookup_isSome, Bool.eq_iff_iff, decide_eq_true_iff,
    hasKey_loadCommonList hload, Bool.or_eq_true]
  simp only [IdLists.own, IdLists.collides, List.any_eq_true, Bool.and_eq_true,
    decide_eq_true_iff]
  constructor
  · rintro ⟨k', hk'⟩
    by_cases hkk : k' = k
    · subst hkk
      rw [hown] at hk'
      exact Or.inl hk'
    · exact Or.inr ⟨k', ListKind.mem_all k', hkk, hk'⟩
  · rintro (hid | ⟨k', _, _, hk'⟩)
    · exact ⟨k, by rwa [hown]⟩
    · exact ⟨k', hk'⟩

/-! ## When the shared map answers as separate lists -/

/-- The list checks of `should_trace` as a chain of rules. -/
def IdLists.rules (cfg : IdLists) (maps : FilterMaps) (context : EventContext) :
    List (Rule Bool) :=
  let rule (k : ListKind) (id : u32) (verdict : Bool) : Rule Bool :=
    ⟨cfg.own k id, cfg.collides k id, verdict⟩
  [rule .tidBlacklist context.tid false, rule .tidWhitelist context.tid true,
    rule .pidBlacklist context.pid false, rule .pidWhitelist context.pid true,
    ⟨(maps.childParentMap.lookup context.pid).isSome, false, true⟩,
    rule .uidBlacklist context.uid false, rule .uidWhitelist context.uid true]

/-- A collision changes the verdict on this task: no check before the lists decides, and
the first lookup that finds anything finds an id of another kind, whose verdict is not the
one the later checks give on their own lists. -/
def IdLists.misleads (cfg : IdLists) (maps : FilterMaps) (context : EventContext) : Bool :=
  (threadNameVerdict maps context).isNone &&
    RuleChain.misled (uidGroupVerdict maps context.uid) (cfg.rules maps context)

private theorem shouldTraceBy_eq_firstMatch (cfg : IdLists) (maps : FilterMaps)
    (context : EventContext) (hit : ListKind → u32 → Bool) (matched : Rule Bool → Bool)
    (hchild : matched ⟨(maps.childParentMap.lookup context.pid).isSome, false, true⟩ =
      (maps.childParentMap.lookup context.pid).isSome)
    (hmatched : ∀ k id verdict, matched ⟨cfg.own k id, cfg.collides k id, verdict⟩ = hit k id)
    (hname : threadNameVerdict maps context = none) :
    shouldTraceBy hit maps context =
      RuleChain.firstMatch matched (uidGroupVerdict maps context.uid)
        (cfg.rules maps context) := by
  simp only [shouldTraceBy, hname, IdLists.rules, RuleChain.firstMatch, hmatched, hchild]

/-- The verdict agrees with the own lists exactly when no collision misleads it. -/
theorem shouldTrace_eq_own_iff {cfg : IdLists} {maps : FilterMaps}
    (hload : cfg.loadCommonList = some maps.commonList) (context : EventContext) :
    shouldTrace maps context = shouldTraceBy cfg.own maps context ↔
      cfg.misleads maps context = false := by
  cases hname : threadNameVerdict maps context with
  | some verdict => simp [shouldTrace, shouldTraceBy, IdLists.misleads, hname]
  | none =>
      have hcode : shouldTrace maps context = RuleChain.firstMatch (fun r => r.own || r.stray)
          (uidGroupVerdict maps context.uid) (cfg.rules maps context) :=
        shouldTraceBy_eq_firstMatch cfg maps context _ _ (by simp)
          (fun k id _ => (hit_loadCommonList hload k id).symm) hname
      have hown : shouldTraceBy cfg.own maps context = RuleChain.firstMatch Rule.own
          (uidGroupVerdict maps context.uid) (cfg.rules maps context) :=
        shouldTraceBy_eq_firstMatch cfg maps context _ _ rfl (fun _ _ _ => rfl) hname
      rw [hcode, hown, RuleChain.firstMatch_eq_iff]
      simp [IdLists.misleads, hname]

/-- One lookup agrees with the own list exactly when no other list answers for a missing
id. -/
theorem hit_eq_own_iff {cfg : IdLists} {m : CommonList}
    (hload : cfg.loadCommonList = some m) (k : ListKind) (id : u32) :
    m.hit k id = cfg.own k id ↔ (cfg.own k id = true ∨ cfg.collides k id = false) := by
  rw [hit_loadCommonList hload]
  cases cfg.own k id <;> cases cfg.collides k id <;> decide

/-- **When the shared list answers as eight lists.** For every configuration whose lists
fit into `common_list`, every task and every system call number: the verdict of
`should_trace` and both system call lookups are those of the separate lists exactly when no
collision misleads the verdict and none answers for a system call number that its own list
lacks. -/
theorem commonList_separate_iff (cfg : IdLists) (maps : FilterMaps)
    (hload : cfg.loadCommonList = some maps.commonList) (context : EventContext) (sysno : u32) :
    (shouldTrace maps context = shouldTraceBy cfg.own maps context ∧
      sysnoWhitelisted maps sysno = cfg.own .sysWhitelist sysno ∧
      sysnoBlacklisted maps sysno = cfg.own .sysBlacklist sysno) ↔
    (cfg.misleads maps context = false ∧
      (cfg.own .sysWhitelist sysno = true ∨ cfg.collides .sysWhitelist sysno = false) ∧
      (cfg.own .sysBlacklist sysno = true ∨ cfg.collides .sysBlacklist sysno = false)) := by
  rw [shouldTrace_eq_own_iff hload, sysnoWhitelisted, sysnoBlacklisted, hit_eq_own_iff hload,
    hit_eq_own_iff hload]

/-! ### Two configurations -/

/-- Ids for one list only. -/
def IdLists.single (kind : ListKind) (ids : List u32) : IdLists :=
  ⟨fun k => if k = kind then ids else []⟩

/-- Maps that hold the lists of `cfg` and otherwise filter nothing out. -/
def IdLists.toMaps (cfg : IdLists) : FilterMaps where
  config := ⟨1, 0⟩
  threadFilter := BoundedMap.empty
  commonList := cfg.loadCommonList.getD BoundedMap.empty
  childParentMap := BoundedMap.empty
  commonFilter := some ⟨0, traceCommon, 1⟩

/-- Tracing uid 10000 alone drops the thread 4880 of that uid: 4880 in the tid black list
and 10000 in the uid white list have the same key. -/
theorem commonList_not_separate :
    (IdLists.single .uidWhitelist [10000]).loadCommonList =
        some (IdLists.single .uidWhitelist [10000]).toMaps.commonList ∧
      shouldTrace (IdLists.single .uidWhitelist [10000]).toMaps
        ⟨4880, 4800, 10000, Vector.replicate 16 0⟩ = false ∧
      shouldTraceBy (IdLists.single .uidWhitelist [10000]).own
        (IdLists.single .uidWhitelist [10000]).toMaps
        ⟨4880, 4800, 10000, Vector.replicate 16 0⟩ = true := by
  refine ⟨rfl, by decide, by decide⟩

/-- The same configuration answers for the thread 4881 as separate lists would. -/
theorem commonList_separate_thread4881 :
    shouldTrace (IdLists.single .uidWhitelist [10000]).toMaps
        ⟨4881, 4800, 10000, Vector.replicate 16 0⟩ =
      shouldTraceBy (IdLists.single .uidWhitelist [10000]).own
        (IdLists.single .uidWhitelist [10000]).toMaps
        ⟨4881, 4800, 10000, Vector.replicate 16 0⟩ ∧
    sysnoWhitelisted (IdLists.single .uidWhitelist [10000]).toMaps 56 =
      (IdLists.single .uidWhitelist [10000]).own .sysWhitelist 56 ∧
    sysnoBlacklisted (IdLists.single .uidWhitelist [10000]).toMaps 56 =
      (IdLists.single .uidWhitelist [10000]).own .sysBlacklist 56 :=
  (commonList_separate_iff (IdLists.single .uidWhitelist [10000]) _ rfl
    ⟨4881, 4800, 10000, Vector.replicate 16 0⟩ 56).mpr (by decide)

end Stackplz
