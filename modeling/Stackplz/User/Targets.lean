import Stackplz.User.NumReadBack
import Stackplz.User.Startup

/-!
# Targets

The options that say whom to trace (`persistentPreRunEFunc`, `root.go`): six lists of ids, which
`Parse_Idlist` reads, and `--name`, whose items are groups of uids or packages. A package adds its
uid and the pids of its processes to the lists, a group adds a bit to the common filter. The lists
and the filter are loaded into the maps that `should_trace` asks:

* `parseIdlist_joinIds` — the ids of an option are those that are written on it;
* `parseTargets_eq` — which targets the options select, and when start-up refuses them;
* `targetOptions_decide` — what the probe makes of every task, said in terms of the options.
-/

set_option autoImplicit false

namespace Stackplz

/-! ## The options -/

/-- `Parse_Idlist`; `none` is a panic. -/
def parseIdlist (idList : Bytes) : Option (List u32) :=
  if idList = [] then some []
  else
    let items := idList.splitOn comma
    if maxCount < items.length then none
    else items.mapM fun v => (Text.parseUint (asText v) 10 32).map (BitVec.ofNat 32)

/-- The groups of uids that can be traced. -/
inductive UidGroup where
  | root | system | shell | app | iso
deriving DecidableEq

/-- The bit of a group. -/
def UidGroup.bit : UidGroup → u32
  | root => groupRoot
  | system => groupSystem
  | shell => groupShell
  | app => groupApp
  | iso => groupIso

def groupNone : u32 := 1 <<< 0

/-- The cases of the `switch` over the items of `--name` that are groups. -/
def groupOf (name : Bytes) : Option UidGroup :=
  match String.ofList (asText name) with
  | "root" => some .root
  | "system" => some .system
  | "shell" => some .shell
  | "app" => some .app
  | "iso" => some .iso
  | _ => none

structure PackageInfo where
  name : Bytes
  uid : u32

/-- What start-up finds out about the device. -/
structure Device where
  /-- `Get_PackageInfos`. -/
  packages : List PackageInfo
  /-- `FindUidByPid`; `none` is a panic. -/
  uidByPid : u32 → Option u32
  /-- `FindPidByName`; `none` is a panic. -/
  pidByName : Bytes → Option (List u32)
  /-- Whether `FindLibPaths` can read the maps of a process. -/
  libPaths : u32 → Bool
  /-- Whether `addLibPath` finds the path of a package; it panics otherwise. -/
  addLibPath : Bytes → Bool

/-- `FindPackageByName`. -/
def Device.findPackageByName (device : Device) (name : Bytes) : Option PackageInfo :=
  device.packages.find? fun item => item.name == name

/-- `FindPackageByUid`. -/
def Device.findPackageByUid (device : Device) (uid : u32) : Option PackageInfo :=
  device.packages.find? fun item => item.uid == uid

/-- The fields of `ModuleConfig` for targets. -/
structure Targets where
  lists : IdLists
  traceGroup : u32

/-- Ids appended to the lists of pids and uids. -/
def IdLists.append (lists : IdLists) (pids uids : List u32) : IdLists where
  items
    | .pidWhitelist => lists.items .pidWhitelist ++ pids
    | .uidWhitelist => lists.items .uidWhitelist ++ uids
    | k => lists.items k

namespace Device

variable (device : Device)

/-- The round of the loop over `PidWhitelist`; `false` is an error or a panic. -/
def checkPid (pid : u32) : Bool :=
  match device.uidByPid pid with
  | none => false
  | some uid =>
      match device.findPackageByUid uid with
      | none => true
      | some info => device.addLibPath info.name && device.libPaths pid

/-- The round of the loop over `UidWhitelist`. -/
def checkUid (uid : u32) : Bool :=
  if uid == 0 || uid == 1000 || uid == 2000 then true
  else
    match device.findPackageByUid uid with
    | none => false
    | some info => device.addLibPath info.name

/-- The round of the loop over the items of `--name`; `none` is an error or a panic. -/
def addName (t : Targets) (name : Bytes) : Option Targets :=
  if name = [] then some t
  else
    match groupOf name with
    | some group => some { t with traceGroup := t.traceGroup ||| group.bit }
    | none => do
        let info ← device.findPackageByName name
        let pids ← device.pidByName name
        if !pids.all device.libPaths then none
        else if !device.addLibPath name then none
        else
          some { t with lists := t.lists.append pids (if info.uid ≠ 1000 then [info.uid] else []) }

end Device

/-- The texts of the options. -/
structure TargetOptions where
  uid : Bytes
  noUid : Bytes
  pid : Bytes
  noPid : Bytes
  tid : Bytes
  noTid : Bytes
  name : Bytes

/-- The lists of ids that the options hold. -/
def TargetOptions.parseLists (options : TargetOptions) : Option IdLists := do
  let uids ← parseIdlist options.uid
  let noUids ← parseIdlist options.noUid
  let pids ← parseIdlist options.pid
  let noPids ← parseIdlist options.noPid
  let tids ← parseIdlist options.tid
  let noTids ← parseIdlist options.noTid
  return ⟨fun
    | .uidWhitelist => uids
    | .uidBlacklist => noUids
    | .pidWhitelist => pids
    | .pidBlacklist => noPids
    | .tidWhitelist => tids
    | .tidBlacklist => noTids
    | _ => []⟩

/-- `persistentPreRunEFunc`, up to the last target; `none` is an error or a panic. -/
def Device.parseTargets (device : Device) (options : TargetOptions) : Option Targets := do
  let lists ← options.parseLists
  if !(lists.items .pidWhitelist).all device.checkPid then none
  else if !(lists.items .uidWhitelist).all device.checkUid then none
  else (options.name.splitOn comma).foldlM device.addName ⟨lists, groupNone⟩

/-! ## Ids on an option -/

/-- An id as it is written on an option. -/
def idText (id : u32) : Bytes := shownBytes (NumFormat.print .dec id.toNat)

/-- The ids of an option, joined by commas. -/
def joinIds (ids : List u32) : Bytes := joinNames (ids.map idText)

theorem parseUint_idText (id : u32) :
    (Text.parseUint (asText (idText id)) 10 32).map (BitVec.ofNat 32) = some id := by
  have hne : Nat.toDigits 10 id.toNat ≠ [] := List.ne_nil_of_length_pos Nat.length_toDigits_pos
  have hprint : NumFormat.print .dec id.toNat = Nat.toDigits 10 id.toNat := formatInt_natCast _ _
  have hread : Text.parseUint (Nat.toDigits 10 id.toNat) 10 32 = some id.toNat := by
    unfold Text.parseUint
    rw [if_neg hne, if_neg (by omega)]
    exact Numeral.parseDigits_toDigits (by omega) (by omega) id.isLt
  rw [idText, asText_shownBytes, hprint, hread, Option.map_some, BitVec.ofNat_toNat,
    BitVec.setWidth_eq]

/-- A text that is shown for an id has digits only. -/
theorem isThreadName_idText (id : u32) : IsThreadName (idText id) := by
  have hprint : NumFormat.print .dec id.toNat = Nat.toDigits 10 id.toNat := formatInt_natCast _ _
  have hbytes : ∀ b ∈ idText id, b ≠ comma ∧ b ≠ 0 := by
    have hall : ∀ d < 10, BitVec.ofNat 8 (Nat.digitChar d).toNat ≠ comma ∧
        BitVec.ofNat 8 (Nat.digitChar d).toNat ≠ 0 := by decide
    intro b hb
    rw [idText, hprint] at hb
    obtain ⟨c, hc, rfl⟩ := List.mem_map.mp hb
    obtain ⟨d, hd, rfl⟩ := Numeral.mem_toDigits (by omega) hc
    exact hall d hd
  refine ⟨?_, fun h => (hbytes _ h).1 rfl, fun h => (hbytes _ h).2 rfl⟩
  intro hnil
  rw [idText, hprint] at hnil
  have hlen := congrArg List.length hnil
  have hpos : 0 < (Nat.toDigits 10 id.toNat).length := Nat.length_toDigits_pos
  unfold shownBytes at hlen
  rw [List.length_map, List.length_nil] at hlen
  omega

/-- A list of ids is cut at the commas like a list of names. -/
theorem parseIdlist_eq (idList : Bytes) :
    parseIdlist idList = (parseNamelist idList).bind fun items =>
      items.mapM fun v => (Text.parseUint (asText v) 10 32).map (BitVec.ofNat 32) := by
  unfold parseIdlist parseNamelist
  split
  · rfl
  · dsimp only
    split
    · rfl
    · rfl

/-- **The ids of an option are those that are written on it.** -/
theorem parseIdlist_joinIds (ids : List u32) :
    parseIdlist (joinIds ids) = if ids.length ≤ maxCount then some ids else none := by
  have hnames : ∀ v ∈ ids.map idText, IsThreadName v :=
    List.forall_mem_map.mpr fun id _ => isThreadName_idText id
  have hparse (ids : List u32) : (ids.map idText).mapM (fun v =>
      (Text.parseUint (asText v) 10 32).map (BitVec.ofNat 32)) = some ids := by
    induction ids with
    | nil => rfl
    | cons id ids ih =>
        rw [List.map_cons, List.mapM_cons, parseUint_idText, ih]
        rfl
  rw [parseIdlist_eq, joinIds, parseNamelist_joinNames hnames, List.length_map]
  split
  · exact hparse ids
  · rfl

/-! ## The names -/

namespace Device

variable {device : Device}

/-- The processes that an item of `--name` adds. -/
def pidsOf (device : Device) (name : Bytes) : List u32 :=
  if name = [] || (groupOf name).isSome then [] else (device.pidByName name).getD []

/-- The uid that an item adds: the one of a package, unless it is that of the system. -/
def uidsOf (device : Device) (name : Bytes) : List u32 :=
  if name = [] || (groupOf name).isSome then []
  else
    match device.findPackageByName name with
    | some info => if info.uid ≠ 1000 then [info.uid] else []
    | none => []

/-- The bit that an item adds. -/
def bitOf (name : Bytes) : u32 :=
  if name = [] then 0 else ((groupOf name).map UidGroup.bit).getD 0

/-- An item of `--name` that start-up accepts. -/
def Accepts (device : Device) (name : Bytes) : Prop :=
  name = [] ∨ (groupOf name).isSome ∨
    (device.findPackageByName name).isSome ∧
      ∃ pids, device.pidByName name = some pids ∧ (∀ pid ∈ pids, device.libPaths pid = true) ∧
        device.addLibPath name = true

end Device

theorem IdLists.append_nil (lists : IdLists) : lists.append [] [] = lists := by
  unfold append
  congr 1
  funext k
  cases k <;> simp

theorem IdLists.append_append (lists : IdLists) (pids uids pids' uids' : List u32) :
    (lists.append pids uids).append pids' uids' = lists.append (pids ++ pids') (uids ++ uids') := by
  unfold append
  congr 1
  funext k
  cases k <;> simp

section Names

variable {device : Device}

/-- One item adds its processes, its uid and its bit. -/
theorem addName_eq_some {t t' : Targets} {name : Bytes} :
    device.addName t name = some t' ↔
      device.Accepts name ∧
        ⟨t.lists.append (device.pidsOf name) (device.uidsOf name),
          t.traceGroup ||| Device.bitOf name⟩ = t' := by
  unfold Device.addName Device.Accepts Device.pidsOf Device.uidsOf Device.bitOf
  by_cases hempty : name = []
  · simp [hempty, IdLists.append_nil]
  · cases hgroup : groupOf name with
    | some group => simp [hempty, IdLists.append_nil]
    | none =>
        cases hpackage : device.findPackageByName name with
        | none => simp [hempty]
        | some info =>
            cases hpids : device.pidByName name with
            | none => simp [hempty]
            | some pids =>
                by_cases hmaps : ∀ pid ∈ pids, device.libPaths pid = true
                · by_cases hpath : device.addLibPath name = true
                  · simp [hempty, hpath]
                  · simp [hempty, hpath]
                · simp [hempty, hmaps]

/-- All items add theirs, in order. -/
theorem foldlM_addName_eq_some {names : List Bytes} {t t' : Targets} :
    names.foldlM device.addName t = some t' ↔
      (∀ name ∈ names, device.Accepts name) ∧
        ⟨t.lists.append (names.flatMap device.pidsOf) (names.flatMap device.uidsOf),
          names.foldl (fun bits name => bits ||| Device.bitOf name) t.traceGroup⟩ = t' := by
  induction names generalizing t with
  | nil => simp [IdLists.append_nil]
  | cons name names ih =>
      rw [List.foldlM_cons, Option.bind_eq_bind, Option.bind_eq_some_iff, List.forall_mem_cons,
        List.flatMap_cons, List.flatMap_cons, List.foldl_cons]
      constructor
      · rintro ⟨mid, hname, hrest⟩
        obtain ⟨haccepts, rfl⟩ := addName_eq_some.mp hname
        obtain ⟨hall, rfl⟩ := ih.mp hrest
        refine ⟨⟨haccepts, hall⟩, ?_⟩
        rw [IdLists.append_append]
      · rintro ⟨⟨haccepts, hall⟩, rfl⟩
        refine ⟨_, addName_eq_some.mpr ⟨haccepts, rfl⟩, ih.mpr ⟨hall, ?_⟩⟩
        rw [IdLists.append_append]

/-! ### The bits of the groups -/

/-- The place of a group's bit. -/
def UidGroup.place : UidGroup → Nat
  | root => 1
  | system => 2
  | shell => 3
  | app => 4
  | iso => 5

theorem and_bit_iff (bits : u32) (group : UidGroup) :
    bits &&& group.bit = group.bit ↔ bits.getLsbD group.place = true := by
  have hlt : group.place < 32 := by cases group <;> decide
  have hbit : group.bit = 1#32 <<< group.place := by cases group <;> rfl
  rw [hbit]
  constructor
  · intro h
    have hplace := congrArg (fun bits => BitVec.getLsbD bits group.place) h
    simpa [hlt] using hplace
  · intro h
    apply BitVec.eq_of_getLsbD_eq
    intro j hj
    by_cases heq : j = group.place
    · subst heq
      simp [h]
    · by_cases hbelow : j < group.place
      · simp [hbelow]
      · have hne : j - group.place ≠ 0 := by omega
        simp [hne]

/-- An item that is a group. -/
theorem bitOf_place (name : Bytes) (group : UidGroup) :
    (Device.bitOf name).getLsbD group.place = true ↔ groupOf name = some group := by
  have hnone : groupOf [] = none := rfl
  unfold Device.bitOf
  split
  · rename_i hempty
    rw [hempty, hnone]
    simp
  · cases groupOf name with
    | none => simp
    | some other =>
        rw [Option.map_some, Option.getD_some, Option.some.injEq]
        cases other <;> cases group <;> decide

/-- **A group is traced exactly when it is named.** -/
theorem traceGroup_iff (names : List Bytes) (group : UidGroup) :
    names.foldl (fun bits name => bits ||| Device.bitOf name) groupNone &&& group.bit = group.bit ↔
      ∃ name ∈ names, groupOf name = some group := by
  have hfold (start : u32) :
      (names.foldl (fun bits name => bits ||| Device.bitOf name) start).getLsbD group.place = true ↔
        start.getLsbD group.place = true ∨ ∃ name ∈ names, groupOf name = some group := by
    induction names generalizing start with
    | nil => simp
    | cons name names ih =>
        rw [List.foldl_cons, ih, BitVec.getLsbD_or, Bool.or_eq_true, bitOf_place]
        simp [or_assoc]
  have hstart : groupNone.getLsbD group.place = false := by cases group <;> decide
  rw [and_bit_iff, hfold, hstart]
  simp

end Names

/-! ## What the options select -/

/-- The options for these ids and names. -/
structure TargetIds where
  uids : List u32
  noUids : List u32
  pids : List u32
  noPids : List u32
  tids : List u32
  noTids : List u32
  names : List Bytes

namespace TargetIds

/-- The options as they are written. -/
def options (ids : TargetIds) : TargetOptions where
  uid := joinIds ids.uids
  noUid := joinIds ids.noUids
  pid := joinIds ids.pids
  noPid := joinIds ids.noPids
  tid := joinIds ids.tids
  noTid := joinIds ids.noTids
  name := joinNames ids.names

/-- The lists of ids, before the names are looked at. -/
def lists (ids : TargetIds) : IdLists :=
  ⟨fun
    | .uidWhitelist => ids.uids
    | .uidBlacklist => ids.noUids
    | .pidWhitelist => ids.pids
    | .pidBlacklist => ids.noPids
    | .tidWhitelist => ids.tids
    | .tidBlacklist => ids.noTids
    | _ => []⟩

/-- No option holds too many ids. -/
def Fit (ids : TargetIds) : Prop := ∀ k, (ids.lists.items k).length ≤ maxCount

/-- Start-up accepts the ids and the names on this device. -/
structure AcceptedOn (ids : TargetIds) (device : Device) : Prop where
  fit : ids.Fit
  pids : ∀ pid ∈ ids.pids, device.checkPid pid = true
  uids : ∀ uid ∈ ids.uids, device.checkUid uid = true
  names : ∀ name ∈ ids.names, device.Accepts name

/-- What is selected. -/
def targets (ids : TargetIds) (device : Device) : Targets where
  lists := ids.lists.append (ids.names.flatMap device.pidsOf) (ids.names.flatMap device.uidsOf)
  traceGroup := ids.names.foldl (fun bits name => bits ||| Device.bitOf name) groupNone

theorem parseLists_eq_some {ids : TargetIds} {lists : IdLists} :
    ids.options.parseLists = some lists ↔ ids.Fit ∧ ids.lists = lists := by
  have hfit : ids.Fit ↔ ids.uids.length ≤ maxCount ∧ ids.noUids.length ≤ maxCount ∧
      ids.pids.length ≤ maxCount ∧ ids.noPids.length ≤ maxCount ∧ ids.tids.length ≤ maxCount ∧
      ids.noTids.length ≤ maxCount := by
    constructor
    · intro h
      exact ⟨h .uidWhitelist, h .uidBlacklist, h .pidWhitelist, h .pidBlacklist, h .tidWhitelist,
        h .tidBlacklist⟩
    · rintro ⟨huid, hnoUid, hpid, hnoPid, htid, hnoTid⟩ k
      cases k with
      | sysWhitelist | sysBlacklist => exact Nat.zero_le _
      | _ => assumption
  rw [hfit]
  unfold TargetOptions.parseLists options
  simp only [parseIdlist_joinIds, Option.bind_eq_bind, Option.bind_eq_some_iff, Option.pure_def,
    Option.some.injEq, Option.ite_none_right_eq_some]
  constructor
  · rintro ⟨_, ⟨huid, rfl⟩, _, ⟨hnoUid, rfl⟩, _, ⟨hpid, rfl⟩, _, ⟨hnoPid, rfl⟩, _, ⟨htid, rfl⟩, _,
      ⟨hnoTid, rfl⟩, rfl⟩
    exact ⟨⟨huid, hnoUid, hpid, hnoPid, htid, hnoTid⟩, rfl⟩
  · rintro ⟨⟨huid, hnoUid, hpid, hnoPid, htid, hnoTid⟩, rfl⟩
    exact ⟨_, ⟨huid, rfl⟩, _, ⟨hnoUid, rfl⟩, _, ⟨hpid, rfl⟩, _, ⟨hnoPid, rfl⟩, _, ⟨htid, rfl⟩, _,
      ⟨hnoTid, rfl⟩, rfl⟩

/-- The items of `--name` are those that were joined. -/
theorem foldlM_splitOn {device : Device} {names : List Bytes} (hnames : ∀ v ∈ names, comma ∉ v)
    (t : Targets) :
    ((joinNames names).splitOn comma).foldlM device.addName t =
      names.foldlM device.addName t := by
  cases names with
  | nil => rfl
  | cons v vs =>
      have hsplit : (joinNames (v :: vs)).splitOn comma = v :: vs :=
        List.splitOn_intercalate comma hnames (List.cons_ne_nil v vs)
      rw [hsplit]

/-- **What the options select.** Start-up accepts them exactly when no list is too long, the
processes and uids are known, and every item of `--name` is a group or a package; then it selects
what they say. -/
theorem parseTargets_eq_some {device : Device} {ids : TargetIds} {t : Targets}
    (hnames : ∀ v ∈ ids.names, comma ∉ v) :
    device.parseTargets ids.options = some t ↔
      ids.AcceptedOn device ∧ ids.targets device = t := by
  have hname : ids.options.name = joinNames ids.names := rfl
  unfold Device.parseTargets
  rw [Option.bind_eq_bind, Option.bind_eq_some_iff, hname]
  simp only [foldlM_splitOn hnames, parseLists_eq_some]
  constructor
  · rintro ⟨lists, ⟨hfit, rfl⟩, h⟩
    split at h
    · cases h
    · rename_i hpids
      split at h
      · cases h
      · rename_i huids
        obtain ⟨haccepts, rfl⟩ := foldlM_addName_eq_some.mp h
        have hpids : ∀ pid ∈ ids.lists.items .pidWhitelist, device.checkPid pid = true := by
          simpa using hpids
        have huids : ∀ uid ∈ ids.lists.items .uidWhitelist, device.checkUid uid = true := by
          simpa using huids
        exact ⟨⟨hfit, hpids, huids, haccepts⟩, rfl⟩
  · rintro ⟨⟨hfit, hpids, huids, haccepts⟩, rfl⟩
    have hpids : (ids.lists.items .pidWhitelist).all device.checkPid = true :=
      List.all_eq_true.mpr hpids
    have huids : (ids.lists.items .uidWhitelist).all device.checkUid = true :=
      List.all_eq_true.mpr huids
    refine ⟨ids.lists, ⟨hfit, rfl⟩, ?_⟩
    rw [hpids, huids]
    exact foldlM_addName_eq_some.mpr ⟨haccepts, rfl⟩

end TargetIds

/-! ## What is traced -/

/-- The uids of a group. -/
def UidGroup.Has : UidGroup → u32 → Prop
  | root, uid => uid = 0
  | system, uid => uid = 1000
  | shell, uid => uid = 2000
  | app, uid => 10000 ≤ uid ∧ uid ≤ 19999
  | iso, uid => 99000 ≤ uid ∧ uid ≤ 99999

/-- The last checks of `should_trace` look for a group that has the uid. -/
theorem uidGroupVerdict_iff {maps : FilterMaps} {filter : CommonFilter}
    (hfilter : maps.commonFilter = some filter) (uid : u32) :
    uidGroupVerdict maps uid = true ↔
      ∃ group : UidGroup, filter.traceUidGroup &&& group.bit = group.bit ∧ group.Has uid := by
  unfold uidGroupVerdict
  rw [hfilter]
  dsimp only
  constructor
  · intro h
    split at h
    · rename_i hroot
      exact ⟨.root, by simpa [UidGroup.bit, UidGroup.Has] using hroot⟩
    · split at h
      · rename_i hsystem
        exact ⟨.system, by simpa [UidGroup.bit, UidGroup.Has] using hsystem⟩
      · split at h
        · rename_i hshell
          exact ⟨.shell, by simpa [UidGroup.bit, UidGroup.Has] using hshell⟩
        · split at h
          · rename_i happ
            exact ⟨.app, by simpa [UidGroup.bit, UidGroup.Has, and_assoc] using happ⟩
          · split at h
            · rename_i hiso
              exact ⟨.iso, by simpa [UidGroup.bit, UidGroup.Has, and_assoc] using hiso⟩
            · cases h
  · rintro ⟨group, hbit, huid⟩
    cases group <;> simp_all [UidGroup.bit, UidGroup.Has]

/-- The selected targets are in the maps, with lists of system calls beside them. -/
structure Targets.LoadedIn (t : Targets) (lists : IdLists) (maps : FilterMaps) : Prop where
  items : ∀ k, k ≠ .sysWhitelist → k ≠ .sysBlacklist → lists.items k = t.lists.items k
  commonList : lists.loadCommonList = some maps.commonList
  group : ∃ filter, maps.commonFilter = some filter ∧ filter.traceUidGroup = t.traceGroup

/-- The options say that the task is traced: the black list of each kind of id comes before its
white list, a thread before its process and a process before its user. -/
def TargetIds.Traces (ids : TargetIds) (device : Device) (children : ChildParentMap)
    (context : EventContext) : Prop :=
  context.tid ∉ ids.noTids ∧
    (context.tid ∈ ids.tids ∨
      context.pid ∉ ids.noPids ∧
        (context.pid ∈ ids.pids ∨ (∃ name ∈ ids.names, context.pid ∈ device.pidsOf name) ∨
          (children.lookup context.pid).isSome ∨
          context.uid ∉ ids.noUids ∧
            (context.uid ∈ ids.uids ∨ (∃ name ∈ ids.names, context.uid ∈ device.uidsOf name) ∨
              ∃ name ∈ ids.names, ∃ group, groupOf name = some group ∧ group.Has context.uid)))

theorem traces_of_loaded {device : Device} {ids : TargetIds} {lists : IdLists} {maps : FilterMaps}
    (hloaded : (ids.targets device).LoadedIn lists maps) {context : EventContext}
    (hname : threadNameVerdict maps context = none)
    (hmisleads : lists.misleads maps context = false) :
    shouldTrace maps context = true ↔ ids.Traces device maps.childParentMap context := by
  obtain ⟨filter, hfilter, hgroup⟩ := hloaded.group
  have hown (k : ListKind) (id : u32) (hwhite : k ≠ .sysWhitelist) (hblack : k ≠ .sysBlacklist) :
      lists.own k id = true ↔ id ∈ (ids.targets device).lists.items k := by
    rw [IdLists.own, decide_eq_true_iff, hloaded.items k hwhite hblack]
  have hpid : context.pid ∈ (ids.targets device).lists.items .pidWhitelist ↔
      context.pid ∈ ids.pids ∨ ∃ name ∈ ids.names, context.pid ∈ device.pidsOf name := by
    show context.pid ∈ ids.pids ++ ids.names.flatMap device.pidsOf ↔ _
    rw [List.mem_append, List.mem_flatMap]
  have huid : context.uid ∈ (ids.targets device).lists.items .uidWhitelist ↔
      context.uid ∈ ids.uids ∨ ∃ name ∈ ids.names, context.uid ∈ device.uidsOf name := by
    show context.uid ∈ ids.uids ++ ids.names.flatMap device.uidsOf ↔ _
    rw [List.mem_append, List.mem_flatMap]
  have hverdict : uidGroupVerdict maps context.uid = true ↔
      ∃ name ∈ ids.names, ∃ group, groupOf name = some group ∧ group.Has context.uid := by
    rw [uidGroupVerdict_iff hfilter, hgroup]
    constructor
    · rintro ⟨group, hbit, hhas⟩
      obtain ⟨name, hmem, heq⟩ := (traceGroup_iff ids.names group).mp hbit
      exact ⟨name, hmem, group, heq, hhas⟩
    · rintro ⟨name, hmem, group, heq, hhas⟩
      exact ⟨group, (traceGroup_iff ids.names group).mpr ⟨name, hmem, heq⟩, hhas⟩
  -- the chain of checks, read as one formula
  have hreject (b r : Bool) : (if b = true then false else r) = true ↔ ¬ b = true ∧ r = true := by
    cases b <;> simp
  have haccept (b r : Bool) : (if b = true then true else r) = true ↔ b = true ∨ r = true := by
    cases b <;> simp
  rw [(shouldTrace_eq_own_iff hloaded.commonList context).mpr hmisleads, shouldTraceBy, hname]
  dsimp only
  rw [hreject, haccept, hreject, haccept, haccept, hreject, haccept, hverdict,
    hown .tidBlacklist _ (by decide) (by decide), hown .tidWhitelist _ (by decide) (by decide),
    hown .pidBlacklist _ (by decide) (by decide), hown .pidWhitelist _ (by decide) (by decide),
    hown .uidBlacklist _ (by decide) (by decide), hown .uidWhitelist _ (by decide) (by decide),
    hpid, huid, or_assoc, or_assoc]
  rfl

/-- **The options decide.** On every device, start-up accepts the options exactly when no list is
too long, the processes and uids are known, and every item of `--name` is a group or a package.
Once what it selected is in the maps, a task that no thread name decides and no id of another list
misleads is traced exactly when the options say so. -/
theorem targetOptions_decide (device : Device) {ids : TargetIds}
    (hnames : ∀ v ∈ ids.names, comma ∉ v) :
    ((device.parseTargets ids.options).isSome ↔ ids.AcceptedOn device) ∧
    ∀ t, device.parseTargets ids.options = some t → ∀ (lists : IdLists) (maps : FilterMaps),
      t.LoadedIn lists maps → ∀ context : EventContext, threadNameVerdict maps context = none →
        lists.misleads maps context = false →
        (shouldTrace maps context = true ↔ ids.Traces device maps.childParentMap context) := by
  refine ⟨?_, fun t ht lists maps hloaded context hname hmisleads => ?_⟩
  · rw [Option.isSome_iff_exists]
    constructor
    · rintro ⟨t, ht⟩
      exact ((TargetIds.parseTargets_eq_some hnames).mp ht).1
    · intro haccepted
      exact ⟨_, (TargetIds.parseTargets_eq_some hnames).mpr ⟨haccepted, rfl⟩⟩
  · obtain ⟨-, rfl⟩ := (TargetIds.parseTargets_eq_some hnames).mp ht
    exact traces_of_loaded hloaded hname hmisleads

/-! ### A package and a group -/

/-- The package runs as process 4242 under uid 10123. -/
def phone : Device where
  packages := [⟨ascii "com.app", 10123⟩]
  uidByPid := fun _ => none
  pidByName := fun name => some (if name = ascii "com.app" then [4242] else [])
  libPaths := fun _ => true
  addLibPath := fun _ => true

/-- `--name com.app,shell --no-tid 4250` -/
def packageIds : TargetIds := ⟨[], [], [], [], [], [4250], [ascii "com.app", ascii "shell"]⟩

/-- The maps after a start-up on these targets. -/
def Targets.toMaps (t : Targets) : FilterMaps :=
  { t.lists.toMaps with commonFilter := some ⟨0, traceCommon, t.traceGroup⟩ }

/-- A process of the package is traced, but not the thread that is excluded. -/
theorem targetOptions_decide_package :
    ∃ t, phone.parseTargets packageIds.options = some t ∧
      shouldTrace t.toMaps ⟨4242, 4242, 10123, Vector.replicate 16 0⟩ = true ∧
      ¬ shouldTrace t.toMaps ⟨4250, 4242, 10123, Vector.replicate 16 0⟩ = true := by
  have hnames : ∀ v ∈ packageIds.names, comma ∉ v := by decide
  obtain ⟨hsome, hdecide⟩ := targetOptions_decide phone hnames
  have haccepted : packageIds.AcceptedOn phone := hsome.mp (by decide +kernel)
  have ht : phone.parseTargets packageIds.options = some (packageIds.targets phone) :=
    (TargetIds.parseTargets_eq_some hnames).mpr ⟨haccepted, rfl⟩
  have hloaded : (packageIds.targets phone).LoadedIn (packageIds.targets phone).lists
      (packageIds.targets phone).toMaps := ⟨fun _ _ _ => rfl, rfl, _, rfl, rfl⟩
  refine ⟨_, ht, ?_, ?_⟩
  · rw [hdecide _ ht _ _ hloaded _ (by decide) (by decide)]
    exact ⟨by decide, Or.inr ⟨by decide, Or.inr (Or.inl
      ⟨ascii "com.app", List.mem_cons_self, by decide⟩)⟩⟩
  · rw [hdecide _ ht _ _ hloaded _ (by decide) (by decide)]
    exact fun h => h.1 (by decide)

end Stackplz
