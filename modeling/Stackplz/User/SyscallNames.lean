import Stackplz.User.FilterHelper
import Stackplz.User.HookPoint

/-!
# The system calls that are traced

`Parse_Syscall` (`config_module.go`) makes the white list and the black list of system calls
out of the texts of `-s` and `--no-syscall`. The items of a text are told apart by how they are
written, the lists by their numbers: `parseSyscall_selects_iff` says for which texts the white
list is the set of numbers that the texts mean.
-/

set_option autoImplicit false

namespace Stackplz

/-! ## Lists in the order of first occurrence -/

section FirstOccurrences

variable {α : Type} [DecidableEq α]

/-- `if !slices.Contains(acc, x) { acc = append(acc, x) }` -/
def appendNew (acc : List α) (x : α) : List α := if x ∈ acc then acc else acc ++ [x]

theorem mem_appendNew {acc : List α} {x y : α} : y ∈ appendNew acc x ↔ y ∈ acc ∨ y = x := by
  unfold appendNew
  split
  · rename_i hx
    exact ⟨Or.inl, fun h => h.elim id fun heq => heq ▸ hx⟩
  · rw [List.mem_append, List.mem_singleton]

theorem nodup_appendNew {acc : List α} {x : α} (h : acc.Nodup) : (appendNew acc x).Nodup := by
  unfold appendNew
  split
  · exact h
  · rename_i hx
    exact List.nodup_append.mpr ⟨h, List.nodup_singleton x, fun a ha b hb heq =>
      hx (List.mem_singleton.mp hb ▸ heq ▸ ha)⟩

/-- A list without its repetitions. -/
def firstOccurrences (xs : List α) : List α := xs.foldl appendNew []

theorem foldl_appendNew (xs : List α) : ∀ acc : List α, acc.Nodup →
    (xs.foldl appendNew acc).Nodup ∧ ∀ y, y ∈ xs.foldl appendNew acc ↔ y ∈ acc ∨ y ∈ xs := by
  induction xs with
  | nil => exact fun acc hacc => ⟨hacc, fun y => by simp⟩
  | cons x xs ih =>
      intro acc hacc
      obtain ⟨hnodup, hmem⟩ := ih (appendNew acc x) (nodup_appendNew hacc)
      refine ⟨hnodup, fun y => ?_⟩
      rw [List.foldl_cons, hmem, mem_appendNew, List.mem_cons, or_assoc]

theorem nodup_firstOccurrences (xs : List α) : (firstOccurrences xs).Nodup :=
  (foldl_appendNew xs [] List.nodup_nil).1

theorem mem_firstOccurrences {xs : List α} {y : α} : y ∈ firstOccurrences xs ↔ y ∈ xs := by
  rw [firstOccurrences, (foldl_appendNew xs [] List.nodup_nil).2]
  exact or_iff_right List.not_mem_nil

end FirstOccurrences

/-! ## The items of a text -/

/-- The groups of `Parse_SyscallNames`. -/
def syscallGroups : List (String × List String) :=
  [("%attr", ["setxattr", "lsetxattr", "fsetxattr", "getxattr", "lgetxattr", "fgetxattr",
      "listxattr", "llistxattr", "flistxattr", "removexattr", "lremovexattr", "fremovexattr"]),
    ("%file", ["openat", "openat2", "faccessat", "faccessat2", "mknodat", "mkdirat", "unlinkat",
      "symlinkat", "linkat", "renameat", "renameat2", "readlinkat", "chdir", "fchdir", "chroot",
      "fchmod", "fchmodat", "fchownat", "fchown"]),
    ("%fileop", ["mknodat", "mkdirat", "linkat", "unlinkat", "symlinkat", "renameat"]),
    ("%clone", ["clone", "clone3"]),
    ("%exec", ["execve", "execveat"]),
    ("%mount", ["umount2", "mount", "move_mount", "fsmount", "mount_setattr"]),
    ("%fsop", ["fsopen", "fsconfig", "fsmount", "fspick"]),
    ("%process", ["clone", "clone3", "execve", "execveat", "wait4", "waitid", "exit",
      "exit_group", "rt_sigqueueinfo", "pidfd_send_signal", "pidfd_open", "pidfd_getfd"]),
    ("%net", ["socket", "socketpair", "bind", "listen", "accept", "accept4", "connect",
      "getsockname", "getpeername", "setsockopt", "getsockopt", "shutdown"]),
    ("%send", ["sendto", "sendmsg", "sendmmsg"]),
    ("%recv", ["recvfrom", "recvmsg", "recvmmsg"]),
    ("%read", ["read", "readv", "pread64", "preadv", "preadv2"]),
    ("%write", ["write", "writev", "pwrite64", "pwritev", "pwritev2"]),
    ("%signal", ["sigaltstack", "rt_sigsuspend", "rt_sigaction", "rt_sigprocmask",
      "rt_sigpending", "rt_sigtimedwait", "rt_sigqueueinfo", "rt_sigreturn",
      "rt_tgsigqueueinfo"]),
    ("%kill", ["kill", "tkill", "tgkill"]),
    ("%exit", ["exit", "exit_group"]),
    ("%sched", ["sched_setparam", "sched_setscheduler", "sched_getscheduler",
      "sched_getparam", "sched_setaffinity", "sched_getaffinity", "sched_yield",
      "sched_get_priority_max", "sched_get_priority_min", "sched_rr_get_interval",
      "sched_setattr", "sched_getattr"]),
    ("%dup", ["dup", "dup3"]),
    ("%inotify", ["inotify_init1", "inotify_add_watch", "inotify_rm_watch"]),
    ("%epoll", ["epoll_create1", "epoll_ctl", "epoll_pwait", "epoll_pwait2"]),
    ("%stat", ["statfs", "fstatfs", "newfstatat", "fstat", "statx"])]

def allItem : Text := "all".toList

/-- The names that a piece of the text stands for, other than `all`. -/
def itemNames (v : Text) : List Text :=
  match syscallGroups.lookup (String.ofList v) with
  | some members => members.map String.toList
  | none => if v = [] then [] else [v]

/-- One round of `Parse_SyscallNames`; the flag says that the trace mode was set to all. -/
def addItem (acc : Bool × List Text) (v : Text) : Bool × List Text :=
  if v = allItem then (true, []) else (acc.1, acc.2 ++ itemNames v)

/-- The pieces of a text. -/
def pieces (text : Text) : List Text := Text.splitOn ',' text

/-- The items that a text names beside `all`. -/
def textItems (text : Text) : List Text :=
  ((pieces text).filter (· ≠ allItem)).flatMap itemNames

theorem foldl_addItem {vs : List Text} (h : allItem ∉ vs) : ∀ acc : Bool × List Text,
    vs.foldl addItem acc =
      (acc.1, acc.2 ++ (vs.filter (· ≠ allItem)).flatMap itemNames) := by
  induction vs with
  | nil => exact fun acc => Prod.ext rfl (List.append_nil _).symm
  | cons v vs ih =>
      intro acc
      obtain ⟨hv, hvs⟩ := not_or.mp (fun hmem => h (List.mem_cons.mpr hmem))
      have hne : v ≠ allItem := fun heq => hv heq.symm
      have hstep : addItem acc v = (acc.1, acc.2 ++ itemNames v) := if_neg hne
      rw [List.foldl_cons, ih hvs, hstep, List.filter_cons_of_pos (by simpa using hne),
        List.flatMap_cons, List.append_assoc]

/-- Where `all` is among the pieces, the trace mode is set. -/
theorem foldl_addItem_all {vs : List Text} : ∀ acc : Bool × List Text,
    allItem ∈ vs ∨ acc.1 = true → (vs.foldl addItem acc).1 = true := by
  induction vs with
  | nil => exact fun acc h => h.resolve_left List.not_mem_nil
  | cons v vs ih =>
      intro acc h
      refine ih (addItem acc v) ?_
      unfold addItem
      split
      · exact Or.inr rfl
      · rename_i hne
        rcases h with hmem | hacc
        · exact Or.inl ((List.mem_cons.mp hmem).resolve_left fun heq => hne heq.symm)
        · exact Or.inr hacc

/-! ## Filters of an item -/

/-- `Match`: the filters are called `f0`, `f1` and so on. -/
def ConfigFilter.isNamed (f : ConfigFilter) (name : Text) : Bool :=
  f.filterIndex != 0 && name == 'f' :: (Nat.repr (f.filterIndex.toNat - 1)).toList

/-- `GetFilterByName`; `none` is a panic. -/
def FilterHelper.getFilterByName (h : FilterHelper) (name : Text) : Option ConfigFilter :=
  h.filters.find? fun f => f.isNamed name

/-- `IsStr` -/
def ConfigFilter.isStr (f : ConfigFilter) : Bool :=
  f.filterType == .whitelist || f.filterType == .blacklist

/-- `AddFilterIndex` -/
def PointArg.addFilterIndex (index : u32) (a : PointArg) : PointArg :=
  { a with filterIndexList := a.filterIndexList ++ [index] }

/-- Add a filter to the first argument with a property. -/
def addToFirst (p : PointArg → Bool) (index : u32) : List PointArg → List PointArg
  | [] => []
  | a :: as => if p a then a.addFilterIndex index :: as else a :: addToFirst p index as

/-- The only group of filters: those that compare strings go to the first string. -/
def FilterHelper.applyGroup (h : FilterHelper) (group : Text) (args : List PointArg) :
    Except Failure (List PointArg) :=
  (Text.splitOn '.' group).foldlM (fun args name => do
    let filter ← orPanic (h.getFilterByName name)
    let takes := fun a : PointArg => if filter.isStr then a.ty == .string && a.readMore else true
    return addToFirst takes filter.filterIndex args) args

/-- One of several groups of filters, for the argument at its place. -/
def FilterHelper.applyGroupAt (h : FilterHelper) (args : List PointArg) (group : Text × Nat) :
    Except Failure (List PointArg) :=
  if group.1 = [] then .ok args
  else
    (Text.splitOn '.' group.1).foldlM (fun args name => do
      let filter ← orPanic (h.getFilterByName name)
      return args.modify group.2 (PointArg.addFilterIndex filter.filterIndex)) args

/-- The rules that an item sets for the arguments of its system call. -/
def FilterHelper.applyFilters (h : FilterHelper) (groups : List Text) (args : List PointArg) :
    Except Failure (List PointArg) :=
  match groups with
  | [group] => h.applyGroup group args
  | groups => groups.zipIdx.foldlM h.applyGroupAt args

/-- The filters that the groups of an item name. -/
def filterNames : List Text → List Text
  | [group] => Text.splitOn '.' group
  | groups => (groups.filter (· ≠ [])).flatMap (Text.splitOn '.')

/-- A fold succeeds when each of its steps does. -/
theorem foldlM_ok {α β : Type} {f : β → α → Except Failure β} {as : List α}
    (h : ∀ a ∈ as, ∀ b, ∃ b', f b a = .ok b') (b : β) : ∃ b', as.foldlM f b = .ok b' := by
  induction as generalizing b with
  | nil => exact ⟨b, rfl⟩
  | cons a as ih =>
      obtain ⟨ha, has⟩ := List.forall_mem_cons.mp h
      obtain ⟨mid, hmid⟩ := ha b
      obtain ⟨last, hlast⟩ := ih has mid
      exact ⟨last, Outcome.bind_eq_ok.mpr ⟨mid, hmid, hlast⟩⟩

/-- Filters that are defined can be applied. -/
theorem applyFilters_ok {h : FilterHelper} {groups : List Text}
    (hdefined : ∀ name ∈ filterNames groups, (h.getFilterByName name).isSome = true)
    (args : List PointArg) : ∃ args', h.applyFilters groups args = .ok args' := by
  have hsome (f : ConfigFilter → List PointArg → List PointArg) {name : Text}
      (hname : (h.getFilterByName name).isSome = true) (args : List PointArg) :
      ∃ args', (do
        let filter ← orPanic (h.getFilterByName name)
        return f filter args : Except Failure (List PointArg)) = .ok args' := by
    obtain ⟨filter, hfilter⟩ := Option.isSome_iff_exists.mp hname
    rw [hfilter]
    exact ⟨f filter args, rfl⟩
  have hmany : (∀ name ∈ (groups.filter (· ≠ [])).flatMap (Text.splitOn '.'),
      (h.getFilterByName name).isSome = true) →
      ∃ args', groups.zipIdx.foldlM h.applyGroupAt args = .ok args' := by
    intro hnames
    refine foldlM_ok (fun group hgroup args => ?_) args
    unfold FilterHelper.applyGroupAt
    split
    · exact ⟨args, rfl⟩
    · rename_i hne
      have hmem : group.1 ∈ groups.filter (· ≠ []) := by
        rw [List.mem_filter]
        exact ⟨(List.mem_zipIdx' hgroup).2 ▸ List.getElem_mem _, by simpa using hne⟩
      exact foldlM_ok (fun name hname args =>
        hsome (fun filter args => args.modify group.2 (PointArg.addFilterIndex filter.filterIndex))
          (hnames name (List.mem_flatMap.mpr ⟨group.1, hmem, hname⟩)) args) args
  match groups, hdefined, hmany with
  | [], _, hmany => exact hmany fun name hname => absurd hname List.not_mem_nil
  | [group], hdefined, _ =>
      exact foldlM_ok (fun name hname args => hsome (fun filter args =>
        addToFirst (fun a => if filter.isStr then a.ty == .string && a.readMore else true)
          filter.filterIndex args) (hdefined name hname) args) args
  | _ :: _ :: _, hdefined, hmany => exact hmany hdefined

/-! ## `Parse_Syscall` -/

/-- `TRACE_COMMON` and `TRACE_ALL`. -/
inductive TraceMode where
  | common | all
deriving DecidableEq

/-- `SyscallConfig`. -/
structure SyscallConfig where
  enable : Bool
  traceMode : TraceMode
  pointArgs : List SyscallPoint
  sysWhitelist : List u32
  sysBlacklist : List u32

/-- The configuration after the files are read. -/
def SyscallConfig.ofPoints (points : List SyscallPoint) : SyscallConfig :=
  ⟨false, .common, points, [], []⟩

/-- `Parse_SyscallNames`. -/
def SyscallConfig.parseSyscallNames (conf : SyscallConfig) (text : Text) :
    SyscallConfig × List Text :=
  let (traceAll, items) := (pieces text).foldl addItem (false, [])
  (if traceAll then { conf with traceMode := .all } else conf, firstOccurrences items)

/-- `GetSyscallPointByName`. -/
def getSyscallPointByName (points : List SyscallPoint) (name : Text) :
    Except Failure SyscallPoint :=
  orPanic (points.find? fun p => p.name == name)

/-- A system call with other arguments on entry. -/
def setEnterArgs (name : Text) (args : List PointArg) : List SyscallPoint → List SyscallPoint
  | [] => []
  | p :: ps =>
      if p.name == name then { p with enterPointArgs := args } :: ps
      else p :: setEnterArgs name args ps

/-- An item without its filters, and the groups of its filters. -/
def splitItem (item : Text) : Text × List Text :=
  match Text.splitOn ':' item with
  | [name, groups] => (name, Text.splitOn '|' groups)
  | _ => (item, [])

/-- The name before the filters is read as a name without filters. -/
theorem splitItem_idem (item : Text) :
    (splitItem (splitItem item).1).1 = (splitItem item).1 := by
  have hname : (splitItem item).1 = item ∨ ':' ∉ (splitItem item).1 := by
    unfold splitItem
    split
    · rename_i name groups hsplit
      refine Or.inr (@Text.not_mem_of_mem_splitOn ':' item name ?_)
      rw [hsplit]
      exact List.mem_cons_self ..
    · exact Or.inl rfl
  rcases hname with hsame | hplain
  · rw [hsame, hsame]
  · generalize (splitItem item).1 = name at hplain
    unfold splitItem
    rw [Text.splitOn_of_not_mem hplain]

/-- A name that is not read as a name with filters has none. -/
theorem splitItem_filters {item : Text} (h : (splitItem item).1 = item) :
    filterNames (splitItem item).2 = [] := by
  revert h
  unfold splitItem
  split
  · rename_i name groups hsplit
    intro h
    have hmem : name ∈ Text.splitOn ':' item := by
      rw [hsplit]
      exact List.mem_cons_self ..
    have hplain := Text.not_mem_of_mem_splitOn hmem
    rw [show name = item from h] at hplain
    rw [Text.splitOn_of_not_mem hplain] at hsplit
    cases hsplit
  · exact fun _ => rfl

/-- One name of the black list. -/
def SyscallConfig.reject (conf : SyscallConfig) (name : Text) : Except Failure SyscallConfig := do
  let point ← getSyscallPointByName conf.pointArgs name
  return { conf with sysBlacklist := appendNew conf.sysBlacklist point.nr }

/-- One item of the white list. -/
def SyscallConfig.select (h : FilterHelper) (conf : SyscallConfig) (item : Text) :
    Except Failure SyscallConfig := do
  let point ← getSyscallPointByName conf.pointArgs (splitItem item).1
  if point.nr ∈ conf.sysBlacklist then return conf
  else if point.nr ∈ conf.sysWhitelist then .error .panic
  else do
    let args ← h.applyFilters (splitItem item).2 point.enterPointArgs
    return { conf with
      sysWhitelist := conf.sysWhitelist ++ [point.nr]
      pointArgs := setEnterArgs (splitItem item).1 args conf.pointArgs }

/-- The part of `Parse_Syscall` that makes the white list. -/
def SyscallConfig.selectNames (h : FilterHelper) (sysCall : Text) (conf : SyscallConfig) :
    Except Failure SyscallConfig := do
  let (conf, whiteNames) := conf.parseSyscallNames sysCall
  let whiteNames := if conf.traceMode = .all then conf.pointArgs.map (·.name) else whiteNames
  let conf ← whiteNames.foldlM (SyscallConfig.select h) conf
  return if conf.sysWhitelist = [] then { conf with enable := false } else conf

/-- `Parse_Syscall`, for the texts of `-s` and `--no-syscall`. -/
def SyscallConfig.parseSyscall (h : FilterHelper) (sysCall noSysCall : Text)
    (conf : SyscallConfig) : Except Failure SyscallConfig := do
  let conf := { conf with enable := true, traceMode := .common }
  let (conf, blackNames) := conf.parseSyscallNames noSysCall
  if conf.traceMode = .all then return { conf with enable := false }
  else do
    let conf ← blackNames.foldlM SyscallConfig.reject conf
    conf.selectNames h sysCall

theorem parseSyscallNames_of_not_all {text : Text} (h : allItem ∉ pieces text)
    (conf : SyscallConfig) :
    conf.parseSyscallNames text = (conf, firstOccurrences (textItems text)) := by
  unfold SyscallConfig.parseSyscallNames
  rw [foldl_addItem h]
  rfl

theorem parseSyscallNames_of_all {text : Text} (h : allItem ∈ pieces text)
    (conf : SyscallConfig) :
    (conf.parseSyscallNames text).1 = { conf with traceMode := .all } := by
  have hflag := foldl_addItem_all (false, []) (Or.inl h)
  unfold SyscallConfig.parseSyscallNames
  dsimp only
  rw [hflag]
  rfl

/-! ### The number behind a name -/

/-- The number of the system call of a name. -/
def nrOf (points : List SyscallPoint) (name : Text) : Option u32 :=
  (points.find? fun p => p.name == name).map (·.nr)

/-- With distinct names this is the number of the system call of that name. -/
theorem nrOf_eq_some_iff {points : List SyscallPoint} (hnames : (points.map (·.name)).Nodup)
    {name : Text} {nr : u32} :
    nrOf points name = some nr ↔ ∃ p ∈ points, p.name = name ∧ p.nr = nr := by
  induction points with
  | nil =>
      constructor
      · intro h
        cases h
      · rintro ⟨p, hp, -⟩
        exact absurd hp List.not_mem_nil
  | cons p points ih =>
      rw [List.map_cons, List.nodup_cons] at hnames
      obtain ⟨hnew, hrest⟩ := hnames
      unfold nrOf
      by_cases hp : p.name = name
      · rw [List.find?_cons_of_pos (by simpa using hp)]
        constructor
        · intro h
          exact ⟨p, List.mem_cons_self .., hp, Option.some.inj h⟩
        · rintro ⟨q, hq, hname, rfl⟩
          rcases List.mem_cons.mp hq with rfl | hq
          · rfl
          · exact absurd (List.mem_map.mpr ⟨q, hq, hname.trans hp.symm⟩) hnew
      · rw [List.find?_cons_of_neg (by simpa using hp)]
        refine (ih hrest).trans ⟨?_, ?_⟩
        · rintro ⟨q, hq, h⟩
          exact ⟨q, List.mem_cons_of_mem _ hq, h⟩
        · rintro ⟨q, hq, hname, hnr⟩
          rcases List.mem_cons.mp hq with rfl | hq
          · exact absurd hname hp
          · exact ⟨q, hq, hname, hnr⟩

/-- A point that is found has the number of its name. -/
theorem getSyscallPointByName_eq_ok {points : List SyscallPoint} {name : Text} {p : SyscallPoint}
    (h : getSyscallPointByName points name = .ok p) : nrOf points name = some p.nr := by
  unfold getSyscallPointByName at h
  unfold nrOf
  cases hfind : points.find? fun p => p.name == name with
  | none =>
      rw [hfind] at h
      cases h
  | some q =>
      rw [hfind] at h
      exact congrArg (fun p => some p.nr) (Except.ok.inj h)

theorem getSyscallPointByName_ok {points : List SyscallPoint} {name : Text} {nr : u32}
    (h : nrOf points name = some nr) :
    ∃ p, getSyscallPointByName points name = .ok p ∧ p.nr = nr := by
  obtain ⟨p, hfind, hnr⟩ := Option.map_eq_some_iff.mp h
  exact ⟨p, by rw [getSyscallPointByName, hfind]; rfl, hnr⟩

/-- Filters change neither names nor numbers. -/
theorem nrOf_setEnterArgs (name name' : Text) (args : List PointArg) (points : List SyscallPoint) :
    nrOf (setEnterArgs name' args points) name = nrOf points name := by
  induction points with
  | nil => rfl
  | cons p points ih =>
      unfold nrOf at ih ⊢
      unfold setEnterArgs
      split
      · rename_i hp
        by_cases hname : p.name = name
        · rw [List.find?_cons_of_pos (by simpa using hname),
            List.find?_cons_of_pos (by simpa using hname)]
          rfl
        · rw [List.find?_cons_of_neg (by simpa using hname),
            List.find?_cons_of_neg (by simpa using hname)]
      · by_cases hname : p.name = name
        · rw [List.find?_cons_of_pos (by simpa using hname),
            List.find?_cons_of_pos (by simpa using hname)]
        · rw [List.find?_cons_of_neg (by simpa using hname),
            List.find?_cons_of_neg (by simpa using hname)]
          exact ih

/-! ### The black list -/

/-- Names that are configured are turned down by their numbers, and nothing else changes. -/
theorem foldlM_reject {names : List Text} : ∀ {conf : SyscallConfig},
    (∀ name ∈ names, ∃ nr, nrOf conf.pointArgs name = some nr) →
      ∃ black, names.foldlM SyscallConfig.reject conf = .ok { conf with sysBlacklist := black } ∧
        ∀ nr, nr ∈ black ↔ nr ∈ conf.sysBlacklist ∨
          ∃ name ∈ names, nrOf conf.pointArgs name = some nr := by
  induction names with
  | nil =>
      intro conf _
      exact ⟨conf.sysBlacklist, rfl, fun nr => by simp⟩
  | cons name names ih =>
      intro conf h
      obtain ⟨⟨nr₀, hnr₀⟩, hrest⟩ := List.forall_mem_cons.mp h
      obtain ⟨p, hp, rfl⟩ := getSyscallPointByName_ok hnr₀
      let conf' := { conf with sysBlacklist := appendNew conf.sysBlacklist p.nr }
      have hstep : conf.reject name = .ok conf' := by
        unfold SyscallConfig.reject
        rw [hp]
        rfl
      obtain ⟨black, hfold, hmem⟩ := @ih conf' hrest
      refine ⟨black, Outcome.bind_eq_ok.mpr ⟨conf', hstep, hfold⟩, fun nr => ?_⟩
      rw [hmem, mem_appendNew, or_assoc]
      refine or_congr_right ?_
      constructor
      · rintro (rfl | ⟨name', hname', hnr⟩)
        · exact ⟨name, List.mem_cons_self .., hnr₀⟩
        · exact ⟨name', List.mem_cons_of_mem _ hname', hnr⟩
      · rintro ⟨name', hname', hnr⟩
        rcases List.mem_cons.mp hname' with rfl | hname'
        · exact Or.inl (Option.some.inj (hnr.symm.trans hnr₀))
        · exact Or.inr ⟨name', hname', hnr⟩

/-! ### The white list -/

/-- The number that an item adds to the white list, if the black list lets it. -/
def pickedNr (points : List SyscallPoint) (black : List u32) (item : Text) : Option u32 :=
  (nrOf points (splitItem item).1).filter fun nr => nr ∉ black

/-- What one item does, where it does not panic. -/
theorem select_eq_ok {h : FilterHelper} {conf conf' : SyscallConfig} {item : Text}
    (hok : conf.select h item = .ok conf') :
    (∃ nr, nrOf conf.pointArgs (splitItem item).1 = some nr) ∧
      conf'.sysBlacklist = conf.sysBlacklist ∧
      nrOf conf'.pointArgs = nrOf conf.pointArgs ∧
      conf'.sysWhitelist = conf.sysWhitelist ++
        (pickedNr conf.pointArgs conf.sysBlacklist item).toList ∧
      ∀ nr ∈ pickedNr conf.pointArgs conf.sysBlacklist item, nr ∉ conf.sysWhitelist := by
  obtain ⟨p, hp, hrest⟩ := Outcome.bind_eq_ok.mp hok
  have hnr := getSyscallPointByName_eq_ok hp
  unfold pickedNr
  rw [hnr]
  split at hrest
  · rename_i hblack
    obtain rfl := Except.ok.inj hrest
    have hnone : (some p.nr).filter (fun nr => decide (nr ∉ conf.sysBlacklist)) = none :=
      Option.filter_some_neg (by simpa using hblack)
    rw [hnone]
    exact ⟨⟨p.nr, rfl⟩, rfl, rfl, (List.append_nil _).symm, fun nr h => by cases h⟩
  · rename_i hblack
    split at hrest
    · cases hrest
    · rename_i hwhite
      obtain ⟨args, -, hconf⟩ := Outcome.bind_eq_ok.mp hrest
      obtain rfl := Except.ok.inj hconf
      have hsome : (some p.nr).filter (fun nr => decide (nr ∉ conf.sysBlacklist)) = some p.nr :=
        Option.filter_some_pos (by simpa using hblack)
      rw [hsome]
      refine ⟨⟨p.nr, rfl⟩, rfl, ?_, rfl, ?_⟩
      · exact funext fun name => nrOf_setEnterArgs name _ args conf.pointArgs
      · intro nr hnr'
        obtain rfl := Option.some.inj hnr'
        exact hwhite

/-- An item of a configured system call is taken unless its number is there already. -/
theorem select_ok {h : FilterHelper} {conf : SyscallConfig} {item : Text} {nr : u32}
    (hnr : nrOf conf.pointArgs (splitItem item).1 = some nr)
    (hfilters : nr ∉ conf.sysBlacklist →
      ∀ name ∈ filterNames (splitItem item).2, (h.getFilterByName name).isSome = true)
    (hnew : ∀ nr ∈ pickedNr conf.pointArgs conf.sysBlacklist item, nr ∉ conf.sysWhitelist) :
    ∃ conf', conf.select h item = .ok conf' := by
  obtain ⟨p, hp, rfl⟩ := getSyscallPointByName_ok hnr
  unfold SyscallConfig.select
  rw [hp]
  show ∃ conf', (if p.nr ∈ conf.sysBlacklist then _ else _) = Except.ok conf'
  split
  · exact ⟨conf, rfl⟩
  · rename_i hblack
    have hpicked : pickedNr conf.pointArgs conf.sysBlacklist item = some p.nr := by
      unfold pickedNr
      rw [hnr]
      exact Option.filter_some_pos (by simpa using hblack)
    rw [if_neg (hnew p.nr hpicked)]
    obtain ⟨args, hargs⟩ := applyFilters_ok (hfilters hblack) p.enterPointArgs
    exact ⟨_, Outcome.bind_eq_ok.mpr ⟨args, hargs, rfl⟩⟩

/-- What the items do, where none of them panics: the white list grows by the picked numbers,
and none of them is picked twice. -/
theorem foldlM_select_eq_ok {h : FilterHelper} {items : List Text} :
    ∀ {conf conf' : SyscallConfig}, items.foldlM (SyscallConfig.select h) conf = .ok conf' →
      (∀ item ∈ items, ∃ nr, nrOf conf.pointArgs (splitItem item).1 = some nr) ∧
        conf'.sysBlacklist = conf.sysBlacklist ∧
        conf'.sysWhitelist = conf.sysWhitelist ++
          items.filterMap (pickedNr conf.pointArgs conf.sysBlacklist) ∧
        (conf.sysWhitelist.Nodup → conf'.sysWhitelist.Nodup) := by
  induction items with
  | nil =>
      intro conf conf' hok
      obtain rfl := Except.ok.inj hok
      exact ⟨List.forall_mem_nil _, rfl, (List.append_nil _).symm, id⟩
  | cons item items ih =>
      intro conf conf' hok
      obtain ⟨mid, hmid, hrest⟩ := Outcome.bind_eq_ok.mp hok
      obtain ⟨hnr, hblack, hsame, hwhite, hnew⟩ := select_eq_ok hmid
      obtain ⟨hnrs, hblack', hwhite', hnodup⟩ := ih hrest
      have hpicked : pickedNr mid.pointArgs mid.sysBlacklist =
          pickedNr conf.pointArgs conf.sysBlacklist := by
        unfold pickedNr
        rw [hsame, hblack]
      rw [hsame] at hnrs
      rw [hpicked, hwhite, List.append_assoc] at hwhite'
      refine ⟨List.forall_mem_cons.mpr ⟨hnr, hnrs⟩, hblack'.trans hblack, ?_, fun hstart => ?_⟩
      · rw [hwhite']
        cases hp : pickedNr conf.pointArgs conf.sysBlacklist item with
        | none => rw [List.filterMap_cons_none hp]; rfl
        | some nr => rw [List.filterMap_cons_some hp]; rfl
      · refine hnodup ?_
        rw [hwhite]
        cases hp : pickedNr conf.pointArgs conf.sysBlacklist item with
        | none =>
            show (conf.sysWhitelist ++ []).Nodup
            rwa [List.append_nil]
        | some nr =>
            refine List.nodup_append.mpr ⟨hstart, List.nodup_singleton nr, ?_⟩
            intro a ha b hb heq
            exact hnew nr hp (List.mem_singleton.mp hb ▸ heq ▸ ha)

/-- The items are taken where all are configured, their filters are defined, and no number is
picked twice. -/
theorem foldlM_select_ok {h : FilterHelper} {items : List Text} : ∀ {conf : SyscallConfig},
    (∀ item ∈ items, ∃ nr, nrOf conf.pointArgs (splitItem item).1 = some nr ∧
      (nr ∉ conf.sysBlacklist →
        ∀ name ∈ filterNames (splitItem item).2, (h.getFilterByName name).isSome = true)) →
      (conf.sysWhitelist ++
        items.filterMap (pickedNr conf.pointArgs conf.sysBlacklist)).Nodup →
      ∃ conf', items.foldlM (SyscallConfig.select h) conf = .ok conf' := by
  induction items with
  | nil => exact fun {conf} _ _ => ⟨conf, rfl⟩
  | cons item items ih =>
      intro conf hitems hnodup
      obtain ⟨⟨nr, hnr, hfilters⟩, hrest⟩ := List.forall_mem_cons.mp hitems
      have hsplit : conf.sysWhitelist ++
          (item :: items).filterMap (pickedNr conf.pointArgs conf.sysBlacklist) =
          (conf.sysWhitelist ++ (pickedNr conf.pointArgs conf.sysBlacklist item).toList) ++
            items.filterMap (pickedNr conf.pointArgs conf.sysBlacklist) := by
        rw [List.append_assoc]
        cases hp : pickedNr conf.pointArgs conf.sysBlacklist item with
        | none => rw [List.filterMap_cons_none hp]; rfl
        | some nr => rw [List.filterMap_cons_some hp]; rfl
      rw [hsplit] at hnodup
      have hnew : ∀ nr ∈ pickedNr conf.pointArgs conf.sysBlacklist item,
          nr ∉ conf.sysWhitelist := by
        intro nr' hpicked hmem
        have hfirst := (List.nodup_append.mp hnodup).1
        rw [show pickedNr conf.pointArgs conf.sysBlacklist item = some nr' from hpicked] at hfirst
        exact (List.nodup_append.mp hfirst).2.2 nr' hmem nr' (List.mem_singleton_self _) rfl
      obtain ⟨mid, hmid⟩ := select_ok hnr hfilters hnew
      obtain ⟨-, hblack, hsame, hwhite, -⟩ := select_eq_ok hmid
      have hpicked : pickedNr mid.pointArgs mid.sysBlacklist =
          pickedNr conf.pointArgs conf.sysBlacklist := by
        unfold pickedNr
        rw [hsame, hblack]
      obtain ⟨last, hlast⟩ := @ih mid (by rw [hsame, hblack]; exact hrest)
        (by rw [hpicked, hwhite]; exact hnodup)
      exact ⟨last, Outcome.bind_eq_ok.mpr ⟨mid, hmid, hlast⟩⟩

/-! ## What the texts mean -/

/-- What `Parse_Syscall` works on: the configured system calls and filters, the texts of `-s`
and `--no-syscall`, and whether a configuration file of system calls was given with `-c`. -/
structure SyscallRequest where
  points : List SyscallPoint
  filters : FilterHelper
  sysCall : Text
  noSysCall : Text
  configGiven : Bool

namespace SyscallRequest

variable (r : SyscallRequest)

/-- The system calls have distinct names and numbers, and the texts are made of configured
names, groups with configured members and, in `-s`, filters that are defined and `all`. -/
structure WellFormed : Prop where
  names : (r.points.map (·.name)).Nodup
  numbers : (r.points.map (·.nr)).Nodup
  noAll : allItem ∉ pieces r.noSysCall
  rejected : ∀ item ∈ textItems r.noSysCall, ∃ p ∈ r.points, p.name = item
  selected : ∀ item ∈ textItems r.sysCall, (∃ p ∈ r.points, p.name = (splitItem item).1) ∧
    ∀ name ∈ filterNames (splitItem item).2, (r.filters.getFilterByName name).isSome = true

/-- All configured system calls are meant. -/
def MeansAll : Prop :=
  allItem ∈ pieces r.sysCall ∨ r.sysCall = [] ∧ r.configGiven = true

/-- The numbers that `-s` means. -/
def Selects (nr : u32) : Prop :=
  (r.MeansAll ∧ ∃ p ∈ r.points, p.nr = nr) ∨
    ¬ r.MeansAll ∧ ∃ item ∈ textItems r.sysCall, ∃ p ∈ r.points,
      p.name = (splitItem item).1 ∧ p.nr = nr

/-- The numbers that `--no-syscall` names. -/
def Rejects (nr : u32) : Prop :=
  ∃ item ∈ textItems r.noSysCall, ∃ p ∈ r.points, p.name = item ∧ p.nr = nr

/-- The configuration that `Parse_Syscall` makes. -/
def parsed : Except Failure SyscallConfig :=
  (SyscallConfig.ofPoints r.points).parseSyscall r.filters r.sysCall r.noSysCall

/-- `Parse_Syscall` returns, and the white list is what the texts mean, without duplicates. -/
def IsMet : Prop :=
  ∃ conf, r.parsed = .ok conf ∧ conf.sysWhitelist.Nodup ∧
    conf.sysWhitelist.Disjoint conf.sysBlacklist ∧
    ∀ nr, nr ∈ conf.sysWhitelist ↔ r.Selects nr ∧ ¬ r.Rejects nr

/-- An empty `-s` beside a configuration file means nothing that is not rejected; with `all`, a
name that reads as a name with filters is rejected together with that name; and without `all`,
no system call that is not rejected is written in two ways. -/
structure Unambiguous : Prop where
  default : r.sysCall = [] → r.configGiven = true → ∀ p ∈ r.points, r.Rejects p.nr
  all : allItem ∈ pieces r.sysCall → ∀ p ∈ r.points, (splitItem p.name).1 ≠ p.name →
    r.Rejects p.nr ∧ ∃ q ∈ r.points, q.name = (splitItem p.name).1 ∧ r.Rejects q.nr
  items : allItem ∉ pieces r.sysCall →
    ∀ item ∈ textItems r.sysCall, ∀ item' ∈ textItems r.sysCall,
      (splitItem item).1 = (splitItem item').1 →
        (∃ p ∈ r.points, p.name = (splitItem item).1 ∧ ¬ r.Rejects p.nr) → item = item'

/-! ## What `Parse_Syscall` makes of them -/

/-- The items of the white list. -/
def items : List Text :=
  if allItem ∈ pieces r.sysCall then r.points.map (·.name)
  else firstOccurrences (textItems r.sysCall)

/-- The white list, where none of the items panics. -/
def picked (black : List u32) : List u32 := r.items.filterMap (pickedNr r.points black)

variable {r}

/-- The items of `-s` are taken one after the other. -/
theorem selectNames_eq_ok {black : List u32} : ∃ mode, ∀ conf,
    SyscallConfig.selectNames r.filters r.sysCall ⟨true, .common, r.points, [], black⟩ = .ok conf ↔
      ∃ last, r.items.foldlM (SyscallConfig.select r.filters) ⟨true, mode, r.points, [], black⟩ =
          .ok last ∧
        (if last.sysWhitelist = [] then { last with enable := false } else last) = conf := by
  let start : SyscallConfig := ⟨true, .common, r.points, [], black⟩
  obtain ⟨mode, hconf, hitems⟩ : ∃ mode, (start.parseSyscallNames r.sysCall).1 =
        ⟨true, mode, r.points, [], black⟩ ∧
      (if mode = .all then r.points.map (·.name) else (start.parseSyscallNames r.sysCall).2) =
        r.items := by
    unfold items
    by_cases hall : allItem ∈ pieces r.sysCall
    · rw [if_pos hall]
      exact ⟨.all, parseSyscallNames_of_all hall start, rfl⟩
    · rw [if_neg hall, parseSyscallNames_of_not_all hall]
      exact ⟨.common, rfl, rfl⟩
  refine ⟨mode, fun conf => ?_⟩
  unfold SyscallConfig.selectNames
  dsimp only
  rw [hconf, hitems, Outcome.bind_eq_ok]
  exact exists_congr fun last => and_congr_right fun _ => ⟨Except.ok.inj, congrArg Except.ok⟩

/-- `Parse_Syscall` turns the names of `--no-syscall` down and takes the items of `-s`. -/
theorem parsed_eq_ok (h : r.WellFormed) :
    ∃ black mode, (∀ nr, nr ∈ black ↔ r.Rejects nr) ∧ ∀ conf, r.parsed = .ok conf ↔
      ∃ last, r.items.foldlM (SyscallConfig.select r.filters) ⟨true, mode, r.points, [], black⟩ =
          .ok last ∧
        (if last.sysWhitelist = [] then { last with enable := false } else last) = conf := by
  let start : SyscallConfig := ⟨true, .common, r.points, [], []⟩
  have hnrs : ∀ name ∈ firstOccurrences (textItems r.noSysCall),
      ∃ nr, nrOf start.pointArgs name = some nr := by
    intro name hname
    obtain ⟨p, hp, hpname⟩ := h.rejected name (mem_firstOccurrences.mp hname)
    exact ⟨p.nr, (nrOf_eq_some_iff h.names).mpr ⟨p, hp, hpname, rfl⟩⟩
  obtain ⟨black, hreject, hmem⟩ := foldlM_reject hnrs
  obtain ⟨mode, hselect⟩ := @selectNames_eq_ok r black
  refine ⟨black, mode, fun nr => ?_, fun conf => ?_⟩
  · rw [hmem]
    refine (or_iff_right List.not_mem_nil).trans (exists_congr fun name => ?_)
    rw [mem_firstOccurrences, nrOf_eq_some_iff h.names]
  · have hparsed : r.parsed =
        (firstOccurrences (textItems r.noSysCall)).foldlM SyscallConfig.reject start >>=
          SyscallConfig.selectNames r.filters r.sysCall := by
      have hnames := parseSyscallNames_of_not_all h.noAll start
      unfold parsed SyscallConfig.parseSyscall SyscallConfig.ofPoints
      dsimp only
      rw [hnames]
      rfl
    rw [hparsed, hreject, ← hselect]
    rfl

section Picked

variable {black : List u32} (hblack : ∀ nr, nr ∈ black ↔ r.Rejects nr)
include hblack

/-- An item picks the number of its system call unless that is rejected. -/
theorem pickedNr_eq_some_iff (h : r.WellFormed) {item : Text} {nr : u32} :
    pickedNr r.points black item = some nr ↔
      (∃ p ∈ r.points, p.name = (splitItem item).1 ∧ p.nr = nr) ∧ ¬ r.Rejects nr := by
  unfold pickedNr
  rw [Option.filter_eq_some_iff, nrOf_eq_some_iff h.names]
  refine and_congr_right fun _ => ?_
  rw [decide_eq_true_iff, hblack]

theorem mem_picked_iff (h : r.WellFormed) {nr : u32} :
    nr ∈ r.picked black ↔ (∃ item ∈ r.items, ∃ p ∈ r.points,
      p.name = (splitItem item).1 ∧ p.nr = nr) ∧ ¬ r.Rejects nr := by
  unfold picked
  rw [List.mem_filterMap]
  constructor
  · rintro ⟨item, hitem, hpicked⟩
    obtain ⟨hp, hkept⟩ := (pickedNr_eq_some_iff hblack h).mp hpicked
    exact ⟨⟨item, hitem, hp⟩, hkept⟩
  · rintro ⟨⟨item, hitem, hp⟩, hkept⟩
    exact ⟨item, hitem, (pickedNr_eq_some_iff hblack h).mpr ⟨hp, hkept⟩⟩

/-- No number is picked twice. -/
theorem picked_nodup_iff (h : r.WellFormed) (hitems : r.items.Nodup) :
    (r.picked black).Nodup ↔ ∀ item ∈ r.items, ∀ item' ∈ r.items,
      (splitItem item).1 = (splitItem item').1 →
        (∃ p ∈ r.points, p.name = (splitItem item).1 ∧ ¬ r.Rejects p.nr) → item = item' := by
  unfold picked List.Nodup
  rw [List.pairwise_filterMap]
  constructor
  · rintro hpairwise item hitem item' hitem' hname ⟨p, hp, hpname, hkept⟩
    by_contra hne
    have hsymm : Std.Symm fun a a' : Text => ∀ b, pickedNr r.points black a = some b →
        ∀ b', pickedNr r.points black a' = some b' → b ≠ b' :=
      ⟨fun a a' hd b hb b' hb' heq => hd b' hb' b hb heq.symm⟩
    have hdiffer := hpairwise.forall hitem hitem' hne
    exact hdiffer p.nr ((pickedNr_eq_some_iff hblack h).mpr ⟨⟨p, hp, hpname, rfl⟩, hkept⟩) p.nr
      ((pickedNr_eq_some_iff hblack h).mpr ⟨⟨p, hp, hpname.trans hname, rfl⟩, hkept⟩) rfl
  · intro hsame
    refine List.Nodup.pairwise_of_forall_ne hitems ?_
    intro item hitem item' hitem' hne nr hnr nr' hnr' heq
    obtain ⟨⟨p, hp, hpname, rfl⟩, hkept⟩ := (pickedNr_eq_some_iff hblack h).mp hnr
    obtain ⟨⟨q, hq, hqname, rfl⟩, -⟩ := (pickedNr_eq_some_iff hblack h).mp hnr'
    obtain rfl : p = q := List.inj_on_of_nodup_map h.numbers hp hq heq
    exact hne (hsame item hitem item' hitem' (hpname.symm.trans hqname) ⟨p, hp, hpname, hkept⟩)

end Picked

/-- The result is right exactly when no item panics and the picked numbers are right. -/
theorem isMet_iff_picked (h : r.WellFormed) :
    ∃ black mode, (∀ nr, nr ∈ black ↔ r.Rejects nr) ∧ (r.IsMet ↔
      (∃ last, r.items.foldlM (SyscallConfig.select r.filters) ⟨true, mode, r.points, [], black⟩ =
        .ok last) ∧
      ∀ nr, nr ∈ r.picked black ↔ r.Selects nr ∧ ¬ r.Rejects nr) := by
  obtain ⟨black, mode, hblack, hparsed⟩ := parsed_eq_ok h
  refine ⟨black, mode, hblack, ?_⟩
  have hresult {last : SyscallConfig}
      (hlast : r.items.foldlM (SyscallConfig.select r.filters)
        ⟨true, mode, r.points, [], black⟩ = .ok last) :
      last.sysWhitelist = r.picked black ∧ last.sysBlacklist = black ∧
        last.sysWhitelist.Nodup := by
    obtain ⟨-, hsame, hwhite, hnodup⟩ := foldlM_select_eq_ok hlast
    exact ⟨hwhite, hsame, hnodup List.nodup_nil⟩
  have henable (last : SyscallConfig) :
      (if last.sysWhitelist = [] then { last with enable := false } else last).sysWhitelist =
          last.sysWhitelist ∧
        (if last.sysWhitelist = [] then { last with enable := false } else last).sysBlacklist =
          last.sysBlacklist := by
    split <;> exact ⟨rfl, rfl⟩
  constructor
  · rintro ⟨conf, hconf, -, -, hmem⟩
    obtain ⟨last, hlast, rfl⟩ := (hparsed conf).mp hconf
    rw [(henable last).1, (hresult hlast).1] at hmem
    exact ⟨⟨last, hlast⟩, hmem⟩
  · rintro ⟨⟨last, hlast⟩, hmem⟩
    obtain ⟨hwhite, hsame, hnodup⟩ := hresult hlast
    refine ⟨_, (hparsed _).mpr ⟨last, hlast, rfl⟩, ?_, ?_, ?_⟩
    · rw [(henable last).1]
      exact hnodup
    · rw [(henable last).1, (henable last).2, hwhite, hsame]
      intro nr hpicked hrejected
      exact ((hmem nr).mp hpicked).2 ((hblack nr).mp hrejected)
    · rw [(henable last).1, hwhite]
      exact hmem

/-! ### With `all` -/

theorem items_of_all (hall : allItem ∈ pieces r.sysCall) : r.items = r.points.map (·.name) :=
  if_pos hall

section All

variable {black : List u32} (hblack : ∀ nr, nr ∈ black ↔ r.Rejects nr)
include hblack

/-- Where the items are taken and the numbers are right, a name that reads as a name with
filters is rejected together with that name. -/
theorem all_of_picked (h : r.WellFormed) (hall : allItem ∈ pieces r.sysCall) {mode : TraceMode}
    {last : SyscallConfig}
    (hlast : r.items.foldlM (SyscallConfig.select r.filters) ⟨true, mode, r.points, [], black⟩ =
      .ok last)
    (hmem : ∀ nr, nr ∈ r.picked black ↔ r.Selects nr ∧ ¬ r.Rejects nr) {p : SyscallPoint}
    (hp : p ∈ r.points) (hname : (splitItem p.name).1 ≠ p.name) :
    r.Rejects p.nr ∧ ∃ q ∈ r.points, q.name = (splitItem p.name).1 ∧ r.Rejects q.nr := by
  obtain ⟨hconfigured, -, hwhite, hnodup⟩ := foldlM_select_eq_ok hlast
  have hitems : r.items = r.points.map (·.name) := items_of_all hall
  have hpicked : (r.picked black).Nodup := by
    have hlastNodup := hnodup List.nodup_nil
    rw [hwhite] at hlastNodup
    exact hlastNodup
  have hitem : p.name ∈ r.items := hitems ▸ List.mem_map.mpr ⟨p, hp, rfl⟩
  constructor
  · by_contra hkept
    have hselects : r.Selects p.nr := Or.inl ⟨Or.inl hall, p, hp, rfl⟩
    obtain ⟨⟨item, -, q, hq, hqname, hqnr⟩, -⟩ :=
      (mem_picked_iff hblack h).mp ((hmem p.nr).mpr ⟨hselects, hkept⟩)
    obtain rfl : q = p := List.inj_on_of_nodup_map h.numbers hq hp hqnr
    refine hname ?_
    rw [hqname]
    exact splitItem_idem item
  · obtain ⟨nr, hnr⟩ := hconfigured p.name hitem
    obtain ⟨q, hq, hqname, rfl⟩ := (nrOf_eq_some_iff h.names).mp hnr
    refine ⟨q, hq, hqname, ?_⟩
    by_contra hkept
    -- the name and the name before the filters would pick the same number
    have hitem' : q.name ∈ r.items := hitems ▸ List.mem_map.mpr ⟨q, hq, rfl⟩
    have hsame : (splitItem p.name).1 = (splitItem q.name).1 := by
      rw [hqname]
      exact (splitItem_idem p.name).symm
    have heq := (picked_nodup_iff hblack h (hitems ▸ h.names)).mp hpicked p.name hitem q.name
      hitem' hsame ⟨q, hq, hqname, hkept⟩
    exact hname (hqname.symm.trans heq.symm)

/-- With `all`, the items are taken and the numbers are right where such names are rejected. -/
theorem picked_of_all (h : r.WellFormed) (hall : allItem ∈ pieces r.sysCall)
    (hnames : ∀ p ∈ r.points, (splitItem p.name).1 ≠ p.name →
      r.Rejects p.nr ∧ ∃ q ∈ r.points, q.name = (splitItem p.name).1 ∧ r.Rejects q.nr)
    (mode : TraceMode) :
    (∃ last, r.items.foldlM (SyscallConfig.select r.filters) ⟨true, mode, r.points, [], black⟩ =
        .ok last) ∧
      ∀ nr, nr ∈ r.picked black ↔ r.Selects nr ∧ ¬ r.Rejects nr := by
  have hitems : r.items = r.points.map (·.name) := items_of_all hall
  -- an item whose system call is kept is read as that name
  have hread {item : Text} (hitem : item ∈ r.items) {q : SyscallPoint} (hq : q ∈ r.points)
      (hqname : q.name = (splitItem item).1) (hkept : ¬ r.Rejects q.nr) :
      (splitItem item).1 = item := by
    rw [hitems] at hitem
    obtain ⟨p, hp, rfl⟩ := List.mem_map.mp hitem
    by_contra hne
    obtain ⟨-, q', hq', hqname', hrejected⟩ := hnames p hp hne
    obtain rfl : q = q' := List.inj_on_of_nodup_map h.names hq hq' (hqname.trans hqname'.symm)
    exact hkept hrejected
  constructor
  · refine foldlM_select_ok (fun item hitem => ?_) ?_
    · have hmem := hitem
      rw [hitems] at hmem
      obtain ⟨p, hp, rfl⟩ := List.mem_map.mp hmem
      by_cases hname : (splitItem p.name).1 = p.name
      · refine ⟨p.nr, (nrOf_eq_some_iff h.names).mpr ⟨p, hp, hname.symm, rfl⟩, fun _ name hn => ?_⟩
        rw [splitItem_filters hname] at hn
        exact absurd hn List.not_mem_nil
      · obtain ⟨-, q, hq, hqname, hrejected⟩ := hnames p hp hname
        exact ⟨q.nr, (nrOf_eq_some_iff h.names).mpr ⟨q, hq, hqname, rfl⟩,
          fun hkept => absurd ((hblack q.nr).mpr hrejected) hkept⟩
    · rw [List.nil_append]
      refine (picked_nodup_iff hblack h (hitems ▸ h.names)).mpr ?_
      intro item hitem item' hitem' hsame hkept
      obtain ⟨q, hq, hqname, hq'⟩ := hkept
      rw [← hread hitem hq hqname hq', hsame, hread hitem' hq (hqname.trans hsame) hq']
  · intro nr
    rw [mem_picked_iff hblack h]
    refine and_congr_left fun hkept => ⟨?_, ?_⟩
    · rintro ⟨item, -, q, hq, -, hnr⟩
      exact Or.inl ⟨Or.inl hall, q, hq, hnr⟩
    · rintro (⟨-, p, hp, rfl⟩ | ⟨hnot, -⟩)
      · have hitem : p.name ∈ r.items := hitems ▸ List.mem_map.mpr ⟨p, hp, rfl⟩
        refine ⟨p.name, hitem, p, hp, ?_, rfl⟩
        by_contra hne
        exact hkept (hnames p hp fun heq => hne heq.symm).1
      · exact absurd (Or.inl hall) hnot

end All

/-! ### Without `all` -/

theorem mem_items_of_not_all (hall : allItem ∉ pieces r.sysCall) {item : Text} :
    item ∈ r.items ↔ item ∈ textItems r.sysCall := by
  unfold items
  rw [if_neg hall, mem_firstOccurrences]

theorem nodup_items_of_not_all (hall : allItem ∉ pieces r.sysCall) : r.items.Nodup := by
  unfold items
  rw [if_neg hall]
  exact nodup_firstOccurrences _

/-- What the items name is what `-s` means, unless it means all without naming them. -/
theorem picked_right_iff {black : List u32} (hblack : ∀ nr, nr ∈ black ↔ r.Rejects nr)
    (h : r.WellFormed) (hall : allItem ∉ pieces r.sysCall) :
    (∀ nr, nr ∈ r.picked black ↔ r.Selects nr ∧ ¬ r.Rejects nr) ↔
      (r.sysCall = [] → r.configGiven = true → ∀ p ∈ r.points, r.Rejects p.nr) := by
  have hnamed (nr : u32) : nr ∈ r.picked black ↔ (∃ item ∈ textItems r.sysCall,
      ∃ p ∈ r.points, p.name = (splitItem item).1 ∧ p.nr = nr) ∧ ¬ r.Rejects nr := by
    rw [mem_picked_iff hblack h]
    simp only [mem_items_of_not_all hall]
  by_cases hempty : r.sysCall = [] ∧ r.configGiven = true
  · have hmeans : r.MeansAll := Or.inr hempty
    have hnone (nr : u32) : nr ∉ r.picked black := by
      rw [hnamed, hempty.1]
      rintro ⟨⟨item, hitem, -⟩, -⟩
      exact absurd hitem List.not_mem_nil
    constructor
    · intro hmem _ _ p hp
      by_contra hkept
      exact hnone p.nr ((hmem p.nr).mpr ⟨Or.inl ⟨hmeans, p, hp, rfl⟩, hkept⟩)
    · intro hrejected nr
      refine iff_of_false (hnone nr) ?_
      rintro ⟨⟨-, p, hp, rfl⟩ | ⟨hnot, -⟩, hkept⟩
      · exact hkept (hrejected hempty.1 hempty.2 p hp)
      · exact hnot hmeans
  · have hmeans : ¬ r.MeansAll := fun hm => hm.elim hall hempty
    refine iff_of_true (fun nr => ?_) fun hs hc => absurd ⟨hs, hc⟩ hempty
    rw [hnamed]
    refine and_congr_left fun _ => ⟨fun hitem => Or.inr ⟨hmeans, hitem⟩, ?_⟩
    rintro (⟨hm, -⟩ | ⟨-, hitem⟩)
    · exact absurd hm hmeans
    · exact hitem

/-- The items are taken exactly when no number is picked twice. -/
theorem taken_iff {black : List u32} (h : r.WellFormed) (hall : allItem ∉ pieces r.sysCall)
    (mode : TraceMode) :
    (∃ last, r.items.foldlM (SyscallConfig.select r.filters) ⟨true, mode, r.points, [], black⟩ =
      .ok last) ↔ (r.picked black).Nodup := by
  constructor
  · rintro ⟨last, hlast⟩
    obtain ⟨-, -, hwhite, hnodup⟩ := foldlM_select_eq_ok hlast
    have hlastNodup := hnodup List.nodup_nil
    rw [hwhite] at hlastNodup
    exact hlastNodup
  · intro hnodup
    refine foldlM_select_ok (fun item hitem => ?_) hnodup
    obtain ⟨⟨p, hp, hpname⟩, hfilters⟩ :=
      h.selected item ((mem_items_of_not_all hall).mp hitem)
    exact ⟨p.nr, (nrOf_eq_some_iff h.names).mpr ⟨p, hp, hpname, rfl⟩, fun _ => hfilters⟩

/-- **When the white list is what the texts mean.** For configured system calls with distinct
names and numbers and texts made of them, `Parse_Syscall` returns and its white list is the
set of the selected numbers without the rejected ones, exactly when the texts are unambiguous:
an empty `-s` beside a configuration file means nothing that is kept, no kept system call is
written in two ways, and with `all` no kept name reads as a name with filters. -/
theorem parseSyscall_selects_iff (h : r.WellFormed) : r.IsMet ↔ r.Unambiguous := by
  obtain ⟨black, mode, hblack, hmet⟩ := isMet_iff_picked h
  rw [hmet]
  by_cases hall : allItem ∈ pieces r.sysCall
  · constructor
    · rintro ⟨⟨last, hlast⟩, hmem⟩
      refine ⟨fun hempty => ?_, fun _ p hp hname => ?_, fun hnot => absurd hall hnot⟩
      · rw [hempty] at hall
        exact absurd hall (by decide)
      · exact all_of_picked hblack h hall hlast hmem hp hname
    · intro hclear
      exact picked_of_all hblack h hall (hclear.all hall) mode
  · rw [taken_iff h hall, picked_right_iff hblack h hall,
      picked_nodup_iff hblack h (nodup_items_of_not_all hall)]
    simp only [mem_items_of_not_all hall]
    constructor
    · rintro ⟨hitems, hdefault⟩
      exact ⟨hdefault, fun hmem => absurd hmem hall, fun _ => hitems⟩
    · rintro ⟨hdefault, -, hitems⟩
      exact ⟨hitems hall, hdefault⟩

end SyscallRequest

/-! ### Two system calls and a filter -/

/-- `openat` and `close` are configured, and `f0` is the filter `w:a`. -/
def openCloseRequest (sysCall noSysCall : Text) : SyscallRequest where
  points := [⟨56, "openat".toList, [], []⟩, ⟨57, "close".toList, [], []⟩]
  filters := FilterHelper.new.append ⟨.whitelist, strValOf (ascii "a"), 1, 0⟩
  sysCall := sysCall
  noSysCall := noSysCall
  configGiven := false

theorem openCloseRequest_wellFormed {sysCall noSysCall : Text}
    (hno : allItem ∉ pieces noSysCall)
    (hrejected : ∀ item ∈ textItems noSysCall, item = "openat".toList ∨ item = "close".toList)
    (hselected : ∀ item ∈ textItems sysCall, ((splitItem item).1 = "openat".toList ∨
      (splitItem item).1 = "close".toList) ∧ ∀ name ∈ filterNames (splitItem item).2,
        name = "f0".toList) : (openCloseRequest sysCall noSysCall).WellFormed := by
  have hconfigured {name : Text} (h : name = "openat".toList ∨ name = "close".toList) :
      ∃ p ∈ (openCloseRequest sysCall noSysCall).points, p.name = name := by
    rcases h with rfl | rfl
    · exact ⟨⟨56, "openat".toList, [], []⟩, List.mem_cons_self .., rfl⟩
    · exact ⟨⟨57, "close".toList, [], []⟩, List.mem_cons_of_mem _ (List.mem_cons_self ..), rfl⟩
  refine ⟨?_, ?_, hno, fun item hitem => hconfigured (hrejected item hitem), fun item hitem => ?_⟩
  · show ["openat".toList, "close".toList].Nodup
    decide
  · show ([56, 57] : List u32).Nodup
    decide
  · obtain ⟨hname, hfilters⟩ := hselected item hitem
    refine ⟨hconfigured hname, fun name hn => ?_⟩
    rw [hfilters name hn]
    rfl

/-- A system call that is written with and without a filter is taken for a repetition. -/
theorem openatTwice_not_met :
    (openCloseRequest "openat,openat:f0".toList []).WellFormed ∧
      ¬ (openCloseRequest "openat,openat:f0".toList []).IsMet := by
  refine ⟨openCloseRequest_wellFormed (by decide) (by decide +kernel) (by decide +kernel), ?_⟩
  rintro ⟨conf, hconf, -⟩
  have hfails : (openCloseRequest "openat,openat:f0".toList []).parsed.isOk = false := by
    decide +kernel
  rw [hconf] at hfails
  cases hfails

/-- The texts `openat:f0,close` and `close` are unambiguous, and so `openat` alone is selected. -/
theorem openat_met :
    (openCloseRequest "openat:f0,close".toList "close".toList).IsMet := by
  have hwell : (openCloseRequest "openat:f0,close".toList "close".toList).WellFormed :=
    openCloseRequest_wellFormed (by decide) (by decide +kernel) (by decide +kernel)
  have hsame : ∀ item ∈ textItems "openat:f0,close".toList,
      ∀ item' ∈ textItems "openat:f0,close".toList,
        (splitItem item).1 = (splitItem item').1 → item = item' := by
    decide +kernel
  refine (SyscallRequest.parseSyscall_selects_iff hwell).mpr ⟨?_, ?_, ?_⟩
  · intro hempty
    exact absurd hempty (by decide)
  · intro hall
    exact absurd hall (by decide +kernel)
  · intro _ item hitem item' hitem' heq _
    exact hsame item hitem item' hitem' heq

end Stackplz
