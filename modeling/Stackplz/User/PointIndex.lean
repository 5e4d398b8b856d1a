import Mathlib.Algebra.Order.BigOperators.Group.List
import Stackplz.Basic.Outcome
import Stackplz.User.HookPoint

/-!
# The numbering of the points

Programs are attached by the position of a point in the list, while the maps are keyed by
its index and the decoder looks it up by position again, so index and position must agree.
Each of the start-up steps numbers its points in its own way: `startup_spec` says with which
numbers they leave the list, and `startup_pointsOk_iff` when these are the positions.
-/

set_option autoImplicit false

namespace Stackplz

/-! ## The invariant and its condition -/

/-- The points can be attached, configured and decoded by position. -/
structure PointsOk (points : List UprobeArgs) : Prop where
  index : ∀ i (hi : i < points.length), points[i].index.toNat = i
  /-- A key in use belongs to an entry point of the list: the point itself, or the one whose
  exit it is. -/
  enterKey : ∀ p ∈ points, p.enterKey ≠ 0 →
    ∃ q ∈ points, (q = p ∨ ∃ n, p = q.exitPoint n) ∧ p.enterKey = q.index + 1
  count : points.length ≤ 6

/-- The hook point is bound to a system call. -/
def hookBinds (s : Text) : Bool := (hookSuffix s).bindSyscall

/-- The hook point has an exit offset other than zero. -/
def hookExits (s : Text) : Bool :=
  match cutExitOffset (hookSuffix s).text with
  | .ok (_, some offset) => offset != 0
  | _ => false

/-- The number of points that come from files. -/
def fileCount (files : List FileStep) : Nat := (files.map fun file => file.points.length).sum

/-- The condition under which every point keeps its number. -/
structure Numbered (files : List FileStep) (hooks : List Text) : Prop where
  /-- Only one file has points. -/
  oneFile : (files.map fun file => file.points.length).countP (· ≠ 0) ≤ 1
  /-- The points of the files are made up for by bound points before every other hook. -/
  offset : ∀ j (hj : j < hooks.length), hookBinds hooks[j] = false →
    (hooks.take j).countP hookBinds = fileCount files
  /-- With an exit offset, no hook is bound. -/
  unbound : (∃ s ∈ hooks, hookExits s = true) → ∀ s ∈ hooks, hookBinds s = false
  count : fileCount files + hooks.countP (fun s => !hookBinds s) + hooks.countP hookExits ≤ 6

/-! ## What each step makes -/

/-- A point of a file is not bound, has no exit and is not marked. -/
structure UprobeArgs.Plain (p : UprobeArgs) : Prop where
  enterKey : p.enterKey = 0
  unbound : p.bindSyscall = false
  noExit : p.hasExit = false
  uret : p.enableUretprobe = false

section Specs

variable {env : ParseEnv} {lib : LibInfo}

theorem filePoint_spec {c : PointConfig} {i : Nat} {p : UprobeArgs}
    (h : env.filePoint lib c i = .ok p) : p.index = BitVec.ofNat 32 i ∧ p.Plain := by
  unfold ParseEnv.filePoint at h
  obtain ⟨signal, -, h⟩ := Outcome.bind_eq_ok.mp h
  obtain ⟨location, -, h⟩ := Outcome.bind_eq_ok.mp h
  obtain ⟨args, -, h⟩ := Outcome.bind_eq_ok.mp h
  obtain rfl := Except.ok.inj h
  exact ⟨rfl, rfl, rfl, rfl, rfl⟩

theorem hookPoint_spec {s : Text} {i : Nat} {p : UprobeArgs}
    (h : env.hookPoint lib s i = .ok p) :
    p.index = BitVec.ofNat 32 i ∧ p.enterKey = 0 ∧ p.bindSyscall = hookBinds s ∧
      p.hasExit = hookExits s := by
  unfold ParseEnv.hookPoint at h
  obtain ⟨⟨text, exitOffset⟩, hcut, h⟩ := Outcome.bind_eq_ok.mp h
  have hexits : hookExits s = (exitOffset.getD 0 != 0) := by
    unfold hookExits
    rw [hcut]
    cases exitOffset with
    | none => rfl
    | some offset => rfl
  obtain ⟨⟨name, off, args⟩, -, h⟩ := Outcome.bind_eq_ok.mp h
  obtain ⟨⟨symbol, offset⟩, -, h⟩ := Outcome.bind_eq_ok.mp h
  obtain ⟨pointArgs, -, h⟩ := Outcome.bind_eq_ok.mp h
  obtain ⟨retArg, -, h⟩ := Outcome.bind_eq_ok.mp h
  obtain rfl := Except.ok.inj h
  exact ⟨rfl, rfl, rfl, hexits.symm⟩

/-- A file adds its points, numbered from zero. -/
theorem parseFileConfig_spec {conf conf' : StackUprobeConfig} {file : List PointConfig}
    (h : conf.parseFileConfig env file = .ok conf') :
    ∃ new, conf'.points = conf.points ++ new ∧
      new.map (·.index) = (List.range file.length).map (BitVec.ofNat 32) ∧
      ∀ p ∈ new, p.Plain := by
  unfold StackUprobeConfig.parseFileConfig at h
  obtain ⟨new, hnew, h⟩ := Outcome.bind_eq_ok.mp h
  obtain rfl := Except.ok.inj h
  refine ⟨new, rfl, ?_, fun p hp => ?_⟩
  · have hindex : new.map (·.index) = file.zipIdx.map fun x => BitVec.ofNat 32 x.2 :=
      Outcome.map_of_mapM (fun _ _ hx => (filePoint_spec hx).1) hnew
    rw [hindex, List.range_eq_range', ← List.zipIdx_map_snd 0 file, List.map_map]
    rfl
  · obtain ⟨x, -, hx⟩ := Outcome.exists_of_mem_mapM hnew hp
    exact (filePoint_spec hx).2

/-- The files leave their points numbered from zero each. -/
theorem files_spec {files : List FileStep} {conf conf' : StackUprobeConfig}
    (h : files.foldlM (fun conf file =>
        ({ conf with lib := file.lib } : StackUprobeConfig).parseFileConfig env file.points)
      conf = .ok conf') :
    ∃ new, conf'.points = conf.points ++ new ∧
      new.map (·.index) =
        ((files.map fun file => file.points.length).flatMap List.range).map (BitVec.ofNat 32) ∧
      ∀ p ∈ new, p.Plain := by
  induction files generalizing conf with
  | nil =>
      obtain rfl := Except.ok.inj h
      exact ⟨[], (List.append_nil _).symm, rfl, by simp⟩
  | cons file files ih =>
      rw [List.foldlM_cons] at h
      obtain ⟨mid, hmid, hrest⟩ := Outcome.bind_eq_ok.mp h
      obtain ⟨first, hfirst, hindex, hplain⟩ := parseFileConfig_spec hmid
      obtain ⟨rest, hpoints, hindex', hplain'⟩ := ih hrest
      refine ⟨first ++ rest, ?_, ?_, fun p hp => ?_⟩
      · rw [hpoints, hfirst, List.append_assoc]
      · rw [List.map_append, hindex, hindex', List.map_cons, List.flatMap_cons, List.map_append]
      · exact (List.mem_append.mp hp).elim (hplain p) (hplain' p)

/-- The hooks are numbered by their place on the command line, bound or not. -/
theorem hooks_spec {hooks : List Text} {k : Nat} {ps : List UprobeArgs}
    (h : (hooks.zipIdx k).mapM (fun x => env.hookPoint lib x.1 x.2) = .ok ps) :
    ps.length = hooks.length ∧ (∀ p ∈ ps, p.enterKey = 0) ∧
      (ps.filter fun p => !p.bindSyscall).map (·.index) =
        (List.keptFrom (fun s => !hookBinds s) k hooks).map (BitVec.ofNat 32) ∧
      ps.countP UprobeArgs.hasExit = hooks.countP hookExits ∧
      ((∃ p ∈ ps, p.bindSyscall = true) ↔ ∃ s ∈ hooks, hookBinds s = true) := by
  induction hooks generalizing k ps with
  | nil =>
      obtain rfl : [] = ps := Except.ok.inj h
      simp [List.keptFrom]
  | cons s hooks ih =>
      rw [List.zipIdx_cons, List.mapM_cons] at h
      obtain ⟨p, hp, h⟩ := Outcome.bind_eq_ok.mp h
      obtain ⟨rest, hrest, h⟩ := Outcome.bind_eq_ok.mp h
      obtain rfl : p :: rest = ps := Except.ok.inj h
      obtain ⟨hindex, hkey, hbind, hexit⟩ := hookPoint_spec hp
      obtain ⟨hlen, hkeys, hkept, hcount, hbound⟩ := ih hrest
      refine ⟨by rw [List.length_cons, List.length_cons, hlen], ?_, ?_, ?_, ?_⟩
      · intro q hq
        rcases List.mem_cons.mp hq with rfl | hmem
        · exact hkey
        · exact hkeys q hmem
      · rw [List.keptFrom_cons, List.map_append, ← hkept, ← hbind]
        cases hb : p.bindSyscall with
        | true => simp [hb]
        | false => simp [hb, hindex]
      · rw [List.countP_cons, List.countP_cons, hcount, hexit]
      · simp only [List.mem_cons, exists_eq_or_imp, hbind, hbound]

end Specs

/-- The point as the last loop of `Parse_HookPoint` leaves it. -/
def UprobeArgs.marked (p : UprobeArgs) : UprobeArgs :=
  if p.hasExit || p.enableUretprobe then p.markEnter else p

@[simp] theorem marked_index (p : UprobeArgs) : p.marked.index = p.index := by
  unfold UprobeArgs.marked
  split <;> rfl

@[simp] theorem marked_bindSyscall (p : UprobeArgs) : p.marked.bindSyscall = p.bindSyscall := by
  unfold UprobeArgs.marked
  split <;> rfl

/-- The exit points are numbered from the length of the list on. -/
theorem addExitPoints_spec (count : Nat) (ps : List UprobeArgs) :
    (addExitPoints count ps).1 = ps.map UprobeArgs.marked ∧
      (addExitPoints count ps).2.map (·.index) =
        (List.range' count (ps.countP UprobeArgs.hasExit)).map (BitVec.ofNat 32) ∧
      ∀ e ∈ (addExitPoints count ps).2, ∃ p ∈ ps, p.hasExit = true ∧
        ∃ n, e = p.exitPoint n := by
  induction ps generalizing count with
  | nil => simp [addExitPoints]
  | cons p ps ih =>
      unfold addExitPoints
      cases hexit : p.hasExit with
      | false =>
          obtain ⟨hentries, hindex, hexits⟩ := ih count
          simp only [Bool.false_eq_true, if_false]
          refine ⟨?_, ?_, ?_⟩
          · rw [hentries, List.map_cons, UprobeArgs.marked, hexit]
          · rw [hindex, List.countP_cons_of_neg (by simp [hexit])]
          · intro e he
            obtain ⟨q, hq, hne, n, rfl⟩ := hexits e he
            exact ⟨q, List.mem_cons_of_mem p hq, hne, n, rfl⟩
      | true =>
          obtain ⟨hentries, hindex, hexits⟩ := ih (count + 1)
          simp only [if_true]
          refine ⟨?_, ?_, ?_⟩
          · rw [hentries, List.map_cons, UprobeArgs.marked, hexit]
          · rw [List.map_cons, hindex, List.countP_cons_of_pos hexit, List.range'_succ,
              List.map_cons]
            rfl
          · intro e he
            rcases List.mem_cons.mp he with rfl | hmem
            · exact ⟨p, List.mem_cons_self .., hexit, _, rfl⟩
            · obtain ⟨q, hq, hne, n, rfl⟩ := hexits e hmem
              exact ⟨q, List.mem_cons_of_mem p hq, hne, n, rfl⟩

/-- The bound points are taken out, the others stay in their order. -/
theorem getSyscall_spec {ps points : List UprobeArgs} {names : List Text}
    {syscalls syscalls' : List SyscallPoint}
    (h : getSyscall ps syscalls = .ok (names, points, syscalls')) :
    points = ps.filter fun p => !p.bindSyscall := by
  induction ps generalizing points names syscalls syscalls' with
  | nil =>
      obtain ⟨-, rfl, -⟩ : [] = names ∧ [] = points ∧ syscalls = syscalls' := by
        simpa [getSyscall] using h
      rfl
  | cons p ps ih =>
      unfold getSyscall at h
      cases hbind : p.bindSyscall with
      | true =>
          rw [hbind, if_pos rfl] at h
          obtain ⟨mid, -, h⟩ := Outcome.bind_eq_ok.mp h
          obtain ⟨⟨names', points', last⟩, hrest, h⟩ := Outcome.bind_eq_ok.mp h
          obtain ⟨-, rfl, -⟩ : p.name :: names' = names ∧ points' = points ∧ last = syscalls' := by
            simpa using Except.ok.inj h
          rw [List.filter_cons_of_neg (by simp [hbind]), ih hrest]
      | false =>
          rw [hbind, if_neg (by decide)] at h
          obtain ⟨⟨names', points', last⟩, hrest, h⟩ := Outcome.bind_eq_ok.mp h
          obtain ⟨-, rfl, -⟩ : names' = names ∧ p :: points' = points ∧ last = syscalls' := by
            simpa using Except.ok.inj h
          rw [List.filter_cons_of_pos (by simp [hbind]), ih hrest]

/-! ## The numbers after start-up -/

/-- The numbers that the points carry after start-up, in the order of the list: those of the
files, of the hooks that are left, and of the exit points. -/
def numbers (files : List FileStep) (hooks : List Text) : List Nat :=
  (files.map fun file => file.points.length).flatMap List.range ++
    List.keptFrom (fun s => !hookBinds s) 0 hooks ++
    List.range' (fileCount files + hooks.length) (hooks.countP hookExits)

theorem length_fileNumbers (files : List FileStep) :
    ((files.map fun file => file.points.length).flatMap List.range).length = fileCount files := by
  unfold fileCount
  rw [List.length_flatMap]
  simp only [List.length_range, List.map_id']

theorem length_numbers (files : List FileStep) (hooks : List Text) :
    (numbers files hooks).length =
      fileCount files + hooks.countP (fun s => !hookBinds s) + hooks.countP hookExits := by
  unfold numbers
  rw [List.length_append, List.length_append, length_fileNumbers, List.length_keptFrom,
    List.length_range']

/-- Every hook is bound or left. -/
theorem countP_hookBinds (hooks : List Text) :
    hooks.length = hooks.countP hookBinds + hooks.countP (fun s => !hookBinds s) := by
  have hnot : (fun s => !hookBinds s) = fun s => decide ¬hookBinds s = true := by
    funext s
    cases hookBinds s <;> rfl
  rw [hnot]
  exact List.length_eq_countP_add_countP hookBinds

/-- The condition says that the numbers count up from zero and that there are at most six. -/
theorem numbered_iff (files : List FileStep) (hooks : List Text) :
    Numbered files hooks ↔
      List.CountsFrom 0 (numbers files hooks) ∧ (numbers files hooks).length ≤ 6 := by
  have hsplit := countP_hookBinds hooks
  rw [length_numbers]
  unfold numbers
  rw [List.countsFrom_append, List.countsFrom_append, List.countsFrom_flatMap_range,
    List.countsFrom_keptFrom, List.countsFrom_range'_iff, List.length_append,
    length_fileNumbers, List.length_keptFrom]
  constructor
  · intro h
    refine ⟨⟨⟨h.oneFile, ?_⟩, ?_⟩, h.count⟩
    · intro j hj hkept
      have := h.offset j hj (by simpa using hkept)
      simpa using this
    · by_cases hexit : ∃ s ∈ hooks, hookExits s = true
      · right
        have hnone : hooks.countP hookBinds = 0 := by
          rw [List.countP_eq_zero]
          intro s hs
          simp [h.unbound hexit s hs]
        omega
      · left
        rw [List.countP_eq_zero]
        exact fun s hs hs' => hexit ⟨s, hs, hs'⟩
  · rintro ⟨⟨⟨hone, hoffset⟩, hexits⟩, hcount⟩
    refine ⟨hone, fun j hj hkept => ?_, ?_, hcount⟩
    · have := hoffset j hj (by simpa using hkept)
      simpa using this
    · rintro ⟨s, hs, hexit⟩ t ht
      have hpos : 0 < hooks.countP hookExits := List.countP_pos_iff.mpr ⟨s, hs, hexit⟩
      have hnone : hooks.countP hookBinds = 0 := by omega
      simpa using List.countP_eq_zero.mp hnone t ht

/-- The points after start-up, by where they come from. -/
structure Parts (files : List FileStep) (hooks : List Text)
    (points fromFiles fromHooks exits : List UprobeArgs) : Prop where
  shape : points =
    (fromFiles ++ fromHooks.filter fun p => !p.bindSyscall).map UprobeArgs.marked ++ exits
  index : points.map (·.index) = (numbers files hooks).map (BitVec.ofNat 32)
  few : hooks.length ≤ 6
  filePlain : ∀ p ∈ fromFiles, p.Plain
  hookKey : ∀ p ∈ fromHooks, p.enterKey = 0
  bound : (∃ p ∈ fromHooks, p.bindSyscall = true) ↔ ∃ s ∈ hooks, hookBinds s = true
  exitCount : exits.length = hooks.countP hookExits
  exitOf : ∀ e ∈ exits, ∃ p ∈ fromHooks, p.hasExit = true ∧ ∃ n, e = p.exitPoint n

section Startup

variable {env : ParseEnv} {files : List FileStep} {lib : LibInfo} {hooks : List Text}
  {syscalls syscalls' : List SyscallPoint} {points : List UprobeArgs}

theorem startup_spec (h : startup env files lib hooks syscalls = .ok (points, syscalls')) :
    ∃ fromFiles fromHooks exits, Parts files hooks points fromFiles fromHooks exits := by
  unfold startup at h
  obtain ⟨conf, hfiles, h⟩ := Outcome.bind_eq_ok.mp h
  obtain ⟨conf', hparse, h⟩ := Outcome.bind_eq_ok.mp h
  obtain ⟨⟨names, left, syscalls''⟩, hget, h⟩ := Outcome.bind_eq_ok.mp h
  obtain ⟨rfl, -⟩ : points = left ∧ syscalls' = syscalls'' := by
    simpa [eq_comm] using Except.ok.inj h
  obtain ⟨fromFiles, hnew, hfileIndex, hplain⟩ := files_spec hfiles
  rw [List.nil_append] at hnew
  unfold StackUprobeConfig.parseHookPoint at hparse
  split at hparse
  · exact absurd hparse (by simp)
  · split at hparse
    · exact absurd hparse (by simp)
    · rename_i hfew
      obtain ⟨fromHooks, hhooks, hparse⟩ := Outcome.bind_eq_ok.mp hparse
      obtain rfl := Except.ok.inj hparse
      obtain ⟨hlen, hkey, hhookIndex, hexitCount, hbound⟩ := hooks_spec hhooks
      obtain ⟨hentries, hexitIndex, hexits⟩ :=
        addExitPoints_spec (conf.points ++ fromHooks).length (conf.points ++ fromHooks)
      have hleft := getSyscall_spec hget
      dsimp only at hleft hentries hexitIndex hexits
      rw [hnew] at hleft hentries hexitIndex hexits
      have hcount :
          (fromFiles ++ fromHooks).countP UprobeArgs.hasExit = hooks.countP hookExits := by
        have hnone : fromFiles.countP UprobeArgs.hasExit = 0 := by
          rw [List.countP_eq_zero]
          intro p hp
          simp [(hplain p hp).noExit]
        rw [List.countP_append, hnone, hexitCount, Nat.zero_add]
      have hfileCount : fromFiles.length = fileCount files := by
        have hlength := congrArg List.length hfileIndex
        rw [List.length_map, List.length_map, length_fileNumbers] at hlength
        exact hlength
      rw [hcount, List.length_append, hlen, hfileCount] at hexitIndex
      have hexitOf : ∀ e ∈ (addExitPoints (fromFiles ++ fromHooks).length
          (fromFiles ++ fromHooks)).2, ∃ p ∈ fromHooks, p.hasExit = true ∧
            ∃ n, e = p.exitPoint n := by
        intro e he
        obtain ⟨p, hp, hexit, n, rfl⟩ := hexits e he
        rcases List.mem_append.mp hp with hfile | hhook
        · have := (hplain p hfile).noExit
          simp [hexit] at this
        · exact ⟨p, hhook, hexit, n, rfl⟩
      have hshape : points =
          (fromFiles ++ fromHooks.filter fun p => !p.bindSyscall).map UprobeArgs.marked ++
            (addExitPoints (fromFiles ++ fromHooks).length (fromFiles ++ fromHooks)).2 := by
        have hkeep : fromFiles.filter (fun p => !p.bindSyscall) = fromFiles := by
          rw [List.filter_eq_self]
          intro p hp
          simp [(hplain p hp).unbound]
        have hkeep' : (addExitPoints (fromFiles ++ fromHooks).length
            (fromFiles ++ fromHooks)).2.filter (fun p => !p.bindSyscall) =
              (addExitPoints (fromFiles ++ fromHooks).length (fromFiles ++ fromHooks)).2 := by
          rw [List.filter_eq_self]
          intro e he
          obtain ⟨p, -, -, n, rfl⟩ := hexitOf e he
          rfl
        have hmarked : ((fun p : UprobeArgs => !p.bindSyscall) ∘ UprobeArgs.marked) =
            fun p => !p.bindSyscall := by
          funext p
          simp
        rw [hleft, hentries, List.filter_append, hkeep', List.filter_map, hmarked,
          List.filter_append, hkeep]
      refine ⟨fromFiles, fromHooks, _, hshape, ?_, by omega, hplain, hkey, hbound, ?_, hexitOf⟩
      · have hindex : (fun p : UprobeArgs => p.index) ∘ UprobeArgs.marked = fun p => p.index := by
          funext p
          simp
        rw [hshape, List.map_append, List.map_map, hindex, List.map_append, hfileIndex,
          hhookIndex, List.length_append, hlen, hfileCount, hexitIndex]
        unfold numbers
        rw [List.map_append, List.map_append]
      · have hlength := congrArg List.length hexitIndex
        rw [List.length_map, List.length_map, List.length_range'] at hlength
        rw [List.length_append, hlen, hfileCount]
        exact hlength

/-- Exit points do not depend on the enter key of their entry point. -/
theorem exitPoint_marked (p : UprobeArgs) (n : u32) : p.marked.exitPoint n = p.exitPoint n := by
  unfold UprobeArgs.marked
  split <;> rfl

/-- Every key in use is that of a point in the list, as long as no entry point was taken out
while its exit point stayed. -/
theorem Parts.enterKey {fromFiles fromHooks exits : List UprobeArgs}
    (h : Parts files hooks points fromFiles fromHooks exits)
    (hunbound : (∃ s ∈ hooks, hookExits s = true) → ∀ s ∈ hooks, hookBinds s = false) :
    ∀ p ∈ points, p.enterKey ≠ 0 →
      ∃ q ∈ points, (q = p ∨ ∃ n, p = q.exitPoint n) ∧ p.enterKey = q.index + 1 := by
  intro p hp hkey
  have hmem := hp
  rw [h.shape] at hmem
  rcases List.mem_append.mp hmem with hentry | hexit
  · obtain ⟨q, hq, rfl⟩ := List.mem_map.mp hentry
    have hzero : q.enterKey = 0 := by
      rcases List.mem_append.mp hq with hfile | hhook
      · exact (h.filePlain q hfile).enterKey
      · exact h.hookKey q (List.mem_filter.mp hhook).1
    refine ⟨q.marked, hp, Or.inl rfl, ?_⟩
    unfold UprobeArgs.marked at hkey ⊢
    split at hkey
    · rename_i hmark
      rw [if_pos hmark]
      rfl
    · exact absurd hzero hkey
  · obtain ⟨q, hq, -, n, rfl⟩ := h.exitOf p hexit
    have hsome : ∃ s ∈ hooks, hookExits s = true := by
      have hpos : 0 < hooks.countP hookExits := by
        rw [← h.exitCount]
        exact List.length_pos_of_mem hexit
      exact List.countP_pos_iff.mp hpos
    have hleft : q.bindSyscall = false := by
      have hnone : ¬ ∃ p ∈ fromHooks, p.bindSyscall = true := by
        rw [h.bound]
        rintro ⟨s, hs, hbind⟩
        rw [hunbound hsome s hs] at hbind
        exact absurd hbind (by decide)
      exact Bool.eq_false_iff.mpr fun hbind => hnone ⟨q, hq, hbind⟩
    refine ⟨q.marked, ?_, Or.inr ⟨n, (exitPoint_marked q n).symm⟩, ?_⟩
    · rw [h.shape]
      refine List.mem_append_left _ (List.mem_map_of_mem (List.mem_append_right _ ?_))
      exact List.mem_filter.mpr ⟨hq, by simp [hleft]⟩
    · rw [marked_index]
      rfl

/-- A number is smaller than the number of points that were ever in the list. -/
theorem lt_of_mem_numbers {x : Nat} (h : x ∈ numbers files hooks) :
    x < fileCount files + hooks.length + hooks.countP hookExits := by
  unfold numbers at h
  rcases List.mem_append.mp h with h | h
  · rcases List.mem_append.mp h with h | h
    · obtain ⟨n, hn, hx⟩ := List.mem_flatMap.mp h
      have hlt : x < n := List.mem_range.mp hx
      have hle : n ≤ fileCount files := List.single_le_sum (fun _ _ => Nat.zero_le _) n hn
      omega
    · obtain ⟨⟨s, i⟩, hi, rfl⟩ := List.mem_map.mp h
      have hlt := (List.mem_zipIdx (List.mem_filter.mp hi).1).2.1
      dsimp only
      omega
  · have := List.mem_range'_1.mp h
    omega

end Startup

/-! ### One file and one hook -/

/-- A library at a path. -/
def libAt (path : String) : LibInfo := ⟨path.toList, path.toList, 0⟩

/-- A file with the one point `name`, without parameters. -/
def fileWith (name : String) : FileStep := ⟨libAt "/lib/a.so", [⟨name.toList, [], []⟩]⟩

end Stackplz
