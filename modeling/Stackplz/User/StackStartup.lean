import Stackplz.Probe.Stack
import Stackplz.User.PointIndex
import Stackplz.User.RetArg
import Stackplz.User.Startup

/-!
# Starting the uprobe module

`updateFilter` of `MStack` (`stack.go`), and what it makes of the list of points: the maps of
the programs on function entry and return (`Probe.Stack`) say which points are entries, which
one is at the exit offset of another and where uretprobes are. `linked_of_startup` shows that
the points of every start-up that numbers them by position are linked as the programs expect;
`StartedUprobes.maps` are the maps of such a start-up.
-/

set_option autoImplicit false

namespace Stackplz

/-! ## How points are linked -/

/-- The point is a function entry: it saves under its own key, or not at all. -/
def UprobeArgs.isEntry (p : UprobeArgs) : Bool := p.enterKey == 0 || p.enterKey == p.index + 1

/-- The point is at the exit offset of point `k`. -/
def UprobeArgs.isExitOf (p : UprobeArgs) (k : u32) : Bool := p.enterKey == k + 1 && p.index != k

/-- Points that are numbered by position, of which those that are read again on return, and only
those, save their registers on entry. -/
structure Linked (points : List UprobeArgs) : Prop extends PointsOk points where
  tracked : ∀ p ∈ points, p.isEntry = true →
    (p.enterKey = p.index + 1 ↔ (∃ e ∈ points, e.isExitOf p.index = true) ∨
      p.enableUretprobe = true)
  uret : ∀ p ∈ points, p.enableUretprobe = true → p.enterKey = p.index + 1

/-! ### Points that start-up makes -/

section Links

variable {env : ParseEnv} {files : List FileStep} {lib : LibInfo} {hooks : List Text}
  {syscalls syscalls' : List SyscallPoint} {points : List UprobeArgs}

/-- Every point with an exit offset gets an exit point. -/
theorem exists_exitPoint {p : UprobeArgs} : ∀ {ps : List UprobeArgs} {c : Nat}, p ∈ ps →
    p.hasExit = true → ∃ n, p.exitPoint n ∈ (addExitPoints c ps).2
  | [], _, hp, _ => absurd hp List.not_mem_nil
  | q :: ps, c, hp, hexit => by
      unfold addExitPoints
      cases hq : q.hasExit with
      | true =>
          simp only [if_true]
          rcases List.mem_cons.mp hp with rfl | hp
          · exact ⟨_, List.mem_cons_self⟩
          · obtain ⟨n, hn⟩ := exists_exitPoint (c := c + 1) hp hexit
            exact ⟨n, List.mem_cons_of_mem _ hn⟩
      | false =>
          simp only [Bool.false_eq_true, if_false]
          rcases List.mem_cons.mp hp with rfl | hp
          · exact absurd (hexit.symm.trans hq) (by decide)
          · exact exists_exitPoint hp hexit

/-- A start-up that keeps every number numbers by position. -/
theorem pointsOk_of_numbered (h : startup env files lib hooks syscalls = .ok (points, syscalls'))
    (hnum : Numbered files hooks) : PointsOk points := by
  obtain ⟨fromFiles, fromHooks, exits, hparts⟩ := startup_spec h
  obtain ⟨hcounts, hfew⟩ := (numbered_iff files hooks).mp hnum
  have hlen : points.length = (numbers files hooks).length := by
    have hlengths := congrArg List.length hparts.index
    rwa [List.length_map, List.length_map] at hlengths
  refine ⟨fun i hi => ?_, hparts.enterKey hnum.unbound, hlen ▸ hfew⟩
  have hi' : i < (numbers files hooks).length := hlen ▸ hi
  have hat := congrArg (fun l => l[i]?) hparts.index
  simp only [List.getElem?_map, List.getElem?_eq_getElem hi, List.getElem?_eq_getElem hi',
    Option.map_some, Option.some.injEq] at hat
  rw [hat, List.countsFrom_iff_getElem.mp hcounts i hi', Nat.zero_add, BitVec.toNat_ofNat]
  exact Nat.mod_eq_of_lt (by omega)

/-- Where the points after start-up come from. -/
structure Sources (env : ParseEnv) (files : List FileStep) (hooks : List Text)
    (points ps : List UprobeArgs) : Prop where
  enterKey : ∀ p ∈ ps, p.enterKey = 0
  hooked : files = [] → ∀ p ∈ ps, ∃ lib s i, env.hookPoint lib s i = .ok p
  exits : (∃ p ∈ ps, p.hasExit = true) → ∃ s ∈ hooks, hookExits s = true
  bound : (∃ p ∈ ps, p.bindSyscall = true) → ∃ s ∈ hooks, hookBinds s = true
  shape : points = (ps.map UprobeArgs.marked ++ (addExitPoints ps.length ps).2).filter
    fun p => !p.bindSyscall

theorem sources_of_startup (h : startup env files lib hooks syscalls = .ok (points, syscalls')) :
    ∃ ps, Sources env files hooks points ps := by
  unfold startup at h
  obtain ⟨conf, hfiles, h⟩ := Outcome.bind_eq_ok.mp h
  obtain ⟨conf', hparse, h⟩ := Outcome.bind_eq_ok.mp h
  obtain ⟨⟨names, left, syscalls''⟩, hget, h⟩ := Outcome.bind_eq_ok.mp h
  obtain ⟨rfl, -⟩ : points = left ∧ syscalls' = syscalls'' := by
    simpa [eq_comm] using Except.ok.inj h
  obtain ⟨fromFiles, hnew, -, hplain⟩ := files_spec hfiles
  rw [List.nil_append] at hnew
  unfold StackUprobeConfig.parseHookPoint at hparse
  split at hparse
  · cases hparse
  · split at hparse
    · cases hparse
    · obtain ⟨fromHooks, hhooks, hparse⟩ := Outcome.bind_eq_ok.mp hparse
      obtain rfl := Except.ok.inj hparse
      obtain ⟨-, hkey, -, hcount, hbound⟩ := hooks_spec hhooks
      -- the points of the files, which hold none with an exit or a binding, and then the hooks
      refine ⟨conf.points ++ fromHooks, ⟨fun p hp => ?_, ?_, ?_, ?_, ?_⟩⟩
      · rcases List.mem_append.mp hp with hfile | hhook
        · rw [hnew] at hfile
          exact (hplain p hfile).enterKey
        · exact hkey p hhook
      · rintro rfl p hp
        obtain rfl := Except.ok.inj hfiles
        obtain ⟨x, -, hx⟩ := Outcome.exists_of_mem_mapM hhooks hp
        exact ⟨_, _, _, hx⟩
      · rintro ⟨p, hp, hexit⟩
        rcases List.mem_append.mp hp with hfile | hhook
        · rw [hnew] at hfile
          exact absurd (hexit.symm.trans (hplain p hfile).noExit) (by decide)
        · have hpos : 0 < hooks.countP hookExits := by
            rw [← hcount]
            exact List.countP_pos_iff.mpr ⟨p, hhook, hexit⟩
          exact List.countP_pos_iff.mp hpos
      · rintro ⟨p, hp, hbind⟩
        rcases List.mem_append.mp hp with hfile | hhook
        · rw [hnew] at hfile
          exact absurd (hbind.symm.trans (hplain p hfile).unbound) (by decide)
        · exact hbound.mp ⟨p, hhook, hbind⟩
      · rw [getSyscall_spec hget]
        dsimp only
        rw [(addExitPoints_spec _ _).1]

theorem PointsOk.index_lt (hok : PointsOk points) {p : UprobeArgs} (hp : p ∈ points) :
    p.index.toNat < 6 := by
  obtain ⟨i, hi, rfl⟩ := List.mem_iff_getElem.mp hp
  rw [hok.index i hi]
  exact Nat.lt_of_lt_of_le hi hok.count

/-- Points are told apart by their index. -/
theorem PointsOk.index_inj (hok : PointsOk points) {p q : UprobeArgs} (hp : p ∈ points)
    (hq : q ∈ points) (h : p.index = q.index) : p = q := by
  obtain ⟨i, hi, rfl⟩ := List.mem_iff_getElem.mp hp
  obtain ⟨j, hj, rfl⟩ := List.mem_iff_getElem.mp hq
  have hij : i = j := by rw [← hok.index i hi, ← hok.index j hj, h]
  subst hij
  rfl

theorem PointsOk.succ_ne_zero (hok : PointsOk points) {p : UprobeArgs} (hp : p ∈ points) :
    p.index + 1 ≠ 0 := by
  have hlt := hok.index_lt hp
  bv_omega

theorem marked_enterKey {p : UprobeArgs} (h : p.enterKey = 0) :
    p.marked.enterKey = if p.hasExit || p.enableUretprobe then p.index + 1 else 0 := by
  unfold UprobeArgs.marked
  split
  · rfl
  · exact h

@[simp] theorem marked_hasExit (p : UprobeArgs) : p.marked.hasExit = p.hasExit := by
  unfold UprobeArgs.marked
  split <;> rfl

@[simp] theorem marked_enableUretprobe (p : UprobeArgs) :
    p.marked.enableUretprobe = p.enableUretprobe := by
  unfold UprobeArgs.marked
  split <;> rfl

section Linking

variable {ps : List UprobeArgs} (hok : PointsOk points) (hsrc : Sources env files hooks points ps)

/-- A point is a marked one or an exit point. -/
theorem Sources.cases {p : UprobeArgs} (hsrc : Sources env files hooks points ps)
    (hp : p ∈ points) :
    (∃ q ∈ ps, q.bindSyscall = false ∧ p = q.marked) ∨
      ∃ q ∈ ps, q.hasExit = true ∧ ∃ n, p = q.exitPoint n := by
  rw [hsrc.shape] at hp
  obtain ⟨hmem, hbind⟩ := List.mem_filter.mp hp
  rcases List.mem_append.mp hmem with hentry | hexit
  · obtain ⟨q, hq, rfl⟩ := List.mem_map.mp hentry
    exact Or.inl ⟨q, hq, by simpa using hbind, rfl⟩
  · exact Or.inr ((addExitPoints_spec _ _).2.2 p hexit)

include hok hsrc in
/-- The point whose exit is in the list has an exit offset. -/
theorem hasExit_of_isExitOf {p e : UprobeArgs} (hp : p ∈ points) (he : e ∈ points)
    (h : e.isExitOf p.index = true) : p.hasExit = true := by
  obtain ⟨hkey, hne⟩ := Bool.and_eq_true_iff.mp h
  have hkey : e.enterKey = p.index + 1 := by simpa using hkey
  have hne : e.index ≠ p.index := by simpa using hne
  have hnonzero : e.enterKey ≠ 0 := by
    rw [hkey]
    exact hok.succ_ne_zero hp
  -- the key leads to `p`, of which `e` is the exit
  obtain ⟨q, hq, hsame, hq'⟩ := hok.enterKey e he hnonzero
  have hqp : q = p := by
    refine hok.index_inj hq hp ?_
    have hsucc := hq'.symm.trans hkey
    exact (BitVec.add_left_inj 1).mp hsucc
  subst hqp
  rcases hsame with rfl | ⟨n, rfl⟩
  · exact absurd rfl hne
  · rcases hsrc.cases he with ⟨r, hr, -, heq⟩ | ⟨r, hr, hexit, n', heq⟩
    · -- a marked point has an exit offset or a uretprobe, an exit point neither
      have hzero := marked_enterKey (hsrc.enterKey r hr)
      have hnoExit : r.hasExit = false := by
        rw [← marked_hasExit, ← heq]
        rfl
      have hnoUret : r.enableUretprobe = false := by
        rw [← marked_enableUretprobe, ← heq]
        rfl
      rw [hnoExit, hnoUret, ← heq] at hzero
      exact absurd hzero hnonzero
    · have hoffset : q.exitOffset = r.exitOffset := congrArg UprobeArgs.offset heq
      unfold UprobeArgs.hasExit at hexit ⊢
      rwa [hoffset]

end Linking

/-- **Start-up links the points** when it numbers them by position. -/
theorem linked_of_startup (h : startup env files lib hooks syscalls = .ok (points, syscalls'))
    (hnum : Numbered files hooks) : Linked points := by
  have hok := pointsOk_of_numbered h hnum
  obtain ⟨ps, hsrc⟩ := sources_of_startup h
  refine ⟨hok, fun p hp hentry => ?_, fun p hp huret => ?_⟩
  · rcases hsrc.cases hp with ⟨q, hq, hbind, rfl⟩ | ⟨q, hq, hexit, n, rfl⟩
    · have hkey := marked_enterKey (hsrc.enterKey q hq)
      rw [hkey, marked_index, marked_enableUretprobe]
      have hnonzero := hok.succ_ne_zero hp
      rw [marked_index] at hnonzero
      constructor
      · intro hset
        by_cases hexit : q.hasExit = true
        · obtain ⟨n, hn⟩ := exists_exitPoint (c := ps.length) hq hexit
          have he : q.exitPoint n ∈ points := by
            rw [hsrc.shape]
            exact List.mem_filter.mpr ⟨List.mem_append_right _ hn, rfl⟩
          have hne : (q.exitPoint n).index ≠ q.index := by
            intro heq
            have hsame := hok.index_inj he hp (heq.trans (marked_index q).symm)
            have hboth := congrArg UprobeArgs.hasExit hsame
            rw [marked_hasExit, hexit] at hboth
            cases hboth
          -- the registers are kept for the exit point, which has an index of its own
          refine Or.inl ⟨q.exitPoint n, he, ?_⟩
          unfold UprobeArgs.isExitOf
          rw [Bool.and_eq_true_iff]
          exact ⟨beq_self_eq_true _, bne_iff_ne.mpr hne⟩
        · refine Or.inr ?_
          by_contra huret
          rw [Bool.eq_false_iff.mpr hexit, Bool.eq_false_iff.mpr huret] at hset
          exact hnonzero hset.symm
      · rintro (⟨e, he, hexit⟩ | huret)
        · have hhas := hasExit_of_isExitOf hok hsrc hp he (by rwa [marked_index])
          rw [marked_hasExit] at hhas
          rw [hhas]
          rfl
        · rw [huret, Bool.or_true]
          rfl
    · -- beside an exit point no point is bound, so the point itself is in the list
      have hleft : q.bindSyscall = false := by
        by_contra hbind
        obtain ⟨s, hs, hbound⟩ := hsrc.bound ⟨q, hq, by simpa using hbind⟩
        have hnone := hnum.unbound (hsrc.exits ⟨q, hq, hexit⟩) s hs
        exact absurd (hbound.symm.trans hnone) (by decide)
      have hmarked : q.marked ∈ points := by
        rw [hsrc.shape]
        refine List.mem_filter.mpr ⟨List.mem_append_left _ (List.mem_map_of_mem hq), ?_⟩
        rw [marked_bindSyscall, hleft]
        rfl
      have hsucc := hok.succ_ne_zero hmarked
      rw [marked_index] at hsucc
      have hindex : (q.exitPoint n).index = q.marked.index := by
        rcases Bool.or_eq_true_iff.mp hentry with hzero | hown
        · exact absurd (eq_of_beq hzero) hsucc
        · rw [marked_index]
          exact ((BitVec.add_left_inj 1).mp (eq_of_beq hown)).symm
      have hboth := congrArg UprobeArgs.hasExit (hok.index_inj hp hmarked hindex)
      rw [marked_hasExit, hexit] at hboth
      cases hboth
  · rcases hsrc.cases hp with ⟨q, hq, -, rfl⟩ | ⟨q, -, -, n, rfl⟩
    · rw [marked_enableUretprobe] at huret
      rw [marked_enterKey (hsrc.enterKey q hq), huret, Bool.or_true, marked_index]
      rfl
    · cases huret

end Links

/-! ## Loading the maps -/

/-- The lists of ids that `MStack` loads: those of system calls are for the other module. -/
def IdLists.withoutSyscalls (lists : IdLists) : IdLists :=
  ⟨fun k => if k = .sysWhitelist ∨ k = .sysBlacklist then [] else lists.items k⟩

/-- A point as it is loaded for the uprobe, and for the uretprobe. -/
def UprobeArgs.enterLoad (p : UprobeArgs) : PointLoad := ⟨p.index, p.enterKey, p.pointArgs⟩
def UprobeArgs.uretLoad (p : UprobeArgs) : PointLoad := ⟨p.index, p.enterKey, p.uretArgs⟩

/-- The points of `update_uretprobe_stack_config`. -/
def uretPoints (points : List UprobeArgs) : List UprobeArgs :=
  points.filter fun p => p.enableUretprobe

/-- `updateFilter` of `MStack`. -/
def LoadConfig.loadUprobes (conf : LoadConfig) (range : GoRange u32 OpConfig) (m : OpManager)
    (points : List UprobeArgs) : Option (LoadedMaps stackMaxOpCount 6) :=
  conf.loadMaps stackMaxOpCount 6 conf.lists.withoutSyscalls range m
    (points.map UprobeArgs.enterLoad) ((uretPoints points).map UprobeArgs.uretLoad)

/-! ### The maps as the programs see them -/

/-- Maps that hold linked points, and no others. -/
structure LoadedMaps.Holds (loaded : LoadedMaps stackMaxOpCount 6) (points : List UprobeArgs) :
    Prop where
  linked : Linked points
  enter : PointsIn loaded.table loaded.opList loaded.argFilter loaded.first
    (points.map UprobeArgs.enterLoad)
  uret : PointsIn loaded.table loaded.opList loaded.argFilter loaded.second
    ((uretPoints points).map UprobeArgs.uretLoad)

/-- The entry of a point is attached. -/
def entryOf (points : List UprobeArgs) (k : u32) : Bool :=
  points.any fun p => p.index == k && p.isEntry

/-- The point at the exit offset of a point. -/
def exitPointOf (points : List UprobeArgs) (k : u32) : Option u32 :=
  (points.find? fun p => p.isExitOf k).map fun p => p.index

/-- The uretprobe of a point is attached. -/
def uretprobeOf (points : List UprobeArgs) (k : u32) : Bool :=
  points.any fun p => p.index == k && p.enableUretprobe

section Maps

variable {loaded : LoadedMaps stackMaxOpCount 6} {points : List UprobeArgs} {k : u32}
  {args : PointArgs stackMaxOpCount}

theorem enterKey_of_pack {maxOp : Nat} (hmax : maxOp < 2 ^ 32) (hpos : 0 < maxOp) {m : OpManager}
    {opList : OpListMap} {argFilter : ArgFilterMap} {enterKey : u32} {args : List PointArg}
    {packed : PointArgs maxOp} (h : PackedIn m opList argFilter enterKey args packed) :
    packed.enterKey = enterKey := by
  have hpack := h.packs
  rw [pack_eq hmax hpos] at hpack
  split at hpack
  · rw [← Option.some.inj hpack]
    rfl
  · cases hpack

/-- The point that the uprobe program finds. -/
theorem LoadedMaps.Holds.point_of_enter (h : loaded.Holds points)
    (hlookup : loaded.first.lookup k = some args) :
    ∃ p ∈ points, p.index = k ∧ args.enterKey = p.enterKey ∧
      PackedIn loaded.table loaded.opList loaded.argFilter p.enterKey p.pointArgs args := by
  obtain ⟨load, hmem, hkey, hpacked⟩ := h.enter.packed k args hlookup
  obtain ⟨p, hp, rfl⟩ := List.mem_map.mp hmem
  exact ⟨p, hp, hkey, enterKey_of_pack (by decide) (by decide) hpacked, hpacked⟩

/-- The point that the uretprobe program finds. -/
theorem LoadedMaps.Holds.point_of_uret (h : loaded.Holds points)
    (hlookup : loaded.second.lookup k = some args) :
    ∃ p ∈ points, p.enableUretprobe = true ∧ p.index = k ∧ args.enterKey = p.enterKey ∧
      PackedIn loaded.table loaded.opList loaded.argFilter p.enterKey p.uretArgs args := by
  obtain ⟨load, hmem, hkey, hpacked⟩ := h.uret.packed k args hlookup
  obtain ⟨p, hp, rfl⟩ := List.mem_map.mp hmem
  obtain ⟨hin, huret⟩ := List.mem_filter.mp hp
  exact ⟨p, hin, huret, hkey, enterKey_of_pack (by decide) (by decide) hpacked, hpacked⟩

theorem exists_of_entryOf (h : entryOf points k = true) :
    ∃ p ∈ points, p.index = k ∧ p.isEntry = true := by
  obtain ⟨p, hp, hboth⟩ := List.any_eq_true.mp h
  obtain ⟨hindex, hentry⟩ := Bool.and_eq_true_iff.mp hboth
  exact ⟨p, hp, eq_of_beq hindex, hentry⟩

theorem uretprobeOf_iff :
    uretprobeOf points k = true ↔ ∃ p ∈ points, p.index = k ∧ p.enableUretprobe = true := by
  unfold uretprobeOf
  simp [List.any_eq_true]

theorem isSome_exitPointOf :
    (exitPointOf points k).isSome = true ↔ ∃ e ∈ points, e.isExitOf k = true := by
  unfold exitPointOf
  rw [Option.isSome_map, List.find?_isSome]

theorem entryOf_lt (hlinked : Linked points) : ∀ k, entryOf points k = true → k < 6 := by
  intro k hk
  obtain ⟨p, hp, rfl, -⟩ := exists_of_entryOf hk
  exact hlinked.toPointsOk.index_lt hp

theorem enterKey_of_entryOf (h : loaded.Holds points) : ∀ k args, entryOf points k = true →
    loaded.first.lookup k = some args →
    args.enterKey =
      if (exitPointOf points k).isSome ∨ uretprobeOf points k then k + 1 else 0 := by
  intro k args hk hlookup
  obtain ⟨p, hp, rfl, hentry⟩ := exists_of_entryOf hk
  obtain ⟨q, hq, hindex, hkey, -⟩ := h.point_of_enter hlookup
  obtain rfl := h.linked.toPointsOk.index_inj hq hp hindex
  have hread : ((exitPointOf points q.index).isSome = true ∨ uretprobeOf points q.index = true) ↔
      q.enterKey = q.index + 1 := by
    rw [h.linked.tracked q hq hentry, isSome_exitPointOf, uretprobeOf_iff]
    refine or_congr_right ⟨?_, fun huret => ⟨q, hq, rfl, huret⟩⟩
    rintro ⟨r, hr, hsame, huret⟩
    rwa [← h.linked.toPointsOk.index_inj hr hq hsame]
  rw [hkey]
  by_cases hset : q.enterKey = q.index + 1
  · rw [if_pos (hread.mpr hset), hset]
  · rw [if_neg fun hmust => hset (hread.mp hmust)]
    rcases Bool.or_eq_true_iff.mp hentry with hzero | hown
    · exact eq_of_beq hzero
    · exact absurd (eq_of_beq hown) hset

theorem enterKey_of_exitPointOf (h : loaded.Holds points) : ∀ k k' args,
    exitPointOf points k = some k' → loaded.first.lookup k' = some args →
    k' ≠ k ∧ args.enterKey = k + 1 := by
  intro k k' args hexit hlookup
  obtain ⟨e, hfind, rfl⟩ := Option.map_eq_some_iff.mp hexit
  have hexitOf : e.isExitOf k = true := (List.find?_eq_some_iff_append.mp hfind).1
  obtain ⟨hkey, hne⟩ := Bool.and_eq_true_iff.mp hexitOf
  obtain ⟨q, hq, hindex, henter, -⟩ := h.point_of_enter hlookup
  obtain rfl := h.linked.toPointsOk.index_inj hq (List.mem_of_find?_eq_some hfind) hindex
  exact ⟨bne_iff_ne.mp hne, henter.trans (eq_of_beq hkey)⟩

theorem enterKey_of_uretprobeOf (h : loaded.Holds points) : ∀ k args,
    uretprobeOf points k = true → loaded.second.lookup k = some args →
    args.enterKey = k + 1 := by
  intro k args _ hlookup
  obtain ⟨q, hq, huret, rfl, henter, -⟩ := h.point_of_uret hlookup
  exact henter.trans (h.linked.uret q hq huret)

/-- The maps that the programs of the module read, and where the programs are attached. -/
def LoadedMaps.stackMaps (loaded : LoadedMaps stackMaxOpCount 6) (points : List UprobeArgs)
    (h : loaded.Holds points) : StackMaps where
  filter := loaded.filter
  uprobePointArgs := loaded.first
  uretprobePointArgs := loaded.second
  opList := loaded.opList
  argFilter := loaded.argFilter
  entry := entryOf points
  exitPoint := exitPointOf points
  uretprobe := uretprobeOf points
  entry_lt := entryOf_lt h.linked
  enterKey_entry := enterKey_of_entryOf h
  enterKey_exit := enterKey_of_exitPointOf h
  enterKey_uret := enterKey_of_uretprobeOf h

/-- What a successful start-up of the uprobe module holds. -/
theorem holds_of_loadUprobes {conf : LoadConfig} {range : GoRange u32 OpConfig} {m : OpManager}
    (hlinked : Linked points) (h : conf.loadUprobes range m points = some loaded)
    (henter : ∀ p ∈ points, FiltersKnown conf.filters p.pointArgs)
    (huret : ∀ p ∈ points, p.enableUretprobe = true → FiltersKnown conf.filters p.uretArgs) :
    loaded.Holds points := by
  have hsecond : ∀ p ∈ uretPoints points, FiltersKnown conf.filters p.uretLoad.args := by
    intro p hp
    obtain ⟨hin, hset⟩ := List.mem_filter.mp hp
    exact huret p hin hset
  obtain ⟨enter, uret⟩ := pointsIn_of_loadMaps (by decide) (by decide) h
    (List.forall_mem_map.mpr henter) (List.forall_mem_map.mpr hsecond)
  exact ⟨hlinked, enter, uret⟩

end Maps

end Stackplz
