import Stackplz.Basic.GoSlice
import Stackplz.Basic.Machine
import Stackplz.User.MapsHelper

/-!
# The maps of a new process

`UpdateForkEvent` copies the maps of the parent for a pid that it has not seen before. The
functions of the helper are modelled twice: on values, where copies cannot interfere, and on a
heap of maps, slices and arrays, as Go stores them. The heap model keeps every array with one
owner and so follows the model on values.
-/

set_option autoImplicit false

namespace Stackplz

/-! ## The helper on values -/

/-- What changes the maps. Reading the maps of a process for a lookup is a `parse`, too. -/
inductive MapsOp where
  /-- `UpdateForkEvent` -/
  | fork (pid ppid : u32) (proc : u32 → Option Text)
  /-- `UpdateMaps` -/
  | mmap (event : Mmap2Event) (pidList : List u32) (proc : u32 → Option Text)
  /-- `ParseMapsContent` -/
  | parse (pid : u32) (content : Text) (delOld : Bool)

/-- The processes whose maps an operation may change. -/
def MapsOp.writes : MapsOp → List u32
  | .fork pid ppid _ => [pid, ppid]
  | .mmap event _ _ => [event.pid]
  | .parse pid _ _ => [pid]

namespace MapsHelper

/-- `CloneMaps`; the error, if there is one, and the helper after it. -/
def cloneMaps (proc : u32 → Option Text) (range : MapRange) (this : MapsHelper)
    (pid parentPid : u32) : Option MapsError × MapsHelper :=
  match this.pidMaps parentPid with
  | some maps => (none, this.setMaps pid (maps.clone range))
  | none =>
      match this.parseMaps proc parentPid false with
      | .error e => (some e, this)
      | .ok read =>
          match read.pidMaps parentPid with
          | some maps => (none, read.setMaps pid (maps.clone range))
          | none => (some .noProcMaps, read)

def setParent (this : MapsHelper) (pid ppid : u32) : MapsHelper :=
  { this with childParentMap := Function.update this.childParentMap pid (some ppid) }

def updateForkEvent (proc : u32 → Option Text) (range : MapRange) (this : MapsHelper)
    (pid ppid : u32) : MapsHelper :=
  match this.childParentMap pid with
  | none =>
      let this := this.setParent pid ppid
      if pid ≠ ppid then (this.cloneMaps proc range pid ppid).2 else this
  | some parentPid => if parentPid ≠ ppid then this.setParent pid ppid else this

def apply (range : MapRange) (this : MapsHelper) : MapsOp → MapsHelper
  | .fork pid ppid proc => this.updateForkEvent proc range pid ppid
  | .mmap event pidList proc => this.updateMaps proc pidList event
  | .parse pid content delOld => this.parseMapsContent pid content delOld

/-- `InitMap` -/
def init : MapsHelper := ⟨fun _ => none, fun _ => none⟩

end MapsHelper

/-! ## The helper on a heap -/

/-- What Go leaves open: the size of new arrays and the order of loops over maps. -/
structure GoRuntime where
  grow : Nat → Nat
  range : GoRange Text GoSlice

/-- The helper with its heap. A `*ProcMaps` is a number, the place of its map. -/
structure MapsHeap where
  pidMaps : u32 → Option Nat
  childParentMap : u32 → Option u32
  maps : Nat → GoMap Text GoSlice
  nextMap : Nat
  arrays : GoArrays MapsLibInfo

namespace MapsHeap

def init : MapsHeap := ⟨fun _ => none, fun _ => none, fun _ => ∅, 0, ⟨fun _ => [], 0⟩⟩

/-- The slice of a path in a map. -/
def slot (this : MapsHeap) (i : Nat × Text) : Option GoSlice := (this.maps i.1).lookup i.2

/-- `(*pid_maps)[path] = s`, with the arrays after `s` was made. -/
def store (this : MapsHeap) (ref : Nat) (path : Text) (r : GoSlice × GoArrays MapsLibInfo) :
    MapsHeap :=
  { this with
    maps := Function.update this.maps ref ((this.maps ref).insert path r.1)
    arrays := r.2 }

/-- `this.pid_maps[pid] = &ProcMaps{}` -/
def newMaps (this : MapsHeap) (pid : u32) : MapsHeap :=
  { this with
    pidMaps := Function.update this.pidMaps pid (some this.nextMap)
    nextMap := this.nextMap + 1 }

/-- How `ParseMapsContent` and `UpdateMaps` add a region. -/
def add (rt : GoRuntime) (found : MapsLibInfo → Bool) (info : MapsLibInfo) (path : Text)
    (ref : Nat) (this : MapsHeap) : MapsHeap :=
  match this.slot (ref, path) with
  | some baseList =>
      if (this.arrays.read baseList).any found then this
      else this.store ref path (this.arrays.append rt.grow .zero baseList info)
  | none => this.store ref path (this.arrays.lit info)

/-- One line in `ParseMapsContent`. -/
def addLine (rt : GoRuntime) (ref : Nat) (this : MapsHeap) (line : Text) : MapsHeap :=
  match fscanfMaps line with
  | some fields =>
      let segPath := if fields.segPath = [] then unnamedPath fields.segStart else fields.segPath
      let newInfo := MapsLibInfo.named fields.segStart fields.segOffset fields.segEnd segPath
      this.add rt (fun info => info.baseAddr == newInfo.baseAddr) newInfo segPath ref
  | none => this

/-- The maps of a process, new ones if there are none. -/
def ensureMaps (this : MapsHeap) (pid : u32) : MapsHeap :=
  match this.pidMaps pid with
  | some _ => this
  | none => this.newMaps pid

def parseMapsContent (rt : GoRuntime) (this : MapsHeap) (pid : u32) (content : Text)
    (delOld : Bool) : MapsHeap :=
  let this := if delOld then this.newMaps pid else this.ensureMaps pid
  match this.pidMaps pid with
  | some ref => (Text.splitOn '\n' content).foldl (addLine rt ref) this
  | none => this

def parseMaps (rt : GoRuntime) (proc : u32 → Option Text) (this : MapsHeap) (pid : u32)
    (delOld : Bool) : Except MapsError MapsHeap :=
  match proc pid with
  | none => .error .openFile
  | some content => .ok (this.parseMapsContent rt pid content delOld)

/-- `UpdateMaps` after the maps file was read. -/
def recordMmap (rt : GoRuntime) (this : MapsHeap) (event : Mmap2Event) : MapsHeap :=
  let this := this.ensureMaps event.pid
  let info := MapsLibInfo.named event.addr event.pgoff (event.addr + event.len) event.file
  match this.pidMaps event.pid with
  | some ref => this.add rt (fun info => info.baseAddr == info.baseAddr) info event.file ref
  | none => this

def updateMaps (rt : GoRuntime) (proc : u32 → Option Text) (pidList : List u32)
    (this : MapsHeap) (event : Mmap2Event) : MapsHeap :=
  if !pidList.contains event.pid then this
  else
    match this.parseMaps rt proc event.pid false with
    | .ok read => read.recordMmap rt event
    | .error _ => this.recordMmap rt event

/-- The inner loop of `Clone`: the elements of a slice are appended to a `nil` slice. -/
def cloneEntry (rt : GoRuntime) (ref : Nat) (this : MapsHeap) (entry : GoEntry Text GoSlice) :
    MapsHeap :=
  this.store ref entry.1
    (this.arrays.appendAll rt.grow .zero .nil (this.arrays.read entry.2))

/-- `Clone` into the next map. -/
def clone (rt : GoRuntime) (this : MapsHeap) (ref : Nat) : MapsHeap :=
  (rt.range.order (this.maps ref)).foldl (cloneEntry rt this.nextMap)
    { this with nextMap := this.nextMap + 1 }

/-- `this.pid_maps[pid] = &copied_maps` -/
def setMaps (this : MapsHeap) (pid : u32) (ref : Nat) : MapsHeap :=
  { this with pidMaps := Function.update this.pidMaps pid (some ref) }

def cloneMaps (rt : GoRuntime) (proc : u32 → Option Text) (this : MapsHeap)
    (pid parentPid : u32) : Option MapsError × MapsHeap :=
  match this.pidMaps parentPid with
  | some ref => (none, (this.clone rt ref).setMaps pid this.nextMap)
  | none =>
      match this.parseMaps rt proc parentPid false with
      | .error e => (some e, this)
      | .ok read =>
          match read.pidMaps parentPid with
          | some ref => (none, (read.clone rt ref).setMaps pid read.nextMap)
          | none => (some .noProcMaps, read)

def setParent (this : MapsHeap) (pid ppid : u32) : MapsHeap :=
  { this with childParentMap := Function.update this.childParentMap pid (some ppid) }

def updateForkEvent (rt : GoRuntime) (proc : u32 → Option Text) (this : MapsHeap)
    (pid ppid : u32) : MapsHeap :=
  match this.childParentMap pid with
  | none =>
      let this := this.setParent pid ppid
      if pid ≠ ppid then (this.cloneMaps rt proc pid ppid).2 else this
  | some parentPid => if parentPid ≠ ppid then this.setParent pid ppid else this

def apply (rt : GoRuntime) (this : MapsHeap) : MapsOp → MapsHeap
  | .fork pid ppid proc => this.updateForkEvent rt proc pid ppid
  | .mmap event pidList proc => this.updateMaps rt proc pidList event
  | .parse pid content delOld => this.parseMapsContent rt pid content delOld

/-! ## Every array has one owner -/

/-- Arrays are not shared, and neither are the maps of two processes. -/
structure Inv (this : MapsHeap) : Prop where
  owned : this.arrays.Owned this.slot
  fresh : ∀ ref, this.nextMap ≤ ref → this.maps ref = ∅
  bound : ∀ pid ref, this.pidMaps pid = some ref → ref < this.nextMap
  apart : ∀ pid pid' ref, this.pidMaps pid = some ref → this.pidMaps pid' = some ref → pid = pid'

/-- The regions of a path in a map. -/
def content (this : MapsHeap) (i : Nat × Text) : Option (List MapsLibInfo) :=
  (this.slot i).map this.arrays.read

/-- The map holds these regions. -/
def Shows (this : MapsHeap) (ref : Nat) (maps : ProcMaps) : Prop :=
  ∀ path, this.content (ref, path) = maps.lookup path

/-- A step that changes no other map. -/
structure ChangesOnly (this that : MapsHeap) (ref : Nat) : Prop where
  inv : that.Inv
  pidMaps : that.pidMaps = this.pidMaps
  parents : that.childParentMap = this.childParentMap
  nextMap : that.nextMap = this.nextMap
  slot : ∀ ref' path, ref' ≠ ref → that.slot (ref', path) = this.slot (ref', path)
  content : ∀ ref' path, ref' ≠ ref → that.content (ref', path) = this.content (ref', path)

theorem ChangesOnly.refl {this : MapsHeap} (h : this.Inv) (ref : Nat) :
    this.ChangesOnly this ref :=
  ⟨h, rfl, rfl, rfl, fun _ _ _ => rfl, fun _ _ _ => rfl⟩

theorem ChangesOnly.trans {a b c : MapsHeap} {ref : Nat} (hab : a.ChangesOnly b ref)
    (hbc : b.ChangesOnly c ref) : a.ChangesOnly c ref where
  inv := hbc.inv
  pidMaps := hbc.pidMaps.trans hab.pidMaps
  parents := hbc.parents.trans hab.parents
  nextMap := hbc.nextMap.trans hab.nextMap
  slot := fun ref' path hne => (hbc.slot ref' path hne).trans (hab.slot ref' path hne)
  content := fun ref' path hne => (hbc.content ref' path hne).trans (hab.content ref' path hne)

theorem slot_store (this : MapsHeap) (ref : Nat) (path : Text)
    (r : GoSlice × GoArrays MapsLibInfo) :
    (this.store ref path r).slot = Function.update this.slot (ref, path) (some r.1) := by
  funext i
  unfold slot store
  dsimp only
  by_cases href : i.1 = ref
  · rw [href, Function.update_self]
    by_cases hpath : i.2 = path
    · rw [hpath, AList.lookup_insert, Function.update_apply, if_pos (Prod.ext href hpath)]
    · have hne : i ≠ (ref, path) := fun heq => hpath (congrArg Prod.snd heq)
      rw [AList.lookup_insert_ne hpath, Function.update_of_ne hne, href]
  · have hne : i ≠ (ref, path) := fun heq => href (congrArg Prod.fst heq)
    rw [Function.update_of_ne href, Function.update_of_ne hne]

/-- **Appending to a list of a map.** A missing list is appended to like a `nil` slice. -/
theorem store_appendAll {this : MapsHeap} (h : this.Inv) {ref : Nat} (href : ref < this.nextMap)
    {path : Text} {s : GoSlice}
    (hs : this.slot (ref, path) = some s ∨ this.slot (ref, path) = none ∧ s = .nil)
    (grow : Nat → Nat) (xs : List MapsLibInfo) :
    this.ChangesOnly (this.store ref path (this.arrays.appendAll grow .zero s xs)) ref ∧
      (this.store ref path (this.arrays.appendAll grow .zero s xs)).content (ref, path) =
        some (this.arrays.read s ++ xs) ∧
      ∀ path', path' ≠ path →
        (this.store ref path (this.arrays.appendAll grow .zero s xs)).slot (ref, path') =
            this.slot (ref, path') ∧
        (this.store ref path (this.arrays.appendAll grow .zero s xs)).content (ref, path') =
          this.content (ref, path') := by
  have howned : this.arrays.Owned (Function.update this.slot (ref, path) (some s)) := by
    rcases hs with hsome | ⟨-, rfl⟩
    · rw [← hsome, Function.update_eq_self]
      exact h.owned
    · exact h.owned.add_nil (ref, path)
  obtain ⟨hafter, hread, hothers⟩ := GoArrays.appendAll_spec grow .zero xs howned
    (Function.update_self (ref, path) (some s) this.slot)
  rw [Function.update_idem] at hafter
  have hslot := slot_store this ref path (this.arrays.appendAll grow .zero s xs)
  have hkeeps (i : Nat × Text) (hne : i ≠ (ref, path)) :
      (this.store ref path (this.arrays.appendAll grow .zero s xs)).slot i = this.slot i ∧
        (this.store ref path (this.arrays.appendAll grow .zero s xs)).content i =
          this.content i := by
    have hsame : (this.store ref path (this.arrays.appendAll grow .zero s xs)).slot i =
        this.slot i := by rw [hslot, Function.update_of_ne hne]
    refine ⟨hsame, ?_⟩
    unfold content
    rw [hsame]
    cases hi : this.slot i with
    | none => rfl
    | some t => exact congrArg some (hothers i t hne (by rw [Function.update_of_ne hne, hi]))
  refine ⟨⟨⟨hslot ▸ hafter, fun ref' hle => ?_, h.bound, h.apart⟩, rfl, rfl, rfl,
      fun ref' path' hne => (hkeeps _ fun heq => hne (congrArg Prod.fst heq)).1,
      fun ref' path' hne => (hkeeps _ fun heq => hne (congrArg Prod.fst heq)).2⟩, ?_,
    fun path' hne => hkeeps _ fun heq => hne (congrArg Prod.snd heq)⟩
  · have hne : ref' ≠ ref := by
      have hle : this.nextMap ≤ ref' := hle
      omega
    exact (Function.update_of_ne hne _ _).trans (h.fresh ref' hle)
  · unfold content
    rw [hslot, Function.update_self]
    exact congrArg some hread

theorem content_eq_none_iff {this : MapsHeap} {i : Nat × Text} :
    this.content i = none ↔ this.slot i = none := Option.map_eq_none_iff

/-! ## Following the model on values -/

/-- A region is added on the heap as it is on values. -/
theorem add_shows {this : MapsHeap} (h : this.Inv) {ref : Nat} (href : ref < this.nextMap)
    {maps : ProcMaps} (hshows : this.Shows ref maps) (rt : GoRuntime)
    (found : MapsLibInfo → Bool) (info : MapsLibInfo) (path : Text) :
    this.ChangesOnly (this.add rt found info path ref) ref ∧
      (this.add rt found info path ref).Shows ref (maps.add found info path) := by
  have hlookup := hshows path
  unfold add ProcMaps.add
  unfold content at hlookup
  cases hslot : this.slot (ref, path) with
  | none =>
      rw [hslot, Option.map_none] at hlookup
      rw [← hlookup]
      dsimp only
      obtain ⟨hchanges, hnew, hrest⟩ := store_appendAll h href (Or.inr ⟨hslot, rfl⟩)
        (fun _ => 0) [info]
      refine ⟨hchanges, fun path' => ?_⟩
      by_cases hpath : path' = path
      · rw [hpath, AList.lookup_insert]
        exact hnew
      · rw [AList.lookup_insert_ne hpath]
        exact (hrest path' hpath).2.trans (hshows path')
  | some baseList =>
      rw [hslot, Option.map_some] at hlookup
      rw [← hlookup]
      dsimp only
      split
      · exact ⟨ChangesOnly.refl h ref, hshows⟩
      · obtain ⟨hchanges, hnew, hrest⟩ := store_appendAll h href (Or.inl hslot) rt.grow [info]
        refine ⟨hchanges, fun path' => ?_⟩
        by_cases hpath : path' = path
        · rw [hpath, AList.lookup_insert]
          exact hnew
        · rw [AList.lookup_insert_ne hpath]
          exact (hrest path' hpath).2.trans (hshows path')

theorem addLine_shows {this : MapsHeap} (h : this.Inv) {ref : Nat} (href : ref < this.nextMap)
    {maps : ProcMaps} (hshows : this.Shows ref maps) (rt : GoRuntime) (line : Text) :
    this.ChangesOnly (this.addLine rt ref line) ref ∧
      (this.addLine rt ref line).Shows ref (maps.addLine line) := by
  unfold addLine ProcMaps.addLine
  cases fscanfMaps line with
  | none => exact ⟨ChangesOnly.refl h ref, hshows⟩
  | some fields => exact add_shows h href hshows rt _ _ _

theorem foldl_addLine_shows (rt : GoRuntime) {ref : Nat} (lines : List Text) :
    ∀ {this : MapsHeap} {maps : ProcMaps}, this.Inv → ref < this.nextMap →
      this.Shows ref maps →
      this.ChangesOnly (lines.foldl (addLine rt ref) this) ref ∧
        (lines.foldl (addLine rt ref) this).Shows ref (lines.foldl ProcMaps.addLine maps) := by
  induction lines with
  | nil => exact fun h _ hshows => ⟨ChangesOnly.refl h ref, hshows⟩
  | cons line lines ih =>
      intro this maps h href hshows
      obtain ⟨hchanges, hline⟩ := addLine_shows h href hshows rt line
      obtain ⟨hrest, hlines⟩ := ih hchanges.inv (hchanges.nextMap.symm ▸ href) hline
      exact ⟨hchanges.trans hrest, hlines⟩

/-- The loops of `Clone` fill a new map with the lists of another one. -/
theorem foldl_cloneEntry (rt : GoRuntime) {ref new : Nat} (hne : ref ≠ new)
    (entries : List (GoEntry Text GoSlice)) :
    ∀ {this : MapsHeap}, this.Inv → new < this.nextMap → entries.NodupKeys →
      (∀ entry ∈ entries, this.slot (ref, entry.1) = some entry.2) →
      (∀ entry ∈ entries, this.slot (new, entry.1) = none) →
      this.ChangesOnly (entries.foldl (cloneEntry rt new) this) new ∧
        (∀ entry ∈ entries, (entries.foldl (cloneEntry rt new) this).content (new, entry.1) =
          this.content (ref, entry.1)) ∧
        ∀ path, path ∉ entries.keys →
          (entries.foldl (cloneEntry rt new) this).content (new, path) =
            this.content (new, path) := by
  induction entries with
  | nil =>
      exact fun h _ _ _ _ => ⟨ChangesOnly.refl h new, List.forall_mem_nil _, fun _ _ => rfl⟩
  | cons entry entries ih =>
      intro this h hnew hnodup hold hfree
      obtain ⟨hkey, hnodup⟩ := List.nodupKeys_cons.mp hnodup
      obtain ⟨hentry, hold⟩ := List.forall_mem_cons.mp hold
      obtain ⟨hfirst, hfree⟩ := List.forall_mem_cons.mp hfree
      obtain ⟨hchanges, hcopied, hrest⟩ := store_appendAll h hnew (Or.inr ⟨hfirst, rfl⟩)
        rt.grow (this.arrays.read entry.2)
      have hother (other : GoEntry Text GoSlice) (hmem : other ∈ entries) : other.1 ≠ entry.1 :=
        fun heq => hkey (heq ▸ List.mem_keys_of_mem hmem)
      obtain ⟨hchanges', hcopied', hrest'⟩ := ih hchanges.inv (hchanges.nextMap.symm ▸ hnew) hnodup
        (fun other hmem => (hchanges.slot ref other.1 hne).trans (hold other hmem))
        (fun other hmem => (hrest other.1 (hother other hmem)).1.trans (hfree other hmem))
      refine ⟨hchanges.trans hchanges', List.forall_mem_cons.mpr ⟨?_, fun other hmem => ?_⟩,
        fun path hpath => ?_⟩
      · refine (hrest' entry.1 hkey).trans (hcopied.trans ?_)
        rw [content, hentry]
        rfl
      · exact (hcopied' other hmem).trans (hchanges.content ref other.1 hne)
      · rw [List.keys_cons, List.mem_cons, not_or] at hpath
        exact (hrest' path hpath.2).trans (hrest path hpath.1).2

/-- The heap after a place for one more map was taken. -/
def bump (this : MapsHeap) : MapsHeap := { this with nextMap := this.nextMap + 1 }

theorem Inv.bump {this : MapsHeap} (h : this.Inv) : this.bump.Inv where
  owned := h.owned
  fresh := fun ref hle => h.fresh ref (Nat.le_of_succ_le hle)
  bound := fun pid ref hpid => Nat.lt_succ_of_lt (h.bound pid ref hpid)
  apart := h.apart

/-- **A copy.** The next map holds what the map holds, and no other map changes. -/
theorem clone_spec (rt : GoRuntime) {this : MapsHeap} (h : this.Inv) {ref : Nat}
    (href : ref < this.nextMap) :
    this.bump.ChangesOnly (this.clone rt ref) this.nextMap ∧
      ∀ path, (this.clone rt ref).content (this.nextMap, path) = this.content (ref, path) := by
  have hnone (path : Text) : this.slot (this.nextMap, path) = none := by
    rw [slot, h.fresh this.nextMap (Nat.le_refl _)]
    rfl
  obtain ⟨hchanges, hcopied, hrest⟩ := foldl_cloneEntry rt (Nat.ne_of_lt href)
    (rt.range.order (this.maps ref)) h.bump (Nat.lt_succ_self this.nextMap)
    (rt.range.nodupKeys (this.maps ref))
    (fun entry hentry => GoRange.mem_order_iff.mp hentry) (fun entry _ => hnone entry.1)
  refine ⟨hchanges, fun path => ?_⟩
  cases hslot : this.slot (ref, path) with
  | some s => exact hcopied ⟨path, s⟩ (GoRange.mem_order_iff.mpr hslot)
  | none =>
      have hpath : path ∉ (rt.range.order (this.maps ref)).keys := by
        intro hmem
        obtain ⟨s, hs⟩ := List.exists_of_mem_keys hmem
        have hlookup : this.slot (ref, path) = some s := GoRange.mem_order_iff.mp hs
        rw [hslot] at hlookup
        cases hlookup
      rw [content_eq_none_iff.mpr hslot]
      exact (hrest path hpath).trans (content_eq_none_iff.mpr (hnone path))

/-- The heap holds the values of the helper. -/
structure Represents (this : MapsHeap) (values : MapsHelper) : Prop where
  inv : this.Inv
  parents : this.childParentMap = values.childParentMap
  maps : ∀ pid, Option.Rel this.Shows (this.pidMaps pid) (values.pidMaps pid)

theorem rel_some {this : MapsHeap} {values : MapsHelper} (h : this.Represents values) {pid : u32}
    {maps : ProcMaps} (hmaps : values.pidMaps pid = some maps) :
    ∃ ref, this.pidMaps pid = some ref ∧ ref < this.nextMap ∧ this.Shows ref maps := by
  have hrel := h.maps pid
  rw [hmaps] at hrel
  cases hpid : this.pidMaps pid with
  | none =>
      rw [hpid] at hrel
      cases hrel
  | some ref =>
      rw [hpid] at hrel
      cases hrel with
      | some hshows => exact ⟨ref, rfl, h.inv.bound pid ref hpid, hshows⟩

theorem rel_none {this : MapsHeap} {values : MapsHelper} (h : this.Represents values) {pid : u32}
    (hmaps : values.pidMaps pid = none) : this.pidMaps pid = none := by
  have hrel := h.maps pid
  rw [hmaps] at hrel
  cases hpid : this.pidMaps pid with
  | none => rfl
  | some ref =>
      rw [hpid] at hrel
      cases hrel

theorem represents_init : init.Represents MapsHelper.init where
  inv := ⟨GoArrays.owned_none _, fun _ _ => rfl, fun _ _ h => (by cases h),
    fun _ _ _ h => (by cases h)⟩
  parents := rfl
  maps := fun _ => Option.Rel.none

/-- What another map holds stays. -/
theorem ChangesOnly.shows {this that : MapsHeap} {ref ref' : Nat} (h : this.ChangesOnly that ref)
    (hne : ref' ≠ ref) {maps : ProcMaps} (hshows : this.Shows ref' maps) : that.Shows ref' maps :=
  fun path => (h.content ref' path hne).trans (hshows path)

/-- A step in the map of one process. -/
theorem Represents.step {this that : MapsHeap} {values : MapsHelper} (h : this.Represents values)
    {pid : u32} {ref : Nat} (hpid : this.pidMaps pid = some ref)
    (hchanges : this.ChangesOnly that ref) {maps : ProcMaps} (hshows : that.Shows ref maps) :
    that.Represents (values.setMaps pid maps) where
  inv := hchanges.inv
  parents := hchanges.parents.trans h.parents
  maps := by
    intro pid'
    rw [hchanges.pidMaps]
    by_cases heq : pid' = pid
    · rw [heq, hpid, MapsHelper.pidMaps_setMaps]
      exact Option.Rel.some hshows
    · rw [MapsHelper.pidMaps_setMaps_of_ne _ _ heq]
      have hrel := h.maps pid'
      generalize hvalues : values.pidMaps pid' = maps' at hrel
      generalize href : this.pidMaps pid' = ref' at hrel
      cases hrel with
      | none => exact Option.Rel.none
      | @some ref' maps' hold =>
          refine Option.Rel.some (hchanges.shows (fun hsame => heq ?_) hold)
          exact h.inv.apart pid' pid ref (hsame ▸ href) hpid

theorem pidMaps_setMaps (this : MapsHeap) (pid : u32) (ref : Nat) :
    (this.setMaps pid ref).pidMaps = Function.update this.pidMaps pid (some ref) := rfl

/-- A process gets the map at a place that no process has. -/
theorem Represents.assign {this : MapsHeap} {values : MapsHelper} (h : this.Represents values)
    (pid : u32) {ref : Nat} (hbound : ref < this.nextMap)
    (hfree : ∀ pid', this.pidMaps pid' ≠ some ref) {maps : ProcMaps}
    (hshows : this.Shows ref maps) :
    (this.setMaps pid ref).Represents (values.setMaps pid maps) where
  inv := by
    have hcases {pid' : u32} {ref' : Nat} (hpid : (this.setMaps pid ref).pidMaps pid' = some ref') :
        pid' = pid ∧ ref' = ref ∨ pid' ≠ pid ∧ this.pidMaps pid' = some ref' := by
      by_cases heq : pid' = pid
      · rw [heq, pidMaps_setMaps, Function.update_self] at hpid
        exact Or.inl ⟨heq, (Option.some.inj hpid).symm⟩
      · rw [pidMaps_setMaps, Function.update_of_ne heq] at hpid
        exact Or.inr ⟨heq, hpid⟩
    refine ⟨h.inv.owned, h.inv.fresh, fun pid' ref' hpid => ?_,
      fun pid' pid'' ref' hpid hpid' => ?_⟩
    · rcases hcases hpid with ⟨-, rfl⟩ | ⟨-, hold⟩
      · exact hbound
      · exact h.inv.bound pid' ref' hold
    · rcases hcases hpid with ⟨rfl, rfl⟩ | ⟨-, hold⟩
      · rcases hcases hpid' with ⟨rfl, -⟩ | ⟨-, hold'⟩
        · rfl
        · exact absurd hold' (hfree pid'')
      · rcases hcases hpid' with ⟨rfl, rfl⟩ | ⟨-, hold'⟩
        · exact absurd hold (hfree pid')
        · exact h.inv.apart pid' pid'' ref' hold hold'
  parents := h.parents
  maps := by
    intro pid'
    by_cases heq : pid' = pid
    · rw [heq, pidMaps_setMaps, Function.update_self, MapsHelper.pidMaps_setMaps]
      exact Option.Rel.some hshows
    · rw [pidMaps_setMaps, Function.update_of_ne heq, MapsHelper.pidMaps_setMaps_of_ne _ _ heq]
      exact h.maps pid'

/-- The next place is free, and its map is empty. -/
theorem Represents.bump {this : MapsHeap} {values : MapsHelper} (h : this.Represents values) :
    this.bump.Represents values ∧ (∀ pid, this.pidMaps pid ≠ some this.nextMap) ∧
      this.Shows this.nextMap ∅ := by
  refine ⟨⟨h.inv.bump, h.parents, h.maps⟩, fun pid hpid => ?_, fun path => ?_⟩
  · exact absurd (h.inv.bound pid _ hpid) (Nat.lt_irrefl _)
  · rw [content_eq_none_iff.mpr]
    · rfl
    · rw [slot, h.inv.fresh this.nextMap (Nat.le_refl _)]
      rfl

theorem represents_newMaps {this : MapsHeap} {values : MapsHelper} (h : this.Represents values)
    (pid : u32) : (this.newMaps pid).Represents (values.setMaps pid ∅) := by
  obtain ⟨hbump, hfree, hshows⟩ := h.bump
  exact hbump.assign pid (Nat.lt_succ_self this.nextMap) hfree hshows

/-! ## Operations -/

theorem setMaps_self {values : MapsHelper} {pid : u32} {maps : ProcMaps}
    (h : values.pidMaps pid = some maps) : values.setMaps pid maps = values := by
  unfold MapsHelper.setMaps
  congr 1
  funext pid'
  split
  · rename_i heq
    rw [heq, h]
  · rfl

theorem setMaps_setMaps (values : MapsHelper) (pid : u32) (maps maps' : ProcMaps) :
    (values.setMaps pid maps).setMaps pid maps' = values.setMaps pid maps' := by
  unfold MapsHelper.setMaps
  congr 1
  funext pid'
  dsimp only
  split <;> rfl

theorem represents_ensureMaps {this : MapsHeap} {values : MapsHelper}
    (h : this.Represents values) (pid : u32) : (this.ensureMaps pid).Represents
      (values.setMaps pid ((values.pidMaps pid).getD ∅)) := by
  unfold ensureMaps
  cases hmaps : values.pidMaps pid with
  | none =>
      rw [rel_none h hmaps]
      exact represents_newMaps h pid
  | some maps =>
      obtain ⟨ref, hpid, -, -⟩ := rel_some h hmaps
      rw [hpid, Option.getD_some, setMaps_self hmaps]
      exact h

theorem represents_parseMapsContent {this : MapsHeap} {values : MapsHelper}
    (h : this.Represents values) (rt : GoRuntime) (pid : u32) (content : Text) (delOld : Bool) :
    (this.parseMapsContent rt pid content delOld).Represents
      (values.parseMapsContent pid content delOld) := by
  unfold parseMapsContent MapsHelper.parseMapsContent
  dsimp only
  generalize hmaps : (if delOld = true then ∅ else (values.pidMaps pid).getD ∅) = maps
  have hstart : (if delOld = true then this.newMaps pid else this.ensureMaps pid).Represents
      (values.setMaps pid maps) := by
    rw [← hmaps]
    split
    · exact represents_newMaps h pid
    · exact represents_ensureMaps h pid
  obtain ⟨ref, hpid, hbound, hshows⟩ := rel_some hstart (MapsHelper.pidMaps_setMaps values pid maps)
  obtain ⟨hchanges, hlines⟩ := foldl_addLine_shows rt (Text.splitOn '\n' content) hstart.inv
    hbound hshows
  have hstep := hstart.step hpid hchanges hlines
  rw [setMaps_setMaps] at hstep
  rw [hpid]
  exact hstep

/-- Both read the file, or none does. -/
theorem represents_parseMaps {this : MapsHeap} {values : MapsHelper}
    (h : this.Represents values) (rt : GoRuntime) (proc : u32 → Option Text) (pid : u32)
    (delOld : Bool) :
    (∃ e, this.parseMaps rt proc pid delOld = .error e ∧
      values.parseMaps proc pid delOld = .error e) ∨
    ∃ this' values', this.parseMaps rt proc pid delOld = .ok this' ∧
      values.parseMaps proc pid delOld = .ok values' ∧ this'.Represents values' := by
  unfold parseMaps MapsHelper.parseMaps
  cases proc pid with
  | none => exact Or.inl ⟨_, rfl, rfl⟩
  | some content =>
      exact Or.inr ⟨_, _, rfl, rfl, represents_parseMapsContent h rt pid content delOld⟩

theorem represents_recordMmap {this : MapsHeap} {values : MapsHelper}
    (h : this.Represents values) (rt : GoRuntime) (event : Mmap2Event) :
    (this.recordMmap rt event).Represents
      (values.setMaps event.pid (((values.pidMaps event.pid).getD ∅).add
        (fun info => info.baseAddr == info.baseAddr)
        (MapsLibInfo.named event.addr event.pgoff (event.addr + event.len) event.file)
        event.file)) := by
  have hstart := represents_ensureMaps h event.pid
  obtain ⟨ref, hpid, hbound, hshows⟩ := rel_some hstart (MapsHelper.pidMaps_setMaps ..)
  obtain ⟨hchanges, hadded⟩ := add_shows hstart.inv hbound hshows rt
    (fun info => info.baseAddr == info.baseAddr)
    (MapsLibInfo.named event.addr event.pgoff (event.addr + event.len) event.file) event.file
  have hstep := hstart.step hpid hchanges hadded
  rw [setMaps_setMaps] at hstep
  unfold recordMmap
  dsimp only
  rw [hpid]
  exact hstep

theorem represents_updateMaps {this : MapsHeap} {values : MapsHelper}
    (h : this.Represents values) (rt : GoRuntime) (proc : u32 → Option Text)
    (pidList : List u32) (event : Mmap2Event) :
    (this.updateMaps rt proc pidList event).Represents
      (values.updateMaps proc pidList event) := by
  unfold updateMaps MapsHelper.updateMaps
  split
  · exact h
  · rcases represents_parseMaps h rt proc event.pid false with
      ⟨e, hthis, hvalues⟩ | ⟨this', values', hthis, hvalues, hread⟩
    · rw [hthis, hvalues]
      exact represents_recordMmap h rt event
    · rw [hthis, hvalues]
      exact represents_recordMmap hread rt event

/-- A process gets a copy of the maps of another one. -/
theorem Represents.setClone {this : MapsHeap} {values : MapsHelper} (h : this.Represents values)
    (rt : GoRuntime) (range : MapRange) (pid : u32) {parentPid : u32} {maps : ProcMaps}
    (hmaps : values.pidMaps parentPid = some maps) :
    ∃ ref, this.pidMaps parentPid = some ref ∧
      ((this.clone rt ref).setMaps pid this.nextMap).Represents
        (values.setMaps pid (maps.clone range)) := by
  obtain ⟨ref, hpid, hbound, hshows⟩ := rel_some h hmaps
  obtain ⟨hbump, hfree, -⟩ := h.bump
  obtain ⟨hchanges, hcopied⟩ := clone_spec rt h.inv hbound
  refine ⟨ref, hpid, ?_⟩
  have hclone : (this.clone rt ref).Represents values := by
    refine ⟨hchanges.inv, hchanges.parents.trans h.parents, fun pid' => ?_⟩
    have hrel := hbump.maps pid'
    rw [hchanges.pidMaps]
    generalize values.pidMaps pid' = maps' at hrel
    generalize href : this.bump.pidMaps pid' = ref' at hrel
    cases hrel with
    | none => exact Option.Rel.none
    | some hold =>
        refine Option.Rel.some (hchanges.shows ?_ hold)
        rintro rfl
        exact hfree pid' href
  refine hclone.assign pid (hchanges.nextMap ▸ Nat.lt_succ_self this.nextMap) ?_ fun path => ?_
  · rw [hchanges.pidMaps]
    exact hfree
  · rw [hcopied path, hshows path, AList.perm_lookup (ProcMaps.perm_clone range maps)]

theorem represents_cloneMaps {this : MapsHeap} {values : MapsHelper}
    (h : this.Represents values) (rt : GoRuntime) (range : MapRange)
    (proc : u32 → Option Text) (pid parentPid : u32) :
    (this.cloneMaps rt proc pid parentPid).2.Represents
      (values.cloneMaps proc range pid parentPid).2 := by
  unfold cloneMaps MapsHelper.cloneMaps
  cases hmaps : values.pidMaps parentPid with
  | some maps =>
      obtain ⟨ref, hpid, hset⟩ := h.setClone rt range pid hmaps
      rw [hpid]
      exact hset
  | none =>
      rw [rel_none h hmaps]
      dsimp only
      rcases represents_parseMaps h rt proc parentPid false with
        ⟨e, hthis, hvalues⟩ | ⟨this', values', hthis, hvalues, hread⟩
      · rw [hthis, hvalues]
        exact h
      · rw [hthis, hvalues]
        dsimp only
        cases hmaps' : values'.pidMaps parentPid with
        | some maps =>
            obtain ⟨ref, hpid, hset⟩ := hread.setClone rt range pid hmaps'
            rw [hpid]
            exact hset
        | none =>
            rw [rel_none hread hmaps']
            exact hread

theorem represents_setParent {this : MapsHeap} {values : MapsHelper} (h : this.Represents values)
    (pid ppid : u32) : (this.setParent pid ppid).Represents (values.setParent pid ppid) where
  inv := ⟨h.inv.owned, h.inv.fresh, h.inv.bound, h.inv.apart⟩
  parents := by
    unfold setParent MapsHelper.setParent
    rw [h.parents]
  maps := h.maps

theorem represents_updateForkEvent {this : MapsHeap} {values : MapsHelper}
    (h : this.Represents values) (rt : GoRuntime) (range : MapRange)
    (proc : u32 → Option Text) (pid ppid : u32) :
    (this.updateForkEvent rt proc pid ppid).Represents
      (values.updateForkEvent proc range pid ppid) := by
  unfold updateForkEvent MapsHelper.updateForkEvent
  rw [h.parents]
  have hparent := represents_setParent h pid ppid
  cases values.childParentMap pid with
  | none =>
      dsimp only
      split
      · exact represents_cloneMaps hparent rt range proc pid ppid
      · exact hparent
  | some parentPid =>
      dsimp only
      split
      · exact hparent
      · exact h

/-- **One operation.** The heap goes on holding the values of the helper. -/
theorem represents_apply {this : MapsHeap} {values : MapsHelper} (h : this.Represents values)
    (rt : GoRuntime) (range : MapRange) (op : MapsOp) :
    (this.apply rt op).Represents (values.apply range op) := by
  cases op with
  | fork pid ppid proc => exact represents_updateForkEvent h rt range proc pid ppid
  | mmap event pidList proc => exact represents_updateMaps h rt proc pidList event
  | parse pid content delOld => exact represents_parseMapsContent h rt pid content delOld

end MapsHeap

/-! ## Runs -/

/-- The recorded maps as they are looked up. -/
def MapsHelper.view (this : MapsHelper) (pid : u32) : Option (Text → Option (List MapsLibInfo)) :=
  (this.pidMaps pid).map fun maps path => maps.lookup path

def MapsHeap.view (this : MapsHeap) (pid : u32) : Option (Text → Option (List MapsLibInfo)) :=
  (this.pidMaps pid).map fun ref path => this.content (ref, path)

theorem view_eq {this : MapsHeap} {values : MapsHelper} (h : this.Represents values)
    (pid : u32) : this.view pid = values.view pid := by
  unfold MapsHeap.view MapsHelper.view
  cases hmaps : values.pidMaps pid with
  | none => rw [MapsHeap.rel_none h hmaps, Option.map_none, Option.map_none]
  | some maps =>
      obtain ⟨ref, hpid, -, hshows⟩ := MapsHeap.rel_some h hmaps
      rw [hpid, Option.map_some, Option.map_some, funext hshows]

/-- Operations one after the other, on values and on the heap. -/
def mapsMachine (range : MapRange) : Machine MapsHelper MapsOp :=
  ⟨fun values op => some (values.apply range op)⟩

def heapMachine (rt : GoRuntime) : Machine MapsHeap MapsOp :=
  ⟨fun this op => some (this.apply rt op)⟩

/-- **A run.** What the heap holds after a run are the values after the same run. -/
theorem represents_run (rt : GoRuntime) (range : MapRange) {ops : List MapsOp}
    {this that : MapsHeap} {values : MapsHelper} (h : this.Represents values)
    (hrun : (heapMachine rt).run this ops = some that) :
    ∃ values', (mapsMachine range).run values ops = some values' ∧ that.Represents values' := by
  refine Machine.run_simulates (fun this values op that hR hstep => ?_) ops this values that h hrun
  obtain rfl := Option.some.inj hstep
  exact ⟨_, rfl, MapsHeap.represents_apply hR rt range op⟩

namespace MapsHelper

theorem pidMaps_cloneMaps {proc : u32 → Option Text} {range : MapRange} {this : MapsHelper}
    {pid ppid other : u32} (hpid : other ≠ pid) (hppid : other ≠ ppid) :
    (this.cloneMaps proc range pid ppid).2.pidMaps other = this.pidMaps other := by
  unfold cloneMaps parseMaps
  split
  · exact pidMaps_setMaps_of_ne _ _ hpid
  · cases proc ppid with
    | none => rfl
    | some content =>
        dsimp only
        split
        · rw [pidMaps_setMaps_of_ne _ _ hpid]
          exact pidMaps_setMaps_of_ne _ _ hppid
        · exact pidMaps_setMaps_of_ne _ _ hppid

/-- An operation leaves the maps of other processes alone. -/
theorem pidMaps_apply {range : MapRange} {this : MapsHelper} {op : MapsOp} {pid : u32}
    (h : pid ∉ op.writes) : (this.apply range op).pidMaps pid = this.pidMaps pid := by
  cases op with
  | fork pid' ppid proc =>
      simp only [MapsOp.writes, List.mem_cons, List.not_mem_nil, or_false, not_or] at h
      unfold apply updateForkEvent
      dsimp only
      split
      · split
        · exact pidMaps_cloneMaps h.1 h.2
        · rfl
      · split <;> rfl
  | mmap event pidList proc =>
      simp only [MapsOp.writes, List.mem_singleton] at h
      unfold apply updateMaps parseMaps
      dsimp only
      split
      · rfl
      · cases proc event.pid with
        | none => exact pidMaps_setMaps_of_ne _ _ h
        | some content =>
            dsimp only
            rw [pidMaps_setMaps_of_ne _ _ h]
            exact pidMaps_setMaps_of_ne _ _ h
  | parse pid' content delOld =>
      simp only [MapsOp.writes, List.mem_singleton] at h
      exact pidMaps_setMaps_of_ne _ _ h

theorem pidMaps_run {range : MapRange} {ops : List MapsOp} {pid : u32}
    (h : ∀ op ∈ ops, pid ∉ op.writes) :
    ∀ {this that : MapsHelper}, (mapsMachine range).run this ops = some that →
      that.pidMaps pid = this.pidMaps pid := by
  induction ops with
  | nil =>
      intro this that hrun
      rw [Option.some.inj hrun]
  | cons op ops ih =>
      obtain ⟨hop, hops⟩ := List.forall_mem_cons.mp h
      intro this that hrun
      obtain ⟨mid, hmid, hrest⟩ := Machine.run_cons_eq_some.mp hrun
      obtain rfl := Option.some.inj hmid
      exact (ih hops hrest).trans (pidMaps_apply hop)

/-- **A fork event.** The maps of a parent that are known are copied for a pid that had no fork
event before; they stay as they are. -/
theorem view_updateForkEvent {proc : u32 → Option Text} {range : MapRange} {this : MapsHelper}
    {pid ppid : u32} (hne : pid ≠ ppid) (hknown : this.view ppid ≠ none) :
    (this.updateForkEvent proc range pid ppid).view ppid = this.view ppid ∧
      (this.updateForkEvent proc range pid ppid).view pid =
        if this.childParentMap pid = none then this.view ppid else this.view pid := by
  unfold updateForkEvent
  cases hparent : this.childParentMap pid with
  | some parentPid =>
      rw [if_neg (Option.some_ne_none parentPid)]
      dsimp only
      split <;> exact ⟨rfl, rfl⟩
  | none =>
      cases hmaps : this.pidMaps ppid with
      | none => simp [view, hmaps] at hknown
      | some maps =>
          have hmaps' : (this.setParent pid ppid).pidMaps ppid = some maps := hmaps
          dsimp only
          rw [if_pos hne, if_pos rfl]
          unfold cloneMaps
          rw [hmaps']
          dsimp only
          unfold view
          rw [pidMaps_setMaps_of_ne _ _ hne.symm, hmaps', hmaps, pidMaps_setMaps]
          refine ⟨rfl, congrArg some (funext fun path => ?_)⟩
          exact AList.perm_lookup (ProcMaps.perm_clone range maps)

end MapsHelper

/-- A fork event of this pid. -/
def MapsOp.isForkOf (pid : u32) : MapsOp → Bool
  | .fork pid' _ _ => pid' == pid
  | _ => false

namespace MapsHelper

theorem childParentMap_parseMaps {proc : u32 → Option Text} {this read : MapsHelper} {pid : u32}
    {delOld : Bool} (h : this.parseMaps proc pid delOld = .ok read) :
    read.childParentMap = this.childParentMap := by
  unfold parseMaps at h
  split at h
  · cases h
  · rw [← Except.ok.inj h]
    rfl

theorem childParentMap_cloneMaps (proc : u32 → Option Text) (range : MapRange)
    (this : MapsHelper) (pid ppid : u32) :
    (this.cloneMaps proc range pid ppid).2.childParentMap = this.childParentMap := by
  unfold cloneMaps
  split
  · rfl
  · split
    · rfl
    · rename_i read hread
      have hsame := childParentMap_parseMaps hread
      split
      · exact hsame
      · exact hsame

/-- A pid is in the table after an operation if it was before or had a fork event. -/
theorem childParentMap_apply_eq_none {range : MapRange} {this : MapsHelper} {op : MapsOp}
    {pid : u32} : (this.apply range op).childParentMap pid = none ↔
      this.childParentMap pid = none ∧ op.isForkOf pid = false := by
  cases op with
  | fork pid' ppid proc =>
      have hset : (this.setParent pid' ppid).childParentMap pid = none ↔
          this.childParentMap pid = none ∧ (pid' == pid) = false := by
        unfold setParent
        by_cases heq : pid = pid'
        · simp [heq]
        · simp [Function.update_of_ne heq, Ne.symm heq]
      unfold apply updateForkEvent MapsOp.isForkOf
      dsimp only
      split
      · split
        · rw [childParentMap_cloneMaps, hset]
        · exact hset
      · rename_i parentPid hparent
        split
        · exact hset
        · refine ⟨fun h => ⟨h, ?_⟩, And.left⟩
          rw [beq_eq_false_iff_ne]
          rintro rfl
          rw [hparent] at h
          cases h
  | mmap event pidList proc =>
      have hsame : (this.updateMaps proc pidList event).childParentMap = this.childParentMap := by
        unfold updateMaps
        split
        · rfl
        · cases hread : this.parseMaps proc event.pid false with
          | error e => rfl
          | ok read =>
              have hsame : read.childParentMap = this.childParentMap :=
                childParentMap_parseMaps hread
              exact hsame
      simp [apply, MapsOp.isForkOf, hsame]
  | parse pid' content delOld =>
      simp [apply, MapsOp.isForkOf, parseMapsContent, setMaps]

theorem childParentMap_run {range : MapRange} {ops : List MapsOp} {pid : u32} :
    ∀ {this that : MapsHelper}, (mapsMachine range).run this ops = some that →
      (that.childParentMap pid = none ↔
        this.childParentMap pid = none ∧ ∀ op ∈ ops, op.isForkOf pid = false) := by
  induction ops with
  | nil =>
      intro this that hrun
      rw [Option.some.inj hrun]
      simp
  | cons op ops ih =>
      intro this that hrun
      obtain ⟨mid, hmid, hrest⟩ := Machine.run_cons_eq_some.mp hrun
      obtain rfl := Option.some.inj hmid
      rw [ih hrest, childParentMap_apply_eq_none, List.forall_mem_cons, and_assoc]

end MapsHelper

/-- What a fork event of a process with known maps should do: the child has the maps that the
parent has, and from then on operations on the one do not change the other. -/
structure ForkCopied (rt : GoRuntime) (before : MapsHeap) (pid ppid : u32)
    (proc : u32 → Option Text) : Prop where
  copied : (before.updateForkEvent rt proc pid ppid).view pid = before.view ppid
  parent : (before.updateForkEvent rt proc pid ppid).view ppid = before.view ppid
  independent : ∀ ops later,
    (heapMachine rt).run (before.updateForkEvent rt proc pid ppid) ops = some later →
    ((∀ op ∈ ops, pid ∉ op.writes) →
      later.view pid = (before.updateForkEvent rt proc pid ppid).view pid) ∧
    ((∀ op ∈ ops, ppid ∉ op.writes) →
      later.view ppid = (before.updateForkEvent rt proc pid ppid).view ppid)

/-- On the heap, too, operations on other processes leave the maps of a process alone. -/
theorem view_run {rt : GoRuntime} {this that : MapsHeap} {values : MapsHelper}
    (h : this.Represents values) {ops : List MapsOp} {pid : u32}
    (hops : ∀ op ∈ ops, pid ∉ op.writes) (hrun : (heapMachine rt).run this ops = some that) :
    that.view pid = this.view pid := by
  obtain ⟨values', hvalues, h'⟩ := represents_run rt .entries h hrun
  rw [view_eq h, view_eq h', MapsHelper.view, MapsHelper.view, MapsHelper.pidMaps_run hops hvalues]

/-- What a fork event does on the heap. -/
theorem view_updateForkEvent (rt : GoRuntime) {this : MapsHeap} {values : MapsHelper}
    (h : this.Represents values) {pid ppid : u32} (hne : pid ≠ ppid)
    (hknown : this.view ppid ≠ none) (proc : u32 → Option Text) :
    (this.updateForkEvent rt proc pid ppid).view ppid = this.view ppid ∧
      (this.updateForkEvent rt proc pid ppid).view pid =
        if this.childParentMap pid = none then this.view ppid else this.view pid := by
  have h' := MapsHeap.represents_updateForkEvent h rt .entries proc pid ppid
  rw [view_eq h', view_eq h', view_eq h, view_eq h, h.parents]
  rw [view_eq h] at hknown
  exact MapsHelper.view_updateForkEvent hne hknown

/-- **When a fork event copies the maps.** In every run, for a new process whose parent has known
maps, exactly when the pid had no fork event before, or has the maps of the parent already. -/
theorem forkCopied_iff (rt : GoRuntime) {ops : List MapsOp} {before : MapsHeap}
    (hrun : (heapMachine rt).run .init ops = some before) {pid ppid : u32} (hne : pid ≠ ppid)
    (hknown : before.view ppid ≠ none) (proc : u32 → Option Text) :
    ForkCopied rt before pid ppid proc ↔
      (∀ op ∈ ops, op.isForkOf pid = false) ∨ before.view pid = before.view ppid := by
  obtain ⟨values, hvalues, h⟩ := represents_run rt .entries MapsHeap.represents_init hrun
  have hnew : before.childParentMap pid = none ↔ ∀ op ∈ ops, op.isForkOf pid = false := by
    rw [h.parents, MapsHelper.childParentMap_run hvalues]
    exact and_iff_right rfl
  obtain ⟨hparent, hchild⟩ := view_updateForkEvent rt h hne hknown proc
  have h' := MapsHeap.represents_updateForkEvent h rt .entries proc pid ppid
  rw [← hnew]
  constructor
  · intro hcopied
    have hview := hcopied.copied
    rw [hchild] at hview
    split at hview
    · exact Or.inl ‹_›
    · exact Or.inr hview
  · intro hwhen
    refine ⟨?_, hparent, fun later that hlater =>
      ⟨fun hops => view_run h' hops hlater, fun hops => view_run h' hops hlater⟩⟩
    rw [hchild]
    split
    · rfl
    · rename_i hsome
      exact hwhen.resolve_left hsome

/-- Arrays of the least size, maps in the order of their entries. -/
def plainRuntime : GoRuntime := ⟨fun _ => 0, .entries⟩

/-- The maps of process 5 are read. -/
def readParent : MapsOp := .parse 5 "1000-2000 r-xp 0 fd:05 42 /liba.so".toList true

/-- Process 7 makes a thread, before it ends and its pid is used again. -/
def makeThread : MapsOp := .fork 7 7 fun _ => none

theorem view_readParent (ops : List MapsOp) :
    ∃ before, (heapMachine plainRuntime).run .init (ops ++ [readParent]) = some before ∧
      before.view 5 ≠ none := by
  obtain ⟨mid, hmid⟩ : ∃ mid, (heapMachine plainRuntime).run .init ops = some mid := by
    generalize MapsHeap.init = start
    induction ops generalizing start with
    | nil => exact ⟨start, rfl⟩
    | cons op ops ih => exact ih (start.apply plainRuntime op)
  refine ⟨mid.apply plainRuntime readParent, Machine.run_append_eq_some.mpr ⟨mid, hmid, rfl⟩, ?_⟩
  obtain ⟨values, -, h⟩ := represents_run plainRuntime .entries MapsHeap.represents_init hmid
  rw [view_eq (MapsHeap.represents_apply h plainRuntime .entries readParent)]
  simp [MapsHelper.apply, readParent, MapsHelper.parseMapsContent, MapsHelper.view]

/-- A process that is new in every sense gets the maps of its parent. -/
theorem fork_of_new_pid :
    ∃ before, (heapMachine plainRuntime).run .init [readParent] = some before ∧
      ForkCopied plainRuntime before 7 5 (fun _ => none) := by
  obtain ⟨before, hrun, hknown⟩ := view_readParent []
  have hnew : ∀ op ∈ [readParent], op.isForkOf 7 = false := by decide +kernel
  exact ⟨before, hrun, (forkCopied_iff plainRuntime hrun (by decide) hknown _).mpr (Or.inl hnew)⟩

/-- A pid that made a thread once is not given the maps of a new parent. -/
theorem reused_pid_not_copied :
    ¬ ∀ (rt : GoRuntime) (ops : List MapsOp) (before : MapsHeap),
      (heapMachine rt).run .init ops = some before → ∀ pid ppid : u32, pid ≠ ppid →
      before.view ppid ≠ none → ∀ proc, ForkCopied rt before pid ppid proc := by
  intro h
  obtain ⟨before, hrun, hknown⟩ := view_readParent [makeThread]
  have hcopied := (h plainRuntime _ before hrun 7 5 (by decide) hknown fun _ => none).copied
  obtain ⟨values, hvalues, hrepresents⟩ :=
    represents_run plainRuntime .entries MapsHeap.represents_init hrun
  have hchild := (view_updateForkEvent plainRuntime hrepresents
    (by decide : (7 : u32) ≠ 5) hknown fun _ => none).2
  have hparent : before.childParentMap 7 ≠ none := by
    rw [hrepresents.parents, Ne, MapsHelper.childParentMap_run hvalues]
    simp [MapsOp.isForkOf, makeThread]
  have hnone : before.view 7 = none := by
    rw [view_eq hrepresents, ← Option.some.inj hvalues]
    rfl
  rw [if_neg hparent, hnone] at hchild
  rw [hchild] at hcopied
  exact hknown hcopied.symm

end Stackplz
