import Stackplz.Basic.GoMap
import Stackplz.Basic.Numeral
import Stackplz.User.MapsLine

/-!
# The maps of the traced processes

`MapsHelper` records for each pid the regions of its files, from `/proc/<pid>/maps` and from
the events of `mmap`. What Go leaves open, the order in which it visits a map, is a parameter
of the functions that depend on it.
-/

set_option autoImplicit false

namespace Stackplz

/-! ## Regions -/

/-- `LibInfo` of the package `event`: a mapped region of a file. -/
structure MapsLibInfo where
  baseAddr : u64
  off : u64
  endAddr : u64
  libPath : Text
  libName : Text
deriving DecidableEq

/-- `LibInfo{}` -/
def MapsLibInfo.zero : MapsLibInfo := ⟨0, 0, 0, [], []⟩

/-- The last piece of a path. -/
def libNameOf (path : Text) : Text := (Text.splitOn '/' path).getLastD []

/-- `ParseLib` -/
def MapsLibInfo.parseLib (info : MapsLibInfo) : MapsLibInfo :=
  { info with libName := libNameOf info.libPath }

/-- A region with the name that `ParseLib` gives it. -/
def MapsLibInfo.named (baseAddr off endAddr : u64) (libPath : Text) : MapsLibInfo :=
  MapsLibInfo.parseLib ⟨baseAddr, off, endAddr, libPath, []⟩

/-- `addr >= BaseAddr && addr < EndAddr` -/
def MapsLibInfo.contains (info : MapsLibInfo) (addr : u64) : Bool :=
  addr ≥ info.baseAddr && addr < info.endAddr

/-- `0x%x` -/
def hexText (value : u64) : Text := "0x".toList ++ Nat.toDigits 16 value.toNat

/-- The name of a region without a file. -/
def unnamedPath (addr : u64) : Text := "UNNAMED_".toList ++ hexText addr

/-! ## The maps of one process -/

/-- `ProcMaps` -/
abbrev ProcMaps := GoMap Text (List MapsLibInfo)

/-- A path with its regions. -/
abbrev PathRegions := GoEntry Text (List MapsLibInfo)

/-- The order of the loops over `ProcMaps`. -/
abbrev MapRange := GoRange Text (List MapsLibInfo)

namespace ProcMaps

/-- The regions recorded for a path. -/
def regions (maps : ProcMaps) (path : Text) : List MapsLibInfo := (maps.lookup path).getD []

/-- A region is recorded. -/
def Has (maps : ProcMaps) (info : MapsLibInfo) : Prop := ∃ path, info ∈ maps.regions path

/-- No two regions of a file have the same base. -/
def DistinctBases (maps : ProcMaps) : Prop :=
  ∀ path, ((maps.regions path).map MapsLibInfo.baseAddr).Nodup

/-- How `ParseMapsContent` and `UpdateMaps` add a region: at the end of the list of its path,
unless the test finds a duplicate there. -/
def add (found : MapsLibInfo → Bool) (info : MapsLibInfo) (path : Text) (maps : ProcMaps) :
    ProcMaps :=
  match maps.lookup path with
  | some baseList => if baseList.any found then maps else maps.insert path (baseList ++ [info])
  | none => maps.insert path [info]

/-- `Clone`, in the order of a range. -/
def clone (range : MapRange) (maps : ProcMaps) : ProcMaps :=
  (range.order maps).foldl (fun maps entry => maps.insert entry.1 entry.2) ∅

theorem regions_insert (maps : ProcMaps) (path path' : Text) (infos : List MapsLibInfo) :
    regions (maps.insert path infos) path' =
      if path' = path then infos else maps.regions path' := by
  unfold regions
  split
  · rename_i h
    rw [h, AList.lookup_insert, Option.getD_some]
  · rename_i h
    rw [AList.lookup_insert_ne h]

theorem regions_empty (path : Text) : regions ∅ path = [] := rfl

/-- The list of the path grows by the region, if the test finds nothing in it. -/
theorem regions_add (found : MapsLibInfo → Bool) (info : MapsLibInfo) (path path' : Text)
    (maps : ProcMaps) : regions (add found info path maps) path' =
      if path' = path ∧ (maps.regions path).any found = false then maps.regions path ++ [info]
      else maps.regions path' := by
  unfold add
  cases hlookup : maps.lookup path with
  | none =>
      have hnil : maps.regions path = [] := by simp [regions, hlookup]
      simp [regions_insert, hnil]
  | some baseList =>
      have hlist : maps.regions path = baseList := by simp [regions, hlookup]
      cases hany : baseList.any found with
      | true => simp [hany, hlist]
      | false => simp [hany, hlist, regions_insert]

/-- What was recorded stays. -/
theorem mem_regions_add {found : MapsLibInfo → Bool} {info info' : MapsLibInfo} {path path' : Text}
    {maps : ProcMaps} (h : info' ∈ maps.regions path') :
    info' ∈ regions (add found info path maps) path' := by
  rw [regions_add]
  split
  · rename_i hadd
    rw [← hadd.1]
    exact List.mem_append_left _ h
  · exact h

/-- Where the test finds every region with the same base, bases stay distinct. -/
theorem DistinctBases.add {found : MapsLibInfo → Bool} {info : MapsLibInfo} {path : Text}
    {maps : ProcMaps} (hmaps : maps.DistinctBases)
    (hfound : ∀ other, other.baseAddr = info.baseAddr → found other = true) :
    (add found info path maps).DistinctBases := by
  intro path'
  rw [regions_add]
  split
  · rename_i hadd
    rw [List.map_append, List.map_singleton, List.nodup_append_comm, List.singleton_append,
      List.nodup_cons]
    refine ⟨?_, hmaps path⟩
    rw [List.mem_map]
    rintro ⟨other, hother, hbase⟩
    have hany : (maps.regions path).any found = true :=
      List.any_eq_true.mpr ⟨other, hother, hfound other hbase⟩
    simp [hany] at hadd
  · exact hmaps path'

/-- A copy has the same regions, whatever the order of the loop that makes it. -/
theorem perm_clone (range : MapRange) (maps : ProcMaps) :
    (clone range maps).entries.Perm maps.entries := range.perm_foldl_insert maps

theorem regions_clone (range : MapRange) (maps : ProcMaps) (path : Text) :
    regions (clone range maps) path = maps.regions path := by
  unfold regions
  rw [AList.perm_lookup (perm_clone range maps)]

end ProcMaps

/-! ## The helper -/

inductive MapsError where
  /-- `Error when opening file` -/
  | openFile
  /-- `get ProcMaps by pid failed` -/
  | noProcMaps
deriving DecidableEq

/-- `MapsHelper` -/
structure MapsHelper where
  pidMaps : u32 → Option ProcMaps
  childParentMap : u32 → Option u32

/-- The fields of an event of `mmap` that matter here. -/
structure Mmap2Event where
  pid : u32
  addr : u64
  len : u64
  pgoff : u64
  filename : Text

/-- The file of an event; a region without a file gets a name. -/
def Mmap2Event.file (event : Mmap2Event) : Text :=
  if event.filename = [] then unnamedPath event.addr else event.filename

/-- One line in `ParseMapsContent`. -/
def ProcMaps.addLine (maps : ProcMaps) (line : Text) : ProcMaps :=
  match fscanfMaps line with
  | some fields =>
      let segPath := if fields.segPath = [] then unnamedPath fields.segStart else fields.segPath
      let newInfo := MapsLibInfo.named fields.segStart fields.segOffset fields.segEnd segPath
      maps.add (fun info => info.baseAddr == newInfo.baseAddr) newInfo segPath
  | none => maps

namespace MapsHelper

def setMaps (this : MapsHelper) (pid : u32) (maps : ProcMaps) : MapsHelper :=
  { this with pidMaps := fun pid' => if pid' = pid then some maps else this.pidMaps pid' }

def parseMapsContent (this : MapsHelper) (pid : u32) (content : Text) (delOld : Bool) :
    MapsHelper :=
  let maps := if delOld then ∅ else (this.pidMaps pid).getD ∅
  this.setMaps pid ((Text.splitOn '\n' content).foldl ProcMaps.addLine maps)

/-- `ParseMaps`, where `proc` says what can be read of `/proc/<pid>/maps`. -/
def parseMaps (proc : u32 → Option Text) (this : MapsHelper) (pid : u32) (delOld : Bool) :
    Except MapsError MapsHelper :=
  match proc pid with
  | none => .error .openFile
  | some content => .ok (this.parseMapsContent pid content delOld)

def updateMaps (proc : u32 → Option Text) (pidList : List u32) (this : MapsHelper)
    (event : Mmap2Event) : MapsHelper :=
  if !pidList.contains event.pid then this
  else
    let this := match this.parseMaps proc event.pid false with
      | .ok read => read
      | .error _ => this
    let maps := (this.pidMaps event.pid).getD ∅
    let info := MapsLibInfo.named event.addr event.pgoff (event.addr + event.len) event.file
    -- the loop variable hides the new region, so that each region is compared with itself
    this.setMaps event.pid
      (maps.add (fun info => info.baseAddr == info.baseAddr) info event.file)

/-- `FindLib`: a copy of the maps of a process, which are read if there are none yet. -/
def findLib (proc : u32 → Option Text) (range : MapRange) (this : MapsHelper) (pid : u32) :
    Except MapsError ProcMaps × MapsHelper :=
  match this.pidMaps pid with
  | some maps => (.ok (maps.clone range), this)
  | none =>
      match this.parseMaps proc pid false with
      | .error e => (.error e, this)
      | .ok read =>
          match read.pidMaps pid with
          | some maps => (.ok (maps.clone range), read)
          | none => (.error .noProcMaps, read)

@[simp] theorem pidMaps_setMaps (this : MapsHelper) (pid : u32) (maps : ProcMaps) :
    (this.setMaps pid maps).pidMaps pid = some maps := if_pos rfl

theorem pidMaps_setMaps_of_ne (this : MapsHelper) {pid pid' : u32} (maps : ProcMaps)
    (h : pid' ≠ pid) : (this.setMaps pid maps).pidMaps pid' = this.pidMaps pid' := if_neg h

/-! ## Events of `mmap` -/

/-- Without a readable maps file an event is added to what was recorded. -/
theorem updateMaps_unreadable {proc : u32 → Option Text} {pidList : List u32} {this : MapsHelper}
    {event : Mmap2Event} (htracked : event.pid ∈ pidList) (hproc : proc event.pid = none) :
    this.updateMaps proc pidList event =
      this.setMaps event.pid (((this.pidMaps event.pid).getD ∅).add
        (fun info => info.baseAddr == info.baseAddr)
        (MapsLibInfo.named event.addr event.pgoff (event.addr + event.len) event.file)
        event.file) := by
  unfold updateMaps parseMaps
  simp [htracked, hproc]

end MapsHelper

/-- What an event of `mmap` asks for: its region is recorded, nothing is lost and no base is
recorded twice. -/
structure Mmap2Event.RecordedIn (event : Mmap2Event) (before after : ProcMaps) : Prop where
  recorded : ∃ info ∈ after.regions event.file, info.baseAddr = event.addr ∧
    info.endAddr = event.addr + event.len ∧ info.off = event.pgoff
  kept : ∀ path, ∀ info ∈ before.regions path, info ∈ after.regions path
  distinct : after.DistinctBases

/-- The duplicate test finds a duplicate in every list that is not empty, so that a region is
recorded only for a file that has none. -/
theorem add_recordedIn_iff {event : Mmap2Event} {maps : ProcMaps} (hmaps : maps.DistinctBases)
    (hnew : ∀ info ∈ maps.regions event.file, info.baseAddr ≠ event.addr) :
    event.RecordedIn maps (maps.add (fun info => info.baseAddr == info.baseAddr)
      (MapsLibInfo.named event.addr event.pgoff (event.addr + event.len) event.file) event.file) ↔
      maps.regions event.file = [] := by
  constructor
  · rintro ⟨⟨info, hinfo, hbase, -, -⟩, -, -⟩
    by_contra hne
    obtain ⟨first, hfirst⟩ := List.exists_mem_of_ne_nil _ hne
    have hany : (maps.regions event.file).any
        (fun info => info.baseAddr == info.baseAddr) = true :=
      List.any_eq_true.mpr ⟨first, hfirst, beq_self_eq_true _⟩
    rw [ProcMaps.regions_add] at hinfo
    simp only [hany, Bool.true_eq_false, and_false, if_false] at hinfo
    exact hnew info hinfo hbase
  · intro hnil
    let info := MapsLibInfo.named event.addr event.pgoff (event.addr + event.len) event.file
    refine ⟨⟨info, ?_, rfl, rfl, rfl⟩, fun path info h => ProcMaps.mem_regions_add h,
      hmaps.add fun other _ => beq_self_eq_true _⟩
    rw [ProcMaps.regions_add]
    simp [hnil, info]

/-- **When an event of `mmap` is recorded.** For a tracked process whose maps file cannot be
read, and a base that is new for the file, exactly when no region of the file is recorded. -/
theorem updateMaps_recorded_iff {proc : u32 → Option Text} {pidList : List u32}
    {this : MapsHelper} {event : Mmap2Event} {before : ProcMaps}
    (htracked : event.pid ∈ pidList) (hproc : proc event.pid = none)
    (hbefore : (this.pidMaps event.pid).getD ∅ = before) (hdistinct : before.DistinctBases)
    (hnew : ∀ info ∈ before.regions event.file, info.baseAddr ≠ event.addr) :
    (∃ after, (this.updateMaps proc pidList event).pidMaps event.pid = some after ∧
      event.RecordedIn before after) ↔ before.regions event.file = [] := by
  rw [MapsHelper.updateMaps_unreadable htracked hproc, MapsHelper.pidMaps_setMaps, hbefore,
    ← add_recordedIn_iff hdistinct hnew]
  constructor
  · rintro ⟨after, hafter, hrecorded⟩
    rwa [Option.some.inj hafter]
  · exact fun h => ⟨_, rfl, h⟩

/-- The second segment of a library. -/
def libcEvent : Mmap2Event := ⟨7, 0x9000, 0x1000, 0x2000, "/system/lib64/libc.so".toList⟩

/-- Its first segment, alone. -/
def libcMaps : ProcMaps :=
  AList.singleton libcEvent.file [MapsLibInfo.named 0x7000 0 0x9000 libcEvent.file]

theorem regions_singleton (path path' : Text) (infos : List MapsLibInfo) :
    ProcMaps.regions (AList.singleton path infos) path' = if path' = path then infos else [] := by
  rw [← AList.insert_empty, ProcMaps.regions_insert, ProcMaps.regions_empty]

theorem libcMaps_regions : libcMaps.regions libcEvent.file =
    [MapsLibInfo.named 0x7000 0 0x9000 libcEvent.file] := regions_singleton ..

theorem libcMaps_distinct : libcMaps.DistinctBases := by
  intro path
  rw [libcMaps, regions_singleton]
  split <;> simp

theorem libcMaps_new : ∀ info ∈ libcMaps.regions libcEvent.file,
    info.baseAddr ≠ libcEvent.addr := by
  rw [libcMaps_regions]
  decide

/-- The maps of process 7 with the first segment of the library. -/
def libcHelper : MapsHelper := ⟨fun _ => some libcMaps, fun _ => none⟩

/-- The first segment of another library, behind the one that is recorded. -/
def libmEvent : Mmap2Event := ⟨7, 0xa000, 0x1000, 0, "/system/lib64/libm.so".toList⟩

/-- After the first segment of a library, that of another one is recorded and a second segment of
the same one is not. -/
theorem updateMaps_recorded_otherFile :
    (∃ after, (libcHelper.updateMaps (fun _ => none) [7] libmEvent).pidMaps 7 = some after ∧
      libmEvent.RecordedIn libcMaps after) ∧
    ¬ ∃ after, (libcHelper.updateMaps (fun _ => none) [7] libcEvent).pidMaps 7 = some after ∧
      libcEvent.RecordedIn libcMaps after := by
  have hother : libcMaps.regions libmEvent.file = [] := regions_singleton ..
  have hnew : ∀ info ∈ libcMaps.regions libmEvent.file, info.baseAddr ≠ libmEvent.addr := by
    rw [hother]
    exact List.forall_mem_nil _
  have hbefore : (libcHelper.pidMaps 7).getD ∅ = libcMaps := rfl
  constructor
  · exact (updateMaps_recorded_iff (by decide) rfl hbefore libcMaps_distinct hnew).mpr hother
  · intro hrecorded
    have hnil := (updateMaps_recorded_iff (by decide) rfl hbefore libcMaps_distinct
      libcMaps_new).mp hrecorded
    rw [libcMaps_regions] at hnil
    cases hnil

/-- The second segment of a library is not recorded after the first one. -/
theorem libcEvent_not_recorded :
    ¬ ∀ (proc : u32 → Option Text) (pidList : List u32) (this : MapsHelper) (event : Mmap2Event)
      (before : ProcMaps), event.pid ∈ pidList → proc event.pid = none →
      (this.pidMaps event.pid).getD ∅ = before → before.DistinctBases →
      (∀ info ∈ before.regions event.file, info.baseAddr ≠ event.addr) →
      ∃ after, (this.updateMaps proc pidList event).pidMaps event.pid = some after ∧
        event.RecordedIn before after := by
  intro h
  obtain ⟨after, hafter, hrecorded⟩ := h (fun _ => none) [7] libcHelper libcEvent libcMaps
    (by decide) rfl rfl libcMaps_distinct libcMaps_new
  rw [MapsHelper.updateMaps_unreadable (by decide) rfl, MapsHelper.pidMaps_setMaps] at hafter
  rw [← Option.some.inj hafter] at hrecorded
  have hnil : libcMaps.regions libcEvent.file = [] :=
    (add_recordedIn_iff libcMaps_distinct libcMaps_new).mp hrecorded
  rw [libcMaps_regions] at hnil
  cases hnil

end Stackplz
