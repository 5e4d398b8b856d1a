import Stackplz.User.MapsLookup

/-!
# Refreshing the maps

A refresh merges the lines of the maps file into what is recorded already. What `GetOffset`
then says of the newest mappings depends on the regions from before: they are never removed,
and a mapping whose path and base are recorded is not entered again.
-/

set_option autoImplicit false

namespace Stackplz

namespace ProcMaps

theorem has_add {found : MapsLibInfo → Bool} {info info' : MapsLibInfo} {path : Text}
    {maps : ProcMaps} : Has (add found info path maps) info' ↔
      maps.Has info' ∨ (maps.regions path).any found = false ∧ info' = info := by
  unfold Has
  constructor
  · rintro ⟨path', h⟩
    rw [regions_add] at h
    split at h
    · rename_i hadd
      rcases List.mem_append.mp h with hold | hnew
      · exact Or.inl ⟨path, hold⟩
      · exact Or.inr ⟨hadd.2, List.mem_singleton.mp hnew⟩
    · exact Or.inl ⟨path', h⟩
  · rintro (⟨path', h⟩ | ⟨hany, rfl⟩)
    · exact ⟨path', mem_regions_add h⟩
    · refine ⟨path, ?_⟩
      rw [regions_add, if_pos ⟨rfl, hany⟩]
      exact List.mem_append_right _ (List.mem_singleton_self _)

end ProcMaps

/-! ## The newest mappings -/

namespace MapsMapping

/-- An address of the mapping. -/
def contains (m : MapsMapping) (addr : u64) : Bool := m.start ≤ addr && addr < m.stop

/-- The region that is recorded for the mapping. -/
def region (m : MapsMapping) : MapsLibInfo :=
  MapsLibInfo.named m.start m.offset m.stop (firstWord m.name)

/-- The mapping is not taken for a duplicate: no region of its path has its base. -/
def EnteredIn (m : MapsMapping) (maps : ProcMaps) : Prop :=
  ∀ info ∈ maps.regions (firstWord m.name), info.baseAddr ≠ m.start

/-- What `GetOffset` should say for an address of the mapping. -/
def offsetText (m : MapsMapping) (addr : u64) : Text :=
  Stackplz.offsetText (libNameOf m.name) (m.offset + (addr - m.start))

/-- How a refresh records the mapping. -/
def addTo (m : MapsMapping) (maps : ProcMaps) : ProcMaps :=
  if m.name = [] then maps
  else maps.add (fun info => info.baseAddr == m.start) m.region (firstWord m.name)

theorem contains_start (m : MapsMapping) : m.contains m.start = true := by
  have hlt := m.start_lt_stop
  simp [contains, hlt]

theorem enteredIn_iff {m : MapsMapping} {maps : ProcMaps} : m.EnteredIn maps ↔
    (maps.regions (firstWord m.name)).any (fun info => info.baseAddr == m.start) = false := by
  simp [EnteredIn]

end MapsMapping

/-- No address is in two mappings. -/
def DisjointMappings (mappings : List MapsMapping) : Prop :=
  mappings.Pairwise fun m m' => ∀ addr, m.contains addr = true → m'.contains addr = false

/-- A line records the mapping that it shows. -/
theorem addLine_of_shownBy {m : MapsMapping} {line : Text} (h : m.ShownBy line)
    (maps : ProcMaps) : maps.addLine line = m.addTo maps := by
  unfold ProcMaps.addLine MapsMapping.addTo
  rw [fscanfMaps_of_shownBy h]
  split
  · rename_i fields hfields
    split at hfields
    · cases hfields
    · rename_i hnamed
      obtain ⟨-, -, -, -, -, -, -, -, -, -, -, -, -, hname, -⟩ := h
      obtain rfl := Option.some.inj hfields
      rw [if_neg hnamed]
      dsimp only
      rw [if_neg (firstWord_ne_nil hnamed hname)]
      rfl
  · rename_i hfields
    split at hfields
    · rename_i hnil
      rw [if_pos hnil]
    · cases hfields

/-- A refresh records the mappings of the content, one after the other. -/
theorem foldl_addLine_of_shows {content : Text} {mappings : List MapsMapping}
    (h : ShowsMappings content mappings) (maps : ProcMaps) :
    (Text.splitOn '\n' content).foldl ProcMaps.addLine maps =
      mappings.foldl (fun maps m => m.addTo maps) maps := by
  obtain ⟨lines, hlines, rfl⟩ := h
  have hbreaks : ∀ line ∈ lines ++ [[]], '\n' ∉ line := by
    intro line hline
    rcases List.mem_append.mp hline with hmem | hlast
    · exact not_mem_of_forall_shownBy hlines line hmem
    · rw [List.mem_singleton.mp hlast]
      exact List.not_mem_nil
  rw [Text.splitOn_intercalate (by simp) hbreaks, List.foldl_append]
  have hlast (maps : ProcMaps) : [[]].foldl ProcMaps.addLine maps = maps := rfl
  rw [hlast]
  clear hbreaks
  induction hlines generalizing maps with
  | nil => rfl
  | cons hm _ ih => rw [List.foldl_cons, List.foldl_cons, addLine_of_shownBy hm, ih]

theorem has_addTo {m : MapsMapping} {maps : ProcMaps} {info : MapsLibInfo} :
    ProcMaps.Has (m.addTo maps) info ↔
      maps.Has info ∨ m.name ≠ [] ∧ m.EnteredIn maps ∧ info = m.region := by
  unfold MapsMapping.addTo
  split
  · rename_i hnil
    simp [hnil]
  · rename_i hnamed
    rw [ProcMaps.has_add, MapsMapping.enteredIn_iff]
    simp [hnamed]

/-- Of two mappings without a common address none is a duplicate of the other. -/
theorem enteredIn_addTo {m m' : MapsMapping} {maps : ProcMaps}
    (hdisjoint : ∀ addr, m.contains addr = true → m'.contains addr = false) :
    m'.EnteredIn (m.addTo maps) ↔ m'.EnteredIn maps := by
  have hstart : m.start ≠ m'.start := by
    intro heq
    have hout : m'.contains m.start = false := hdisjoint m.start m.contains_start
    rw [heq, m'.contains_start] at hout
    cases hout
  unfold MapsMapping.addTo
  split
  · rfl
  · unfold MapsMapping.EnteredIn
    rw [ProcMaps.regions_add]
    split
    · rename_i hadd
      rw [← hadd.1]
      simp only [List.mem_append, List.mem_singleton, or_imp, forall_and, forall_eq]
      exact and_iff_left hstart
    · rfl

/-- **What a refresh records.** Everything from before, and of the newest mappings those that
are not taken for duplicates; they do not stand in each other's way. -/
theorem has_foldl_addTo {mappings : List MapsMapping} (hdisjoint : DisjointMappings mappings) :
    ∀ {maps : ProcMaps} {info : MapsLibInfo},
      ProcMaps.Has (mappings.foldl (fun maps m => m.addTo maps) maps) info ↔
        maps.Has info ∨ ∃ m ∈ mappings, m.name ≠ [] ∧ m.EnteredIn maps ∧ info = m.region := by
  induction mappings with
  | nil => simp
  | cons m mappings ih =>
      intro maps info
      obtain ⟨hm, hrest⟩ := List.pairwise_cons.mp hdisjoint
      have hentered : (∃ m' ∈ mappings, m'.name ≠ [] ∧ m'.EnteredIn (m.addTo maps) ∧
            info = m'.region) ↔
          ∃ m' ∈ mappings, m'.name ≠ [] ∧ m'.EnteredIn maps ∧ info = m'.region := by
        refine exists_congr fun m' => and_congr_right fun hm' => and_congr_right fun _ => ?_
        rw [enteredIn_addTo (hm m' hm')]
      rw [List.foldl_cons, ih hrest, has_addTo, hentered, or_assoc]
      simp only [List.mem_cons, exists_eq_or_imp]

/-- An address is in one of the mappings at most. -/
theorem eq_of_contains {mappings : List MapsMapping} (hdisjoint : DisjointMappings mappings)
    {m m' : MapsMapping} (hm : m ∈ mappings) (hm' : m' ∈ mappings) {addr : u64}
    (haddr : m.contains addr = true) (haddr' : m'.contains addr = true) : m = m' := by
  induction mappings with
  | nil => exact absurd hm List.not_mem_nil
  | cons first mappings ih =>
      obtain ⟨hfirst, hrest⟩ := List.pairwise_cons.mp hdisjoint
      rcases List.mem_cons.mp hm with rfl | hrest_m
      · rcases List.mem_cons.mp hm' with rfl | hrest_m'
        · rfl
        · rw [hfirst m' hrest_m' addr haddr] at haddr'
          cases haddr'
      · rcases List.mem_cons.mp hm' with rfl | hrest_m'
        · rw [hfirst m hrest_m addr haddr'] at haddr
          cases haddr
        · exact ih hrest hrest_m hrest_m'

/-! ## Lookups after a refresh -/

namespace MapsMapping

/-- What was recorded before does not spoil the mapping. -/
structure FreshIn (m : MapsMapping) (before : ProcMaps) : Prop where
  /-- regions that share an address with it are of its library and at the same offsets -/
  agrees : ∀ info, before.Has info → ∀ addr, info.contains addr = true → m.contains addr = true →
    info.libName = libNameOf m.name ∧ info.off - info.baseAddr = m.offset - m.start
  /-- if it is entered, the first word of its name ends like the name -/
  entered : m.EnteredIn before → libNameOf (firstWord m.name) = libNameOf m.name
  /-- if it is not, regions from before cover it -/
  covered : ¬ m.EnteredIn before → ∀ addr, m.contains addr = true →
    ∃ info, before.Has info ∧ info.contains addr = true

/-- Every address of the mapping is looked up to it and to nothing else. -/
def FoundIn (m : MapsMapping) (this : MapsHelper) (pid : u32) (maps : ProcMaps) : Prop :=
  ∀ addr, m.contains addr = true → ∀ proc range,
    offsetsInOrder (range.order maps) addr = [m.offsetText addr] ∧
    (getOffset proc range this pid addr).1 = m.offsetText addr

theorem foundIn_iff {m : MapsMapping} {this : MapsHelper} {pid : u32} {maps : ProcMaps}
    (hmaps : this.pidMaps pid = some maps) : m.FoundIn this pid maps ↔
      ∀ addr, m.contains addr = true → (∃ info, maps.Has info ∧ info.contains addr = true) ∧
        ∀ info, maps.Has info → info.contains addr = true →
          info.offsetText addr = m.offsetText addr := by
  refine forall_congr' fun addr => imp_congr_right fun _ => ?_
  constructor
  · intro h
    exact offsetsInOrder_eq_singleton_iff.mp (h (fun _ => none) .entries).1
  · intro h proc range
    have hlist : offsetsInOrder (range.order maps) addr = [m.offsetText addr] :=
      offsetsInOrder_eq_singleton_iff.mpr h
    refine ⟨hlist, ?_⟩
    unfold getOffset
    rw [hmaps]
    dsimp only
    rw [hlist]
    exact @List.intercalate_singleton _ [','] _

/-- The texts agree when the names do and the regions are shifted by the same amount. -/
theorem offsetText_eq_iff {m : MapsMapping} {info : MapsLibInfo} {addr : u64} :
    info.offsetText addr = m.offsetText addr ↔
      info.libName = libNameOf m.name ∧ info.off - info.baseAddr = m.offset - m.start := by
  unfold MapsLibInfo.offsetText MapsMapping.offsetText
  rw [offsetText_inj]
  refine and_congr_right fun _ => ?_
  constructor
  · intro h
    bv_omega
  · intro h
    bv_omega

/-- A named mapping of the newest ones is looked up right exactly when nothing from before
spoils it. -/
theorem foundIn_iff_freshIn {mappings : List MapsMapping} (hdisjoint : DisjointMappings mappings)
    {m : MapsMapping} (hm : m ∈ mappings) (hnamed : m.name ≠ []) {this : MapsHelper} {pid : u32}
    {before : ProcMaps} (hmaps : this.pidMaps pid =
      some (mappings.foldl (fun maps m => m.addTo maps) before)) :
    m.FoundIn this pid (mappings.foldl (fun maps m => m.addTo maps) before) ↔
      m.FreshIn before := by
  rw [foundIn_iff hmaps]
  simp only [has_foldl_addTo hdisjoint, offsetText_eq_iff]
  constructor
  · intro h
    refine ⟨fun info hinfo addr hin haddr => (h addr haddr).2 info (Or.inl hinfo) hin,
      fun hentered => ?_, fun hnot addr haddr => ?_⟩
    · have hregion := (h m.start m.contains_start).2 m.region
        (Or.inr ⟨m, hm, hnamed, hentered, rfl⟩) m.contains_start
      exact hregion.1
    · obtain ⟨info, hbefore | ⟨m', hm', -, hentered', rfl⟩, hin⟩ := (h addr haddr).1
      · exact ⟨info, hbefore, hin⟩
      · rw [eq_of_contains hdisjoint hm hm' haddr hin] at hnot
        exact absurd hentered' hnot
  · intro h addr haddr
    constructor
    · by_cases hentered : m.EnteredIn before
      · exact ⟨m.region, Or.inr ⟨m, hm, hnamed, hentered, rfl⟩, haddr⟩
      · obtain ⟨info, hinfo, hin⟩ := h.covered hentered addr haddr
        exact ⟨info, Or.inl hinfo, hin⟩
    · rintro info (hbefore | ⟨m', hm', -, hentered', rfl⟩) hin
      · exact h.agrees info hbefore addr hin haddr
      · obtain rfl : m = m' := eq_of_contains hdisjoint hm hm' haddr hin
        exact ⟨h.entered hentered', rfl⟩

end MapsMapping

/-! ## Sequences of refreshes -/

namespace MapsHelper

/-- Refreshes of a process, one after the other. -/
def refresh (this : MapsHelper) (pid : u32) (contents : List Text) : MapsHelper :=
  contents.foldl (fun this content => this.parseMapsContent pid content false) this

/-- What is recorded for a process. -/
def mapsOf (this : MapsHelper) (pid : u32) : ProcMaps := (this.pidMaps pid).getD ∅

theorem pidMaps_parseMapsContent (this : MapsHelper) (pid : u32) {content : Text}
    {mappings : List MapsMapping} (h : ShowsMappings content mappings) :
    (this.parseMapsContent pid content false).pidMaps pid =
      some (mappings.foldl (fun maps m => m.addTo maps) (this.mapsOf pid)) := by
  unfold parseMapsContent
  rw [pidMaps_setMaps, foldl_addLine_of_shows h]
  rfl

end MapsHelper

/-- **When lookups reflect the newest maps.** After any refreshes and a newest content of
disjoint mappings, all addresses of its named mappings are looked up right exactly when what
the earlier refreshes left spoils none of them. -/
theorem refresh_foundIn_iff (this : MapsHelper) (pid : u32) (contents : List Text)
    {content : Text} {mappings : List MapsMapping} (hshows : ShowsMappings content mappings)
    (hdisjoint : DisjointMappings mappings) :
    (∀ m ∈ mappings, m.name ≠ [] →
      m.FoundIn (this.refresh pid (contents ++ [content])) pid
        ((this.refresh pid (contents ++ [content])).mapsOf pid)) ↔
      ∀ m ∈ mappings, m.name ≠ [] → m.FreshIn ((this.refresh pid contents).mapsOf pid) := by
  refine forall_congr' fun m => imp_congr_right fun hm => imp_congr_right fun hnamed => ?_
  have hmaps := MapsHelper.pidMaps_parseMapsContent (this.refresh pid contents) pid hshows
  have hrefresh : this.refresh pid (contents ++ [content]) =
      (this.refresh pid contents).parseMapsContent pid content false := List.foldl_concat ..
  rw [hrefresh, ← MapsMapping.foundIn_iff_freshIn hdisjoint hm hnamed hmaps, MapsHelper.mapsOf,
    hmaps, Option.getD_some]

/-! ### Contents of whole lines -/

/-- An executable mapping from the start of its file on. -/
def mappingAt (start stop : u64) (h : start < stop) (name : String) : MapsMapping :=
  ⟨start, stop, "r-xp".toList, 0, "fd:05".toList, 42, name.toList, h⟩

/-- Its line. -/
def mappingLine (start stop name : String) : Text :=
  start.toList ++ '-' :: stop.toList ++ " r-xp 0 fd:05 42 ".toList ++ name.toList

def contentOf (lines : List Text) : Text := List.intercalate ['\n'] (lines ++ [[]])

theorem shownBy_mappingLine {start stop name : String} {a b : u64} (h : a < b)
    (hstart : IsNumeral 16 start.toList a) (hstop : IsNumeral 16 stop.toList b)
    (hname : Scan.Stops Scan.isSpace name.toList) (hbreak : '\n' ∉ name.toList) :
    (mappingAt a b h name).ShownBy (mappingLine start stop name) := by
  have hoffset : IsNumeral 16 "0".toList 0 :=
    ⟨List.all_eq_true.mp (by decide), by decide⟩
  have hinode : IsNumeral 10 "42".toList 42 :=
    ⟨List.all_eq_true.mp (by decide), by decide⟩
  have hperm : IsWord "r-xp".toList := ⟨by decide, by simp [Scan.isSpace]⟩
  have hdevice : IsWord "fd:05".toList := ⟨by decide, by simp [Scan.isSpace]⟩
  refine ⟨_, _, _, _, [' '], hstart, hstop, hperm, hoffset, hdevice, hinode,
    fun _ => List.mem_singleton.mp, fun _ => List.cons_ne_nil _ _, hname, hbreak, ?_⟩
  simp [mappingLine, mappingAt]

def libaMapping : MapsMapping := mappingAt 0x1000 0x2000 (by decide) "/liba.so"
def libbMapping : MapsMapping := mappingAt 0x1000 0x2000 (by decide) "/libb.so"
def libcMapping : MapsMapping := mappingAt 0x4000 0x5000 (by decide) "/libc.so"
def libdMapping : MapsMapping := mappingAt 0x2000 0x3000 (by decide) "/libd.so"

def libaLine : Text := mappingLine "1000" "2000" "/liba.so"
def libbLine : Text := mappingLine "1000" "2000" "/libb.so"
def libcLine : Text := mappingLine "4000" "5000" "/libc.so"
def libdLine : Text := mappingLine "2000" "3000" "/libd.so"

theorem libaMapping_shown : libaMapping.ShownBy libaLine :=
  shownBy_mappingLine _ ⟨List.all_eq_true.mp (by decide), by decide⟩
    ⟨List.all_eq_true.mp (by decide), by decide⟩ (Scan.stops_cons (by decide) _) (by decide)

theorem libbMapping_shown : libbMapping.ShownBy libbLine :=
  shownBy_mappingLine _ ⟨List.all_eq_true.mp (by decide), by decide⟩
    ⟨List.all_eq_true.mp (by decide), by decide⟩ (Scan.stops_cons (by decide) _) (by decide)

theorem libcMapping_shown : libcMapping.ShownBy libcLine :=
  shownBy_mappingLine _ ⟨List.all_eq_true.mp (by decide), by decide⟩
    ⟨List.all_eq_true.mp (by decide), by decide⟩ (Scan.stops_cons (by decide) _) (by decide)

theorem libdMapping_shown : libdMapping.ShownBy libdLine :=
  shownBy_mappingLine _ ⟨List.all_eq_true.mp (by decide), by decide⟩
    ⟨List.all_eq_true.mp (by decide), by decide⟩ (Scan.stops_cons (by decide) _) (by decide)

/-- Mappings one behind the other share no address. -/
theorem disjoint_of_stop_le {m m' : MapsMapping} (h : m.stop ≤ m'.start) (addr : u64)
    (haddr : m.contains addr = true) : m'.contains addr = false := by
  simp only [MapsMapping.contains, Bool.and_eq_true, decide_eq_true_eq] at haddr
  have hbefore : ¬ m'.start ≤ addr := fun hle =>
    absurd (Nat.le_trans h hle) (Nat.not_le.mpr haddr.2)
  simp [MapsMapping.contains, hbefore]

/-- A process whose maps were never read. -/
def unreadHelper : MapsHelper := ⟨fun _ => none, fun _ => none⟩

/-- After a first refresh. -/
theorem mapsOf_first {lines : List Text} {mappings : List MapsMapping}
    (h : List.Forall₂ MapsMapping.ShownBy mappings lines) :
    (unreadHelper.refresh 7 [contentOf lines]).mapsOf 7 =
      mappings.foldl (fun maps m => m.addTo maps) ∅ := by
  have hshows : ShowsMappings (contentOf lines) mappings := ⟨lines, h, rfl⟩
  show ((unreadHelper.parseMapsContent 7 (contentOf lines) false).pidMaps 7).getD ∅ = _
  rw [MapsHelper.pidMaps_parseMapsContent unreadHelper 7 hshows]
  rfl

theorem enteredIn_empty (m : MapsMapping) : m.EnteredIn ∅ := by
  rw [MapsMapping.EnteredIn, ProcMaps.regions_empty]
  exact List.forall_mem_nil _

/-- A library stays, one goes and another one comes. -/
def refreshedAgain : MapsHelper :=
  unreadHelper.refresh 7 ([contentOf [libaLine, libdLine]] ++ [contentOf [libaLine, libcLine]])

/-- The two libraries that are left are looked up right. -/
theorem refresh_foundIn_again :
    libaMapping.FoundIn refreshedAgain 7 (refreshedAgain.mapsOf 7) ∧
      libcMapping.FoundIn refreshedAgain 7 (refreshedAgain.mapsOf 7) := by
  have hbefore : DisjointMappings [libaMapping, libdMapping] :=
    List.pairwise_pair.mpr (disjoint_of_stop_le (by decide))
  have hnewest : DisjointMappings [libaMapping, libcMapping] :=
    List.pairwise_pair.mpr (disjoint_of_stop_le (by decide))
  have hshows : ShowsMappings (contentOf [libaLine, libcLine]) [libaMapping, libcMapping] :=
    ⟨[libaLine, libcLine], .cons libaMapping_shown (.cons libcMapping_shown .nil), rfl⟩
  suffices hfresh : ∀ m ∈ [libaMapping, libcMapping], m.name ≠ [] →
      m.FreshIn ((unreadHelper.refresh 7 [contentOf [libaLine, libdLine]]).mapsOf 7) by
    have hfound := (refresh_foundIn_iff unreadHelper 7 [contentOf [libaLine, libdLine]] hshows
      hnewest).mpr hfresh
    exact ⟨hfound libaMapping (List.mem_cons_self ..) (by decide),
      hfound libcMapping (List.mem_cons_of_mem _ (List.mem_singleton_self _)) (by decide)⟩
  -- two regions are left by the earlier refresh, one of them of the library that stays
  rw [mapsOf_first (.cons libaMapping_shown (.cons libdMapping_shown .nil))]
  have hhas (info : MapsLibInfo) : ProcMaps.Has
      ([libaMapping, libdMapping].foldl (fun maps m => m.addTo maps) ∅) info ↔
        info = libaMapping.region ∨ info = libdMapping.region := by
    have hnone : ¬ ProcMaps.Has ∅ info := by
      rintro ⟨path, hinfo⟩
      exact List.not_mem_nil (ProcMaps.regions_empty path ▸ hinfo)
    have hliba : libaMapping.name ≠ [] := by decide
    have hlibd : libdMapping.name ≠ [] := by decide
    rw [has_foldl_addTo hbefore]
    simp [hnone, hliba, hlibd, enteredIn_empty]
  intro m hm _
  rcases List.mem_pair.mp hm with rfl | rfl
  · refine ⟨fun info hinfo addr hin haddr => ?_, fun _ => by decide, fun _ addr haddr =>
      ⟨libaMapping.region, (hhas _).mpr (Or.inl rfl), haddr⟩⟩
    rcases (hhas info).mp hinfo with rfl | rfl
    · exact ⟨rfl, rfl⟩
    · exact absurd hin (Bool.eq_false_iff.mp (disjoint_of_stop_le (by decide) addr haddr))
  · refine ⟨fun info hinfo addr hin haddr => ?_, fun _ => by decide, fun hnot => ?_⟩
    · rcases (hhas info).mp hinfo with rfl | rfl
      · exact absurd haddr (Bool.eq_false_iff.mp (disjoint_of_stop_le (by decide) addr hin))
      · exact absurd haddr (Bool.eq_false_iff.mp (disjoint_of_stop_le (by decide) addr hin))
    · have hliba : libcMapping.EnteredIn (libaMapping.addTo ∅) :=
        (enteredIn_addTo (disjoint_of_stop_le (by decide))).mpr (enteredIn_empty libcMapping)
      have hlibd : libcMapping.EnteredIn (libdMapping.addTo (libaMapping.addTo ∅)) :=
        (enteredIn_addTo (disjoint_of_stop_le (by decide))).mpr hliba
      exact absurd hlibd hnot

/-- Where one library took the place of another, an address is looked up to both. -/
theorem replaced_mapping_not_found :
    ¬ ∀ (this : MapsHelper) (pid : u32) (contents : List Text) (content : Text)
      (mappings : List MapsMapping), ShowsMappings content mappings → DisjointMappings mappings →
      ∀ m ∈ mappings, m.name ≠ [] →
        m.FoundIn (this.refresh pid (contents ++ [content])) pid
          ((this.refresh pid (contents ++ [content])).mapsOf pid) := by
  intro h
  have hfound := h unreadHelper 7 [contentOf [libaLine]] (contentOf [libbLine]) [libbMapping]
    ⟨[libbLine], .cons libbMapping_shown .nil, rfl⟩
    (List.pairwise_singleton _ _) _ (List.mem_singleton_self _) (by decide)
  have htext := (hfound 0x1000 (by decide) (fun _ => none) .entries).2
  exact absurd htext (by decide +kernel)

end Stackplz
