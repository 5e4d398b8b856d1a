import Mathlib.Data.List.Induction
import Stackplz.User.MapsHelper

/-!
# Looking up the maps

`FindLibInMaps` looks for a library by its name or path, for the base of a breakpoint, and
`GetOffset` for the regions that an address is in. Both visit a Go map, so that a result can
depend on the order of the visit.
-/

set_option autoImplicit false

namespace Stackplz

namespace ProcMaps

/-- What a loop over the maps visits is what is recorded. -/
theorem has_iff_exists_mem_order (range : MapRange) {maps : ProcMaps} {info : MapsLibInfo} :
    maps.Has info ↔ ∃ entry ∈ range.order maps, info ∈ entry.2 := by
  constructor
  · rintro ⟨path, hinfo⟩
    unfold regions at hinfo
    cases hlookup : maps.lookup path with
    | none => simp [hlookup] at hinfo
    | some infos =>
        rw [hlookup, Option.getD_some] at hinfo
        exact ⟨⟨path, infos⟩, GoRange.mem_order_iff.mpr hlookup, hinfo⟩
  · rintro ⟨⟨path, infos⟩, hentry, hinfo⟩
    refine ⟨path, ?_⟩
    rw [regions, GoRange.mem_order_iff.mp hentry]
    exact hinfo

end ProcMaps

/-! ## A library by name -/

/-- The region is of the library that was asked for. -/
def MapsLibInfo.isLib (brkLib : Text) (info : MapsLibInfo) : Bool :=
  brkLib == info.libPath || brkLib == info.libName

/-- The loops of `FindLibInMaps`: the first region of each list that has one, and so that of
the last such list. -/
def findInOrder (brkLib : Text) (order : List PathRegions) : MapsLibInfo :=
  order.foldl (fun info entry => (entry.2.find? (MapsLibInfo.isLib brkLib)).getD info)
    MapsLibInfo.zero

/-- `FindLibInMaps`; the loops are over the copy that `FindLib` returns. -/
def findLibInMaps (proc : u32 → Option Text) (range rangeCopy : MapRange) (this : MapsHelper)
    (pid : u32) (brkLib : Text) : Except MapsError MapsLibInfo :=
  (this.findLib proc range pid).1.map fun copy => findInOrder brkLib (rangeCopy.order copy)

/-- The address of a breakpoint: the base of its library and the offset. -/
def brkAddr (libInfo : Except MapsError MapsLibInfo) (addr : u64) : Except MapsError u64 :=
  libInfo.map fun info => info.baseAddr + addr

/-- What a search for a library in recorded maps should be: an error when nothing matches, and
else one region that matches, in every order of the loops. -/
structure FindsLib (this : MapsHelper) (maps : ProcMaps) (pid : u32) (brkLib : Text) : Prop where
  missing : (∀ info, maps.Has info → info.isLib brkLib = false) → ∀ proc range rangeCopy,
    ∃ e, findLibInMaps proc range rangeCopy this pid brkLib = .error e
  found : (∃ info, maps.Has info ∧ info.isLib brkLib = true) →
    ∃ info, maps.Has info ∧ info.isLib brkLib = true ∧ ∀ proc range rangeCopy,
      findLibInMaps proc range rangeCopy this pid brkLib = .ok info
  address : ∀ proc range rangeCopy addr value,
    brkAddr (findLibInMaps proc range rangeCopy this pid brkLib) addr = .ok value →
      ∃ info, maps.Has info ∧ info.isLib brkLib = true ∧ value = info.baseAddr + addr

/-- The lists with a region of the library agree on the first one. -/
def ProcMaps.OneFirst (maps : ProcMaps) (brkLib : Text) : Prop :=
  ∀ path path' info info', (maps.regions path).find? (MapsLibInfo.isLib brkLib) = some info →
    (maps.regions path').find? (MapsLibInfo.isLib brkLib) = some info' → info = info'

theorem findLibInMaps_recorded {this : MapsHelper} {maps : ProcMaps} {pid : u32}
    (hmaps : this.pidMaps pid = some maps) (proc : u32 → Option Text) (range rangeCopy : MapRange)
    (brkLib : Text) : findLibInMaps proc range rangeCopy this pid brkLib =
      .ok (findInOrder brkLib (rangeCopy.order (maps.clone range))) := by
  unfold findLibInMaps MapsHelper.findLib
  rw [hmaps]
  rfl

/-- The last list with a region of the library decides. -/
theorem findInOrder_concat (brkLib : Text) (order : List PathRegions) (entry : PathRegions) :
    findInOrder brkLib (order ++ [entry]) =
      (entry.2.find? (MapsLibInfo.isLib brkLib)).getD (findInOrder brkLib order) :=
  List.foldl_concat ..

/-- What is found is the first match of some list, unless no list has one. -/
theorem findInOrder_cases (brkLib : Text) (order : List PathRegions) :
    (findInOrder brkLib order = MapsLibInfo.zero ∧
      ∀ entry ∈ order, entry.2.find? (MapsLibInfo.isLib brkLib) = none) ∨
    ∃ entry ∈ order,
      entry.2.find? (MapsLibInfo.isLib brkLib) = some (findInOrder brkLib order) := by
  induction order using List.reverseRecOn with
  | nil => exact Or.inl ⟨rfl, List.forall_mem_nil _⟩
  | append_singleton order entry ih =>
      rw [findInOrder_concat]
      cases hfind : entry.2.find? (MapsLibInfo.isLib brkLib) with
      | some info =>
          refine Or.inr ⟨entry, List.mem_append_right _ (List.mem_singleton_self _), ?_⟩
          rw [hfind, Option.getD_some]
      | none =>
          rw [Option.getD_none]
          rcases ih with ⟨hzero, hnone⟩ | ⟨other, hother, hsome⟩
          · refine Or.inl ⟨hzero, fun other hother => ?_⟩
            rcases List.mem_append.mp hother with hfront | hlast
            · exact hnone other hfront
            · rwa [List.mem_singleton.mp hlast]
          · exact Or.inr ⟨other, List.mem_append_left _ hother, hsome⟩

theorem find_eq_none_of_isLib {brkLib : Text} {infos : List MapsLibInfo} {info : MapsLibInfo}
    (hinfo : info ∈ infos) (hlib : info.isLib brkLib = true) :
    ∃ first, infos.find? (MapsLibInfo.isLib brkLib) = some first := by
  rw [← Option.isSome_iff_exists, List.find?_isSome]
  exact ⟨info, hinfo, hlib⟩

/-- In recorded maps with a region of the library, one visit finds the first match of any list
that has one. -/
theorem exists_findLibInMaps_eq {this : MapsHelper} {maps : ProcMaps} {pid : u32} {brkLib : Text}
    {path : Text} {info : MapsLibInfo} (hmaps : this.pidMaps pid = some maps)
    (hinfo : (maps.regions path).find? (MapsLibInfo.isLib brkLib) = some info) :
    ∃ rangeCopy, findLibInMaps (fun _ => none) .entries rangeCopy this pid brkLib = .ok info := by
  rw [← ProcMaps.regions_clone .entries] at hinfo
  cases hlookup : (maps.clone .entries).lookup path with
  | none => simp [ProcMaps.regions, hlookup] at hinfo
  | some infos =>
      obtain ⟨rangeCopy, front, horder⟩ := exists_range_last hlookup
      refine ⟨rangeCopy, ?_⟩
      rw [findLibInMaps_recorded hmaps, horder, findInOrder_concat]
      rw [ProcMaps.regions, hlookup, Option.getD_some] at hinfo
      rw [hinfo, Option.getD_some]

/-- Every visit finds the first match of some list, where there is one. -/
theorem findInOrder_clone {maps : ProcMaps} {brkLib : Text}
    (h : ∃ info, maps.Has info ∧ info.isLib brkLib = true) (range rangeCopy : MapRange) :
    ∃ path, (maps.regions path).find? (MapsLibInfo.isLib brkLib) =
      some (findInOrder brkLib (rangeCopy.order (maps.clone range))) := by
  rcases findInOrder_cases brkLib (rangeCopy.order (maps.clone range)) with
    ⟨-, hnone⟩ | ⟨⟨path, infos⟩, hentry, hfind⟩
  · obtain ⟨info, ⟨path, hinfo⟩, hlib⟩ := h
    have hhas : (maps.clone range).Has info := ⟨path, by rwa [ProcMaps.regions_clone]⟩
    obtain ⟨entry, hentry, hmem⟩ := (ProcMaps.has_iff_exists_mem_order _).mp hhas
    obtain ⟨first, hfirst⟩ := find_eq_none_of_isLib hmem hlib
    rw [hnone entry hentry] at hfirst
    cases hfirst
  · refine ⟨path, ?_⟩
    rw [← ProcMaps.regions_clone range, ProcMaps.regions, GoRange.mem_order_iff.mp hentry]
    exact hfind

/-- **When a library is found.** In recorded maps, exactly when a region matches and all lists
with a match have the same first one. -/
theorem findsLib_iff {this : MapsHelper} {maps : ProcMaps} {pid : u32} (brkLib : Text)
    (hmaps : this.pidMaps pid = some maps) : FindsLib this maps pid brkLib ↔
      (∃ info, maps.Has info ∧ info.isLib brkLib = true) ∧ maps.OneFirst brkLib := by
  constructor
  · intro h
    have hexists : ∃ info, maps.Has info ∧ info.isLib brkLib = true := by
      by_contra hnone
      have hmissing (info : MapsLibInfo) (hhas : maps.Has info) : info.isLib brkLib = false :=
        Bool.eq_false_iff.mpr fun hlib => hnone ⟨info, hhas, hlib⟩
      obtain ⟨e, he⟩ := h.missing hmissing (fun _ => none) .entries .entries
      rw [findLibInMaps_recorded hmaps] at he
      cases he
    refine ⟨hexists, fun path path' info info' hinfo hinfo' => ?_⟩
    obtain ⟨result, -, -, hresult⟩ := h.found hexists
    obtain ⟨rangeCopy, hfind⟩ := exists_findLibInMaps_eq hmaps hinfo
    obtain ⟨rangeCopy', hfind'⟩ := exists_findLibInMaps_eq hmaps hinfo'
    have heq : info = result := Except.ok.inj (hfind.symm.trans (hresult _ _ _))
    have heq' : info' = result := Except.ok.inj (hfind'.symm.trans (hresult _ _ _))
    rw [heq, heq']
  · rintro ⟨hexists, hone⟩
    obtain ⟨path, hpath⟩ := findInOrder_clone hexists .entries .entries
    generalize findInOrder brkLib _ = result at hpath
    have hhas : maps.Has result := ⟨path, List.mem_of_find?_eq_some hpath⟩
    have hlib : result.isLib brkLib = true := List.find?_some hpath
    have hresult (proc : u32 → Option Text) (range rangeCopy : MapRange) :
        findLibInMaps proc range rangeCopy this pid brkLib = .ok result := by
      obtain ⟨path', hpath'⟩ := findInOrder_clone hexists range rangeCopy
      rw [findLibInMaps_recorded hmaps, hone path path' _ _ hpath hpath']
    refine ⟨fun hmissing => ?_, fun _ => ⟨result, hhas, hlib, hresult⟩, ?_⟩
    · rw [hmissing result hhas] at hlib
      cases hlib
    · intro proc range rangeCopy addr value hvalue
      rw [hresult] at hvalue
      exact ⟨result, hhas, hlib, (Except.ok.inj hvalue).symm⟩

/-! ### Two files of one name -/

/-- A `libc.so` of another path. -/
def apexLibc : MapsLibInfo := MapsLibInfo.named 0xb000 0 0xc000 "/apex/lib64/libc.so".toList

/-- Both are mapped. -/
def twoLibcMaps : ProcMaps := AList.insert apexLibc.libPath [apexLibc] libcMaps

theorem twoLibcMaps_apex : twoLibcMaps.regions apexLibc.libPath = [apexLibc] := by
  rw [twoLibcMaps, ProcMaps.regions_insert, if_pos rfl]

/-- The paths that a loop finds a match under. -/
theorem find_twoLibcMaps {brkLib path : Text} {info : MapsLibInfo}
    (h : (twoLibcMaps.regions path).find? (MapsLibInfo.isLib brkLib) = some info) :
    info = apexLibc ∨ info = MapsLibInfo.named 0x7000 0 0x9000 libcEvent.file := by
  have hmem := List.mem_of_find?_eq_some h
  rw [twoLibcMaps, ProcMaps.regions_insert] at hmem
  split at hmem
  · exact Or.inl (List.mem_singleton.mp hmem)
  · rw [libcMaps, regions_singleton] at hmem
    split at hmem
    · exact Or.inr (List.mem_singleton.mp hmem)
    · exact absurd hmem List.not_mem_nil

/-- The library is found by its path, and not by its name, under which there are two. -/
theorem twoLibc_findsLib :
    FindsLib ⟨fun _ => some twoLibcMaps, fun _ => none⟩ twoLibcMaps 7 apexLibc.libPath ∧
      ¬ FindsLib ⟨fun _ => some twoLibcMaps, fun _ => none⟩ twoLibcMaps 7 "libc.so".toList := by
  constructor
  · -- only one of the two has this path
    have hhas : twoLibcMaps.Has apexLibc := by
      refine ⟨apexLibc.libPath, ?_⟩
      rw [twoLibcMaps_apex]
      exact List.mem_singleton_self _
    have hfirst {path : Text} {info : MapsLibInfo}
        (h : (twoLibcMaps.regions path).find? (MapsLibInfo.isLib apexLibc.libPath) = some info) :
        info = apexLibc := by
      have hlib := List.find?_some h
      rcases find_twoLibcMaps h with rfl | rfl
      · rfl
      · exact absurd hlib (by decide +kernel)
    refine (findsLib_iff _ rfl).mpr ⟨⟨apexLibc, hhas, by decide +kernel⟩, ?_⟩
    intro path path' info info' hinfo hinfo'
    rw [hfirst hinfo, hfirst hinfo']
  · intro hfinds
    have hone := ((findsLib_iff _ rfl).mp hfinds).2
    have hsystem : twoLibcMaps.regions libcEvent.file =
        [MapsLibInfo.named 0x7000 0 0x9000 libcEvent.file] := by
      rw [twoLibcMaps, ProcMaps.regions_insert, if_neg (by decide +kernel), libcMaps_regions]
    -- both paths have a first match of their own
    have heq : apexLibc = MapsLibInfo.named 0x7000 0 0x9000 libcEvent.file := by
      refine hone apexLibc.libPath libcEvent.file _ _ ?_ ?_
      · rw [twoLibcMaps_apex]
        decide +kernel
      · rw [hsystem]
        decide +kernel
    exact absurd heq (by decide +kernel)

/-- A library that is not mapped is found, with base zero. -/
theorem libfoo_not_findsLib :
    ¬ ∀ (this : MapsHelper) (maps : ProcMaps) (pid : u32) (brkLib : Text),
      this.pidMaps pid = some maps → FindsLib this maps pid brkLib := by
  intro h
  have hfinds := h ⟨fun _ => some ∅, fun _ => none⟩ ∅ 7 "libfoo.so".toList rfl
  have hmissing (info : MapsLibInfo) (hhas : ProcMaps.Has ∅ info) :
      info.isLib "libfoo.so".toList = false := by
    obtain ⟨path, hinfo⟩ := hhas
    exact absurd hinfo (List.not_mem_nil)
  obtain ⟨e, he⟩ := hfinds.missing hmissing (fun _ => none) .entries .entries
  rw [findLibInMaps_recorded rfl] at he
  cases he

/-! ## An address -/

/-- `%s + 0x%x` -/
def offsetText (libName : Text) (offset : u64) : Text := libName ++ " + ".toList ++ hexText offset

/-- What the inner loop of `GetOffset` does with a region: a text that is not in the list yet is
appended. -/
def addOffset (addr : u64) (offList : List Text) (info : MapsLibInfo) : List Text :=
  if info.contains addr then
    let offInfo := offsetText info.libName (info.off + (addr - info.baseAddr))
    if offList.contains offInfo then offList else offList ++ [offInfo]
  else offList

/-- `off_list` after the loops of `GetOffset`. -/
def offsetsInOrder (order : List PathRegions) (addr : u64) : List Text :=
  order.foldl (fun offList entry => entry.2.foldl (addOffset addr) offList) []

/-- The end of `GetOffset`. -/
def joinOffsets (offList : List Text) (addr : u64) : Text :=
  if offList.length = 0 then "NOTFOUND + ".toList ++ hexText addr
  else List.intercalate [','] offList

def getOffset (proc : u32 → Option Text) (range : MapRange) (this : MapsHelper) (pid : u32)
    (addr : u64) : Text × MapsHelper :=
  match this.pidMaps pid with
  | some maps => (joinOffsets (offsetsInOrder (range.order maps) addr) addr, this)
  | none =>
      match this.parseMaps proc pid false with
      | .error _ => ("UNNKOWN + ".toList ++ hexText addr, this)
      | .ok read =>
          match read.pidMaps pid with
          | some maps => (joinOffsets (offsetsInOrder (range.order maps) addr) addr, read)
          | none => ("UNNKOWN + ".toList ++ hexText addr, read)

/-- A text around a separator that does not occur behind it. -/
theorem append_cons_inj {sep : Char} {front front' back back' : Text} (hback : sep ∉ back)
    (hback' : sep ∉ back') (h : front ++ sep :: back = front' ++ sep :: back') :
    front = front' ∧ back = back' := by
  have hchars {s : Text} (hs : sep ∉ s) (c : Char) (hc : c ∈ s.reverse) : (c != sep) = true := by
    rw [bne_iff_ne]
    rintro rfl
    exact hs (List.mem_reverse.mp hc)
  have hstops (s : Text) (c : Char) (cs : Text) (heq : sep :: s = c :: cs) :
      (c != sep) = false := by
    simp [(List.cons.inj heq).1]
  have hspan := Text.span_append (hchars hback) (hstops front.reverse)
  have hspan' := Text.span_append (hchars hback') (hstops front'.reverse)
  have hreverse :
      back.reverse ++ sep :: front.reverse = back'.reverse ++ sep :: front'.reverse := by
    simpa using congrArg List.reverse h
  rw [hreverse] at hspan
  have hfront : sep :: front.reverse = sep :: front'.reverse := hspan.2.symm.trans hspan'.2
  have hbacks : back.reverse = back'.reverse := hspan.1.symm.trans hspan'.1
  exact ⟨List.reverse_injective (List.cons.inj hfront).2, List.reverse_injective hbacks⟩

/-- The text says the name and the offset. -/
theorem offsetText_inj {name name' : Text} {offset offset' : u64} :
    offsetText name offset = offsetText name' offset' ↔ name = name' ∧ offset = offset' := by
  constructor
  · intro h
    have hdigits (value : u64) : ' ' ∉ hexText value := by
      intro hmem
      rcases List.mem_append.mp hmem with hmark | hdigit
      · exact absurd hmark (by decide)
      · exact Numeral.not_mem_toDigits (by omega) (by omega) (by decide) hdigit
    have hsplit (name : Text) (offset : u64) :
        offsetText name offset = (name ++ [' ', '+']) ++ ' ' :: hexText offset := by
      simp [offsetText]
    rw [hsplit, hsplit] at h
    obtain ⟨hname, hoffset⟩ := append_cons_inj (hdigits _) (hdigits _) h
    refine ⟨List.append_cancel_right hname, BitVec.eq_of_toNat_eq ?_⟩
    exact Numeral.toDigits_inj (by omega) (by omega) (List.append_cancel_left hoffset)
  · rintro ⟨rfl, rfl⟩
    rfl

/-- The text of an address in a region. -/
def MapsLibInfo.offsetText (info : MapsLibInfo) (addr : u64) : Text :=
  Stackplz.offsetText info.libName (info.off + (addr - info.baseAddr))

theorem mem_addOffset {addr : u64} {text : Text} {offList : List Text} {info : MapsLibInfo} :
    text ∈ addOffset addr offList info ↔
      text ∈ offList ∨ info.contains addr = true ∧ text = info.offsetText addr := by
  unfold addOffset MapsLibInfo.offsetText
  split
  · rename_i hcontains
    dsimp only
    split
    · rename_i hmem
      refine ⟨Or.inl, ?_⟩
      rintro (h | ⟨-, rfl⟩)
      · exact h
      · simpa using hmem
    · simp [hcontains]
  · rename_i hcontains
    simp [hcontains]

theorem nodup_addOffset {addr : u64} {offList : List Text} (h : offList.Nodup)
    (info : MapsLibInfo) : (addOffset addr offList info).Nodup := by
  unfold addOffset
  split
  · dsimp only
    split
    · exact h
    · rename_i hmem
      rw [List.nodup_append_comm, List.singleton_append, List.nodup_cons]
      exact ⟨by simpa using hmem, h⟩
  · exact h

theorem mem_foldl_addOffset {addr : u64} {text : Text} {infos : List MapsLibInfo} :
    ∀ {offList : List Text}, text ∈ infos.foldl (addOffset addr) offList ↔
      text ∈ offList ∨ ∃ info ∈ infos, info.contains addr = true ∧ text = info.offsetText addr := by
  induction infos with
  | nil => simp
  | cons info infos ih =>
      intro offList
      rw [List.foldl_cons, ih, mem_addOffset]
      simp only [List.mem_cons, exists_eq_or_imp, or_assoc]

theorem nodup_foldl_addOffset {addr : u64} {infos : List MapsLibInfo} :
    ∀ {offList : List Text}, offList.Nodup → (infos.foldl (addOffset addr) offList).Nodup := by
  induction infos with
  | nil => exact id
  | cons info infos ih => exact fun h => ih (nodup_addOffset h info)

theorem offsetsInOrder_eq (order : List PathRegions) (addr : u64) :
    offsetsInOrder order addr = (order.flatMap Sigma.snd).foldl (addOffset addr) [] := by
  unfold offsetsInOrder
  rw [List.foldl_flatMap]

/-- The texts of the regions that an address is in. -/
theorem mem_offsetsInOrder {range : MapRange} {maps : ProcMaps} {addr : u64} {text : Text} :
    text ∈ offsetsInOrder (range.order maps) addr ↔
      ∃ info, maps.Has info ∧ info.contains addr = true ∧ text = info.offsetText addr := by
  rw [offsetsInOrder_eq, mem_foldl_addOffset]
  simp only [List.not_mem_nil, false_or, List.mem_flatMap]
  refine exists_congr fun info => ?_
  rw [ProcMaps.has_iff_exists_mem_order range]

/-- One text is found for an address when it is in some region and all its regions say this. -/
theorem offsetsInOrder_eq_singleton_iff {range : MapRange} {maps : ProcMaps} {addr : u64}
    {text : Text} : offsetsInOrder (range.order maps) addr = [text] ↔
      (∃ info, maps.Has info ∧ info.contains addr = true) ∧
      ∀ info, maps.Has info → info.contains addr = true → info.offsetText addr = text := by
  have hnodup : (offsetsInOrder (range.order maps) addr).Nodup := by
    rw [offsetsInOrder_eq]
    exact nodup_foldl_addOffset List.nodup_nil
  constructor
  · intro h
    constructor
    · obtain ⟨info, hhas, hcontains, -⟩ := mem_offsetsInOrder.mp (h ▸ List.mem_singleton_self text)
      exact ⟨info, hhas, hcontains⟩
    · intro info hhas hcontains
      have hmem : info.offsetText addr ∈ offsetsInOrder (range.order maps) addr :=
        mem_offsetsInOrder.mpr ⟨info, hhas, hcontains, rfl⟩
      rwa [h, List.mem_singleton] at hmem
  · rintro ⟨⟨info, hhas, hcontains⟩, hall⟩
    have hmem : text ∈ offsetsInOrder (range.order maps) addr :=
      mem_offsetsInOrder.mpr ⟨info, hhas, hcontains, (hall info hhas hcontains).symm⟩
    have hsame (other : Text) (h : other ∈ offsetsInOrder (range.order maps) addr) :
        other = text := by
      obtain ⟨info, hhas, hcontains, rfl⟩ := mem_offsetsInOrder.mp h
      exact hall info hhas hcontains
    generalize offsetsInOrder (range.order maps) addr = offList at hnodup hmem hsame
    cases offList with
    | nil => exact absurd hmem List.not_mem_nil
    | cons first rest =>
        have hrest : rest = [] := by
          refine List.eq_nil_iff_forall_not_mem.mpr fun other hother => ?_
          refine (List.nodup_cons.mp hnodup).1 ?_
          rw [hsame first (List.mem_cons_self ..), ← hsame other (List.mem_cons_of_mem _ hother)]
          exact hother
        rw [hrest, hsame first (List.mem_cons_self ..)]

end Stackplz
