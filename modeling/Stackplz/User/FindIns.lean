import Stackplz.Basic.Bytes
import Stackplz.Basic.Numeral
import Stackplz.Basic.Occurrence
import Stackplz.Probe.Types

/-!
# Places of an instruction

`FindIns` (`util/helper.go`) lists the offsets of an instruction in the bytes of a symbol; it
prints those of `RET` for `--dumpret`. The loop goes on while the offset that `bytes.Index`
finds is above zero, and searches again from the place that was found, where it finds the
offset zero. So it never lists a second place, and none if there is one at the front.
-/

set_option autoImplicit false

namespace Stackplz

/-- `bytes.Index`: minus one when there is no place. -/
def bytesIndex (s sep : List u8) : Int :=
  match Occurrence.first sep s with
  | some k => k
  | none => -1

/-- `fmt.Sprintf("0x%x", offset)` of an `int64`. -/
def insOffset (offset : u64) : Text := "0x".toList ++ Numeral.formatInt offset.toInt 16

/-- A place behind the front is found when it is the first one. -/
theorem bytesIndex_pos {s sep : List u8} (h : bytesIndex s sep > 0) :
    ∃ k : Nat, 0 < k ∧ bytesIndex s sep = k ∧ k ∈ Occurrence.all sep s := by
  cases hfirst : Occurrence.first sep s with
  | none => simp [bytesIndex, hfirst] at h
  | some k =>
      have hindex : bytesIndex s sep = k := by simp [bytesIndex, hfirst]
      exact ⟨k, by omega, hindex, Occurrence.mem_of_first hfirst⟩

/-- The loop of `FindIns`. -/
def findInsLoop (symOffset : u64) (ins symData : List u8) : List Text :=
  let retOffset := bytesIndex symData ins
  if _h : retOffset > 0 then
    insOffset (symOffset + BitVec.ofInt 64 retOffset) ::
      findInsLoop symOffset ins (symData.drop retOffset.toNat)
  else []
termination_by symData.length
decreasing_by
  obtain ⟨k, _, hindex, hmem⟩ := bytesIndex_pos _h
  have hle : k ≤ symData.length := (Occurrence.mem_all.mp hmem).1
  show (symData.drop (bytesIndex symData ins).toNat).length < symData.length
  rw [hindex, List.length_drop]
  omega

/-- `FindIns`. -/
def findIns (symOffset : u64) (symData ins : List u8) : Text :=
  List.intercalate [','] (findInsLoop symOffset ins symData)

/-- The text with all places. -/
def insTexts (symOffset : u64) (symData ins : List u8) : Text :=
  List.intercalate [','] ((Occurrence.all ins symData).map fun k =>
    insOffset (symOffset + BitVec.ofNat 64 k))

/-- `C0035FD6` -/
def retIns : List u8 := [0xC0, 0x03, 0x5F, 0xD6]

/-- The loop ends behind the first place. -/
theorem findInsLoop_eq (symOffset : u64) (ins symData : List u8) :
    findInsLoop symOffset ins symData =
      if bytesIndex symData ins > 0 then
        [insOffset (symOffset + BitVec.ofInt 64 (bytesIndex symData ins))]
      else [] := by
  rw [findInsLoop]
  split
  · rename_i hpos
    obtain ⟨k, -, hindex, hmem⟩ := bytesIndex_pos hpos
    have hagain : bytesIndex (symData.drop (bytesIndex symData ins).toNat) ins = 0 := by
      rw [hindex]
      unfold bytesIndex
      rw [show (k : Int).toNat = k from rfl, Occurrence.first_drop hmem]
      rfl
    rw [findInsLoop, hagain]
    rfl
  · rfl

/-- What `FindIns` returns, by the places there are. -/
theorem findIns_eq (symOffset : u64) (symData ins : List u8) :
    findIns symOffset symData ins =
      match Occurrence.all ins symData with
      | [] | 0 :: _ => []
      | (k + 1) :: _ => insOffset (symOffset + BitVec.ofNat 64 (k + 1)) := by
  have hfirst := Occurrence.first_eq_head? ins symData
  unfold findIns
  rw [findInsLoop_eq]
  cases hall : Occurrence.all ins symData with
  | nil =>
      rw [hall] at hfirst
      simp [bytesIndex, hfirst]
  | cons k later =>
      rw [hall] at hfirst
      cases k with
      | zero => simp [bytesIndex, hfirst]
      | succ k =>
          have hindex : bytesIndex symData ins = ((k + 1 : Nat) : Int) := by
            simp [bytesIndex, hfirst]
          rw [hindex, if_pos (by omega), BitVec.ofInt_natCast]
          exact List.intercalate_singleton

/-- Only a single place makes the text of its own place. -/
theorem intercalate_eq_iff (item : Text) (items : List Text) :
    item = List.intercalate [','] (item :: items) ↔ items = [] := by
  cases items with
  | nil => simp [List.intercalate_singleton]
  | cons next rest =>
      rw [Text.intercalate_cons_cons]
      simp

/-- A place leaves a text. -/
theorem intercalate_ne_nil (offset : u64) (items : List Text) :
    List.intercalate [','] (insOffset offset :: items) ≠ [] := by
  have hmem : 'x' ∈ List.intercalate [','] (insOffset offset :: items) :=
    Text.mem_intercalate_of_mem ',' (List.mem_cons_self ..) (by simp [insOffset])
  exact List.ne_nil_of_mem hmem

/-- **Places of an instruction.** All of them are listed exactly when there is at most one, and
none at the front. -/
theorem findIns_all_iff (symOffset : u64) (symData ins : List u8) :
    findIns symOffset symData ins = insTexts symOffset symData ins ↔
      0 ∉ Occurrence.all ins symData ∧ (Occurrence.all ins symData).length ≤ 1 := by
  rw [findIns_eq]
  unfold insTexts
  cases Occurrence.all ins symData with
  | nil => simp
  | cons k later =>
      rw [List.map_cons]
      cases k with
      | zero => simp [(intercalate_ne_nil _ _).symm]
      | succ k =>
          dsimp only
          rw [intercalate_eq_iff, List.map_eq_nil_iff]
          constructor
          · rintro rfl
            simp
          · rintro ⟨-, hlen⟩
            simpa using hlen

/-- Of two returns behind another instruction the second is not listed, and no return at the
front. -/
theorem findIns_misses_returns :
    insTexts 0x1000 ([0, 0, 0, 0] ++ retIns ++ retIns) retIns = "0x1004,0x1008".toList ∧
      findIns 0x1000 ([0, 0, 0, 0] ++ retIns ++ retIns) retIns = "0x1004".toList ∧
      insTexts 0x1000 retIns retIns = "0x1000".toList ∧
      findIns 0x1000 retIns retIns = [] := by
  rw [findIns_eq, findIns_eq]
  decide +kernel

end Stackplz
