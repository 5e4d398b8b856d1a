import Stackplz.Basic.Numbering
import Stackplz.User.ByteText

/-!
# Hex dumps

`dumpByteSlice` (`util/helper.go`) writes a buffer in lines of sixteen bytes: the offset of the
line, a cell for each byte and a column of characters, which an array outside the loop collects.
Every call starts a new array, and every line overwrites it. `dumpByteSlice_eq` gives the text
line by line; from it `hexDump_inj` shows that a dump in any colour says which bytes it is of.
-/

set_option autoImplicit false

namespace Stackplz

/-! ## The dump -/

def space : u8 := Unquote.ascii ' '

/-- A digit of `%02X`. -/
def upperDigit (d : Nat) : u8 := Unquote.ascii (Nat.digitChar d).toUpper

/-- The cell of a byte, in ` %02X`, and a blank one behind the end. -/
def dumpCell : Option u8 → List u8
  | some b => [space, upperDigit (b.toNat / 16), upperDigit (b.toNat % 16)]
  | none => [space, space, space]

/-- What the column of characters shows for a byte. -/
def dumpChar : Option u8 → u8
  | some b => if isPrint b then b else Unquote.ascii '.'
  | none => space

/-- The offset of a line, in `%04x `. -/
def dumpOffset (i : Nat) : List u8 :=
  let digits := (Nat.toDigits 16 i).map Unquote.ascii
  List.replicate (4 - digits.length) (Unquote.ascii '0') ++ digits ++ [space]

/-- `  |%s|` with a line break. -/
def dumpColumn (a : List u8) : List u8 :=
  [space, space, Unquote.ascii '|'] ++ a ++ [Unquote.ascii '|', Unquote.newline]

/-- The array of characters and the text so far. -/
structure HexDumpState where
  a : Vector u8 16
  bb : List u8

/-- One round of the loop of `dumpByteSlice`. -/
def dumpStep (b perfix : List u8) (s : HexDumpState) (i : Nat) : HexDumpState :=
  let bb := if i % 16 = 0 then s.bb ++ (perfix ++ dumpOffset i) else s.bb
  let bb := bb ++ dumpCell b[i]?
  let a := s.a.setIfInBounds (i % 16) (dumpChar b[i]?)
  ⟨a, if i % 16 = 15 then bb ++ dumpColumn a.toList else bb⟩

/-- The number of lines. -/
def dumpLines (b : List u8) : Nat := (b.length + 15) / 16

/-- `dumpByteSlice`. -/
def dumpByteSlice (b perfix : List u8) : List u8 :=
  ((List.range (16 * dumpLines b)).foldl (dumpStep b perfix) ⟨Vector.replicate 16 0, []⟩).bb

/-- `COLORRESET` and `COLORGREEN`. -/
def colorReset : List u8 := 0x1b :: "[0m".toList.map Unquote.ascii
def colorGreen : List u8 := 0x1b :: "[32m".toList.map Unquote.ascii

/-- `HexDump`, `HexDumpPure` and `HexDumpGreen`. -/
def hexDump (buffer color : List u8) : List u8 := dumpByteSlice buffer color ++ colorReset
def hexDumpPure (buffer : List u8) : List u8 := dumpByteSlice buffer []
def hexDumpGreen (buffer : List u8) : List u8 := hexDump buffer colorGreen

/-! ## Line by line -/

section Lines

variable (b perfix : List u8)

/-- The first cells of a line, with what stands before them. -/
def dumpFront (j k : Nat) : List u8 :=
  perfix ++ dumpOffset (16 * j) ++ (List.range' (16 * j) k).flatMap fun i => dumpCell b[i]?

/-- A line. -/
def dumpLine (j : Nat) : List u8 :=
  dumpFront b perfix j 16 ++ dumpColumn ((List.range' (16 * j) 16).map fun i => dumpChar b[i]?)

/-- A round inside a line. -/
theorem dumpStep_mid (s : HexDumpState) {i : Nat} (hfirst : i % 16 ≠ 0) (hlast : i % 16 ≠ 15) :
    dumpStep b perfix s i =
      ⟨s.a.setIfInBounds (i % 16) (dumpChar b[i]?), s.bb ++ dumpCell b[i]?⟩ := by
  unfold dumpStep
  dsimp only
  rw [if_neg hfirst, if_neg hlast]

/-- The last round of a line. -/
theorem dumpStep_last (s : HexDumpState) {i : Nat} (hlast : i % 16 = 15) :
    (dumpStep b perfix s i).bb = s.bb ++ dumpCell b[i]? ++
      dumpColumn (s.a.setIfInBounds 15 (dumpChar b[i]?)).toList := by
  have hfirst : i % 16 ≠ 0 := by omega
  unfold dumpStep
  dsimp only
  rw [if_neg hfirst, if_pos hlast, hlast]

/-- The rounds of a line before the last one: they write the front, and set the characters. -/
theorem foldl_dumpStep (s : HexDumpState) (j : Nat) {k : Nat} (hk : k < 15) :
    ((List.range' (16 * j) (k + 1)).foldl (dumpStep b perfix) s).bb =
        s.bb ++ dumpFront b perfix j (k + 1) ∧
      ∀ t (ht : t < 16), t ≤ k →
        ((List.range' (16 * j) (k + 1)).foldl (dumpStep b perfix) s).a[t] =
          dumpChar b[16 * j + t]? := by
  induction k with
  | zero =>
      have hmod : 16 * j % 16 = 0 := Nat.mul_mod_right 16 j
      refine ⟨?_, fun t ht hle => ?_⟩
      · simp [dumpStep, dumpFront, hmod]
      · obtain rfl : t = 0 := by omega
        simp [dumpStep, hmod]
  | succ k ih =>
      obtain ⟨htext, hchars⟩ := ih (by omega)
      have hmod : (16 * j + (k + 1)) % 16 = k + 1 := by omega
      have hlast : List.range' (16 * j) (k + 1 + 1) =
          List.range' (16 * j) (k + 1) ++ [16 * j + (k + 1)] := by
        rw [List.range'_concat, Nat.one_mul]
      rw [hlast, List.foldl_append, List.foldl_cons, List.foldl_nil,
        dumpStep_mid b perfix _ (by omega) (by omega), hmod]
      refine ⟨?_, fun t ht hle => ?_⟩
      · dsimp only
        rw [htext]
        unfold dumpFront
        rw [hlast, List.flatMap_append]
        simp
      · dsimp only
        rw [Vector.getElem_setIfInBounds]
        -- this round sets one character, and the earlier ones keep theirs
        by_cases heq : k + 1 = t
        · subst heq
          rw [if_pos rfl]
        · rw [if_neg heq]
          exact hchars t ht (by omega)

/-- **The rounds of a line write it,** whatever the array held before. -/
theorem foldl_dumpLine (s : HexDumpState) (j : Nat) :
    ((List.range' (16 * j) 16).foldl (dumpStep b perfix) s).bb = s.bb ++ dumpLine b perfix j := by
  obtain ⟨htext, hchars⟩ := foldl_dumpStep b perfix s j (show 14 < 15 by omega)
  have hmod : (16 * j + 15) % 16 = 15 := by omega
  have hlast : List.range' (16 * j) 16 = List.range' (16 * j) 15 ++ [16 * j + 15] := by
    rw [List.range'_concat, Nat.one_mul]
  have hcolumn : (((List.range' (16 * j) 15).foldl (dumpStep b perfix) s).a.setIfInBounds 15
      (dumpChar b[16 * j + 15]?)).toList =
        (List.range' (16 * j) 16).map fun i => dumpChar b[i]? := by
    apply List.ext_getElem
    · simp
    · intro t ht _
      have hlt : t < 16 := by simpa using ht
      rw [Vector.getElem_toList, Vector.getElem_setIfInBounds, List.getElem_map,
        List.getElem_range', Nat.one_mul]
      by_cases heq : 15 = t
      · subst heq
        rw [if_pos rfl]
      · rw [if_neg heq]
        exact hchars t hlt (by omega)
  rw [hlast, List.foldl_append, List.foldl_cons, List.foldl_nil, dumpStep_last b perfix _ hmod,
    htext, hcolumn]
  unfold dumpLine dumpFront
  rw [hlast, List.flatMap_append]
  simp

/-- **A dump is its lines.** -/
theorem dumpByteSlice_eq :
    dumpByteSlice b perfix = (List.range' 0 (dumpLines b)).flatMap (dumpLine b perfix) := by
  have hlines (m : Nat) : ((List.range (16 * m)).foldl (dumpStep b perfix)
      ⟨Vector.replicate 16 0, []⟩).bb = (List.range' 0 m).flatMap (dumpLine b perfix) := by
    induction m with
    | zero => rfl
    | succ m ih =>
        have hsplit :
            List.range (16 * (m + 1)) = List.range (16 * m) ++ List.range' (16 * m) 16 := by
          rw [List.range_eq_range', List.range_eq_range', Nat.mul_succ, ← List.range'_append]
          simp
        rw [hsplit, List.foldl_append, foldl_dumpLine, ih, List.range'_concat, List.flatMap_append]
        simp
  exact hlines (dumpLines b)

end Lines

/-! ## What a dump says -/

/-- A cell says which byte it shows, and whether it shows one. -/
theorem dumpCell_inj {x y : Option u8} (h : dumpCell x = dumpCell y) : x = y := by
  have hdigit : ∀ d < 16, ∀ e < 16, upperDigit d = upperDigit e → d = e := by decide
  have hspace : ∀ d < 16, upperDigit d ≠ space := by decide
  cases x with
  | none =>
      cases y with
      | none => rfl
      | some c =>
          have hlt := c.isLt
          have hhigh := (List.cons.inj (List.cons.inj h).2).1
          exact absurd hhigh.symm (hspace _ (by omega))
  | some c =>
      have hlt := c.isLt
      cases y with
      | none =>
          have hhigh := (List.cons.inj (List.cons.inj h).2).1
          exact absurd hhigh (hspace _ (by omega))
      | some d =>
          have hlt' := d.isLt
          obtain ⟨hhigh, hlow⟩ := List.cons.inj (List.cons.inj h).2
          have hdiv := hdigit _ (by omega) _ (by omega) hhigh
          have hmod := hdigit _ (by omega) _ (by omega) (List.cons.inj hlow).1
          congr 1
          apply BitVec.eq_of_toNat_eq
          omega

@[simp] theorem length_dumpCell (x : Option u8) : (dumpCell x).length = 3 := by cases x <;> rfl

theorem length_dumpLine (b perfix : List u8) (j : Nat) :
    (dumpLine b perfix j).length = perfix.length + (dumpOffset (16 * j)).length + 69 := by
  have hcells : ((List.range' (16 * j) 16).flatMap fun i => dumpCell b[i]?).length = 48 := by
    rw [List.length_flatMap]
    simp
  unfold dumpLine dumpFront dumpColumn
  rw [List.length_append, List.length_append, List.length_append, hcells]
  simp

/-- **A dump says which bytes it is of.** -/
theorem dumpByteSlice_inj {b b' perfix : List u8}
    (h : dumpByteSlice b perfix = dumpByteSlice b' perfix) : b = b' := by
  rw [dumpByteSlice_eq, dumpByteSlice_eq] at h
  obtain ⟨hlines, hall⟩ := List.flatMap_range'_inj
    (fun j => (length_dumpLine b perfix j).trans (length_dumpLine b' perfix j).symm)
    (fun j => by rw [length_dumpLine]; omega) h
  apply List.ext_getElem?
  intro i
  by_cases hi : i < 16 * dumpLines b
  · have hline := hall (i / 16) (Nat.zero_le _) (by omega)
    have hcells : (List.range' (16 * (i / 16)) 16).flatMap (fun i => dumpCell b[i]?) =
        (List.range' (16 * (i / 16)) 16).flatMap (fun i => dumpCell b'[i]?) := by
      unfold dumpLine dumpFront at hline
      rw [List.append_assoc, List.append_assoc, List.append_assoc, List.append_assoc] at hline
      have hrest := (List.append_inj (List.append_inj hline rfl).2 rfl).2
      exact (List.append_inj hrest (by simp [List.length_flatMap])).1
    have hcell := (List.flatMap_range'_inj (fun i => by simp) (fun i => by simp) hcells).2 i
      (by omega) (by omega)
    exact dumpCell_inj hcell
  · have hlen : b.length ≤ i := by
      unfold dumpLines at hi
      omega
    have hlen' : b'.length ≤ i := by
      unfold dumpLines at hi hlines
      omega
    rw [List.getElem?_eq_none hlen, List.getElem?_eq_none hlen']

/-- **A hex dump loses nothing,** in any colour and for buffers of any length. -/
theorem hexDump_inj (buffer buffer' color : List u8) :
    hexDump buffer color = hexDump buffer' color ↔ buffer = buffer' := by
  constructor
  · intro h
    exact dumpByteSlice_inj (List.append_cancel_right h)
  · exact fun h => congrArg (fun b => hexDump b color) h

end Stackplz
