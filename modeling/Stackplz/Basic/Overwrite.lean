import Mathlib.Data.List.Basic

/-!
# Overwriting a part of a list

A list of fixed length as a piece of memory: a write puts new items in the place of old ones.
-/

set_option autoImplicit false

namespace Overwrite

variable {α : Type} {l items : List α} {off : Nat}

/-- The list with the items from position `off` on. -/
def write (l : List α) (off : Nat) (items : List α) : List α :=
  l.take off ++ items ++ l.drop (off + items.length)

theorem length_write (h : off + items.length ≤ l.length) :
    (write l off items).length = l.length := by
  simp only [write, List.length_append, List.length_take, List.length_drop]
  omega

/-- What lies in front of a write stays. -/
theorem take_write {n : Nat} (hn : n ≤ off) (h : off ≤ l.length) :
    (write l off items).take n = l.take n := by
  have hlen : (l.take off).length = off := by
    rw [List.length_take]
    omega
  unfold write
  rw [List.append_assoc, List.take_append_of_le_length (by omega), List.take_take]
  congr 1
  omega

/-- Up to the end of a write there are the old items and the new ones. -/
theorem take_write_end (h : off ≤ l.length) :
    (write l off items).take (off + items.length) = l.take off ++ items := by
  have hlen : (l.take off ++ items).length = off + items.length := by
    rw [List.length_append, List.length_take]
    omega
  unfold write
  rw [← hlen, List.take_left]

theorem getElem?_write (h : off + items.length ≤ l.length) (i : Nat) :
    (write l off items)[i]? =
      if i < off then l[i]? else if i < off + items.length then items[i - off]? else l[i]? := by
  have hfront : (l.take off).length = off := by
    rw [List.length_take]
    omega
  unfold write
  rw [List.append_assoc, List.getElem?_append, hfront, List.getElem?_append, List.getElem?_take,
    List.getElem?_drop]
  split
  · rfl
  · by_cases hitems : i < off + items.length
    · rw [if_pos (by omega), if_pos hitems]
    · rw [if_neg (by omega), if_neg hitems]
      congr 1
      omega

/-- Two writes to places apart can be done in either order. -/
theorem write_comm {off' : Nat} {items' : List α} (hapart : off' + items'.length ≤ off)
    (h : off + items.length ≤ l.length) :
    write (write l off items) off' items' = write (write l off' items') off items := by
  have hlen : off' + items'.length ≤ l.length := by omega
  apply List.ext_getElem?
  intro i
  rw [getElem?_write (by rw [length_write h]; exact hlen), getElem?_write h,
    getElem?_write (by rw [length_write hlen]; exact h), getElem?_write hlen]
  split_ifs <;> first | rfl | omega

end Overwrite
