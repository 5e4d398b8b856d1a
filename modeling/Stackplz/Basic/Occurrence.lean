import Mathlib.Data.List.Basic

/-!
# Occurrences

The places of a list at which another list occurs.
-/

set_option autoImplicit false

namespace Occurrence

variable {α : Type} [DecidableEq α] {pat s : List α}

/-- The places at which `pat` occurs in `s`, in ascending order. -/
def all (pat s : List α) : List Nat :=
  (List.range (s.length + 1)).filter fun k => pat.isPrefixOf (s.drop k)

/-- The first of these places. -/
def first (pat : List α) : List α → Option Nat
  | [] => if pat.isPrefixOf [] then some 0 else none
  | c :: s => if pat.isPrefixOf (c :: s) then some 0 else (first pat s).map (· + 1)

theorem mem_all {k : Nat} : k ∈ all pat s ↔ k ≤ s.length ∧ pat <+: s.drop k := by
  rw [all, List.mem_filter, List.mem_range, Nat.lt_succ_iff, List.isPrefixOf_iff_prefix]

/-- The occurrences of a list are one at its front, and those of its tail. -/
theorem all_cons (pat s : List α) (c : α) : all pat (c :: s) =
    (if pat.isPrefixOf (c :: s) then [0] else []) ++ (all pat s).map (· + 1) := by
  unfold all
  rw [List.length_cons, List.range_succ_eq_map, List.filter_cons, List.filter_map]
  split
  · rename_i hfront
    rw [if_pos (show pat.isPrefixOf (c :: s) = true from hfront)]
    rfl
  · rename_i hfront
    rw [if_neg (show ¬ pat.isPrefixOf (c :: s) = true from hfront)]
    rfl

theorem first_eq_head? (pat s : List α) : first pat s = (all pat s).head? := by
  induction s with
  | nil => cases pat <;> rfl
  | cons c s ih =>
      rw [first, all_cons, ih]
      split
      · rfl
      · rw [List.nil_append, List.head?_map]

theorem mem_of_first {k : Nat} (h : first pat s = some k) : k ∈ all pat s := by
  rw [first_eq_head?] at h
  exact List.mem_of_mem_head? h

/-- A place is an occurrence at the front of what lies behind it. -/
theorem first_drop {k : Nat} (h : k ∈ all pat s) : first pat (s.drop k) = some 0 := by
  have hprefix : pat.isPrefixOf (s.drop k) = true :=
    List.isPrefixOf_iff_prefix.mpr (mem_all.mp h).2
  cases hdrop : s.drop k with
  | nil =>
      rw [hdrop] at hprefix
      exact if_pos hprefix
  | cons c rest =>
      rw [hdrop] at hprefix
      exact if_pos hprefix

end Occurrence
