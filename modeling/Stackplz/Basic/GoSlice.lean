import Mathlib.Data.List.Basic
import Mathlib.Logic.Function.Basic

/-!
# Slices

Slices of backing arrays, and `append`: it writes behind the end of the slice while the array
has room, and moves to a new array when it has none. Where each array belongs to one slot,
appending to the slice of a slot changes the contents of no other slot.
-/

set_option autoImplicit false

/-- A slice: the array, the length and the capacity. -/
structure GoSlice where
  array : Nat
  len : Nat
  cap : Nat
deriving DecidableEq

/-- The slice without an array. -/
def GoSlice.nil : GoSlice := ⟨0, 0, 0⟩

/-- The arrays that were made so far. -/
structure GoArrays (α : Type) where
  mem : Nat → List α
  next : Nat

namespace GoArrays

variable {α : Type}

/-- An array with new contents. -/
def write (a : GoArrays α) (array : Nat) (items : List α) : GoArrays α :=
  { a with mem := Function.update a.mem array items }

/-- A new array. -/
def make (a : GoArrays α) (items : List α) : GoArrays α :=
  ⟨Function.update a.mem a.next items, a.next + 1⟩

/-- The elements of a slice. -/
def read (a : GoArrays α) (s : GoSlice) : List α := (a.mem s.array).take s.len

/-- `append(s, x)`. How much a new array can hold is up to `grow`; what is free in it is filled
with `zero`. -/
def append (grow : Nat → Nat) (zero : α) (a : GoArrays α) (s : GoSlice) (x : α) :
    GoSlice × GoArrays α :=
  if s.len < s.cap then
    (⟨s.array, s.len + 1, s.cap⟩, a.write s.array ((a.mem s.array).set s.len x))
  else
    let cap := max (s.len + 1) (grow s.len)
    (⟨a.next, s.len + 1, cap⟩,
      a.make (a.read s ++ x :: List.replicate (cap - (s.len + 1)) zero))

/-- `append` for each element of a list. -/
def appendAll (grow : Nat → Nat) (zero : α) (a : GoArrays α) (s : GoSlice) (xs : List α) :
    GoSlice × GoArrays α :=
  xs.foldl (fun r x => append grow zero r.2 r.1 x) (s, a)

/-- The composite literal of one element. -/
def lit (a : GoArrays α) (x : α) : GoSlice × GoArrays α := (⟨a.next, 1, 1⟩, a.make [x])

/-! ## Arrays with one owner -/

section Owned

variable {ι : Type}

/-- The slices of the slots fit their arrays, and no two of them share one. -/
structure Owned (a : GoArrays α) (slot : ι → Option GoSlice) : Prop where
  len_le : ∀ i s, slot i = some s → s.len ≤ s.cap
  room : ∀ i s, slot i = some s → 0 < s.cap → s.array < a.next ∧ (a.mem s.array).length = s.cap
  apart : ∀ i j s t, slot i = some s → slot j = some t → 0 < s.cap → 0 < t.cap →
    s.array = t.array → i = j

theorem owned_none (a : GoArrays α) : a.Owned fun _ : ι => none :=
  ⟨fun _ _ h => (by cases h), fun _ _ h => (by cases h), fun _ _ _ _ h => (by cases h)⟩

/-- A slot for the slice without an array. -/
theorem Owned.add_nil [DecidableEq ι] {a : GoArrays α} {slot : ι → Option GoSlice}
    (h : a.Owned slot) (i : ι) :
    a.Owned (Function.update slot i (some .nil)) := by
  have hcases (j : ι) (s : GoSlice) (hj : Function.update slot i (some .nil) j = some s)
      (hcap : 0 < s.cap) : slot j = some s := by
    by_cases hji : j = i
    · rw [hji, Function.update_self] at hj
      obtain rfl := Option.some.inj hj
      exact absurd hcap (Nat.lt_irrefl 0)
    · rwa [Function.update_of_ne hji] at hj
  refine ⟨fun j s hj => ?_, fun j s hj hcap => h.room j s (hcases j s hj hcap) hcap,
    fun j k s t hj hk hs ht => h.apart j k s t (hcases j s hj hs) (hcases k t hk ht) hs ht⟩
  by_cases hji : j = i
  · rw [hji, Function.update_self] at hj
    obtain rfl := Option.some.inj hj
    exact Nat.le_refl 0
  · rw [Function.update_of_ne hji] at hj
    exact h.len_le j s hj

theorem length_read {a : GoArrays α} {slot : ι → Option GoSlice} (h : a.Owned slot) {i : ι}
    {s : GoSlice} (hi : slot i = some s) : (a.read s).length = s.len := by
  have hle := h.len_le i s hi
  unfold read
  rw [List.length_take]
  by_cases hcap : 0 < s.cap
  · have hroom := (h.room i s hi hcap).2
    omega
  · omega

/-- What `append` makes is the old elements and the new one. -/
theorem read_append {a : GoArrays α} {slot : ι → Option GoSlice} (h : a.Owned slot) {i : ι}
    {s : GoSlice} (hi : slot i = some s) (grow : Nat → Nat) (zero x : α) :
    (append grow zero a s x).2.read (append grow zero a s x).1 = a.read s ++ [x] := by
  have hlength := length_read h hi
  unfold append
  split
  · rename_i hlt
    have hroom := (h.room i s hi (by omega)).2
    simp only [read, write, Function.update_self]
    rw [List.take_succ_eq_append_getElem (by rw [List.length_set]; omega),
      List.getElem_set_self, List.take_set, List.set_eq_of_length_le]
    rw [List.length_take]
    omega
  · simp only [make]
    unfold read at hlength ⊢
    dsimp only
    rw [Function.update_self, List.take_append, hlength,
      List.take_of_length_le (by rw [hlength]; omega), Nat.add_sub_cancel_left]
    rfl

/-- The array of the result: the old one, or a new one. -/
theorem array_append (grow : Nat → Nat) (zero : α) (a : GoArrays α) (s : GoSlice) (x : α) :
    0 < s.cap ∧ (append grow zero a s x).1.array = s.array ∧
        (append grow zero a s x).2.next = a.next ∨
      (append grow zero a s x).1.array = a.next ∧
        (append grow zero a s x).2.next = a.next + 1 := by
  unfold append
  split
  · exact Or.inl ⟨by omega, rfl, rfl⟩
  · exact Or.inr ⟨rfl, rfl⟩

/-- No other array is written. -/
theorem mem_append_of_ne {grow : Nat → Nat} {zero : α} {a : GoArrays α} {s : GoSlice} {x : α}
    {array : Nat} (hs : 0 < s.cap → array ≠ s.array) (hnext : array ≠ a.next) :
    (append grow zero a s x).2.mem array = a.mem array := by
  unfold append
  split
  · rename_i hlt
    exact Function.update_of_ne (hs (by omega)) _ _
  · exact Function.update_of_ne hnext _ _

/-- The contents of the other slots stay. -/
theorem read_append_of_ne {a : GoArrays α} {slot : ι → Option GoSlice} (h : a.Owned slot)
    {i j : ι} {s t : GoSlice} (hi : slot i = some s) (hj : slot j = some t) (hne : j ≠ i)
    (grow : Nat → Nat) (zero x : α) : (append grow zero a s x).2.read t = a.read t := by
  by_cases hcap : 0 < t.cap
  · have hnext : t.array ≠ a.next := Nat.ne_of_lt (h.room j t hj hcap).1
    have hapart (hs : 0 < s.cap) : t.array ≠ s.array := fun heq =>
      hne (h.apart j i t s hj hi hcap hs heq)
    unfold read
    rw [mem_append_of_ne hapart hnext]
  · have hlen : t.len = 0 := by
      have hle := h.len_le j t hj
      omega
    simp [read, hlen]

/-- The slot of the slice owns what `append` makes of it. -/
theorem Owned.append [DecidableEq ι] {a : GoArrays α} {slot : ι → Option GoSlice}
    (h : a.Owned slot) {i : ι} {s : GoSlice} (hi : slot i = some s) (grow : Nat → Nat)
    (zero x : α) : (append grow zero a s x).2.Owned
      (Function.update slot i (some (append grow zero a s x).1)) := by
  have hnew : (GoArrays.append grow zero a s x).1.len ≤ (GoArrays.append grow zero a s x).1.cap ∧
      (GoArrays.append grow zero a s x).1.array < (GoArrays.append grow zero a s x).2.next ∧
      ((GoArrays.append grow zero a s x).2.mem
        (GoArrays.append grow zero a s x).1.array).length =
        (GoArrays.append grow zero a s x).1.cap := by
    have hlength := length_read h hi
    unfold GoArrays.append
    split
    · rename_i hlt
      obtain ⟨hroom, hcap⟩ := h.room i s hi (by omega)
      simp only [write, Function.update_self, List.length_set]
      omega
    · simp only [make, Function.update_self, List.length_append, List.length_cons,
        List.length_replicate]
      omega
  have hold (j : ι) (t : GoSlice) (hne : j ≠ i) (hj : slot j = some t) (hcap : 0 < t.cap) :
      t.array ≠ (GoArrays.append grow zero a s x).1.array := by
    rcases array_append grow zero a s x with ⟨hs, heq, -⟩ | ⟨heq, -⟩
    · rw [heq]
      exact fun harray => hne (h.apart j i t s hj hi hcap hs harray)
    · rw [heq]
      exact Nat.ne_of_lt (h.room j t hj hcap).1
  refine ⟨fun j t hj => ?_, fun j t hj hcap => ?_, fun j k t u hj hk ht hu harray => ?_⟩
  · by_cases hne : j = i
    · rw [hne, Function.update_self] at hj
      rw [← Option.some.inj hj]
      exact hnew.1
    · rw [Function.update_of_ne hne] at hj
      exact h.len_le j t hj
  · by_cases hne : j = i
    · rw [hne, Function.update_self] at hj
      rw [← Option.some.inj hj]
      exact hnew.2
    · rw [Function.update_of_ne hne] at hj
      obtain ⟨hlt, hlength⟩ := h.room j t hj hcap
      have hmem : (GoArrays.append grow zero a s x).2.mem t.array = a.mem t.array :=
        mem_append_of_ne (fun hs heq => hne (h.apart j i t s hj hi hcap hs heq)) (Nat.ne_of_lt hlt)
      refine ⟨?_, by rw [hmem, hlength]⟩
      rcases array_append grow zero a s x with ⟨-, -, heq⟩ | ⟨-, heq⟩
      · rwa [heq]
      · omega
  · by_cases hji : j = i
    · by_cases hki : k = i
      · rw [hji, hki]
      · rw [hji, Function.update_self] at hj
        rw [Function.update_of_ne hki] at hk
        rw [← Option.some.inj hj] at harray
        exact absurd harray.symm (hold k u hki hk hu)
    · rw [Function.update_of_ne hji] at hj
      by_cases hki : k = i
      · rw [hki, Function.update_self] at hk
        rw [← Option.some.inj hk] at harray
        exact absurd harray (hold j t hji hj ht)
      · rw [Function.update_of_ne hki] at hk
        exact h.apart j k t u hj hk ht hu harray

/-- **Appending to the slice of one slot.** The slot owns the result, which holds the old
elements and the new ones, and the contents of the other slots stay. -/
theorem appendAll_spec [DecidableEq ι] (grow : Nat → Nat) (zero : α) {i : ι} (xs : List α) :
    ∀ {a : GoArrays α} {slot : ι → Option GoSlice} {s : GoSlice}, a.Owned slot →
      slot i = some s →
      (appendAll grow zero a s xs).2.Owned
          (Function.update slot i (some (appendAll grow zero a s xs).1)) ∧
        (appendAll grow zero a s xs).2.read (appendAll grow zero a s xs).1 = a.read s ++ xs ∧
        ∀ j t, j ≠ i → slot j = some t → (appendAll grow zero a s xs).2.read t = a.read t := by
  induction xs with
  | nil =>
      intro a slot s h hi
      refine ⟨?_, (List.append_nil _).symm, fun _ _ _ _ => rfl⟩
      show a.Owned (Function.update slot i (some s))
      rwa [← hi, Function.update_eq_self]
  | cons x xs ih =>
      intro a slot s h hi
      obtain ⟨howned, hread, hrest⟩ := ih (h.append hi grow zero x) (Function.update_self ..)
      rw [Function.update_idem] at howned
      refine ⟨howned, ?_, fun j t hne hj => ?_⟩
      · rw [appendAll, List.foldl_cons]
        refine hread.trans ?_
        rw [read_append h hi, List.append_assoc]
        rfl
      · refine (hrest j t hne (by rwa [Function.update_of_ne hne])).trans ?_
        exact read_append_of_ne h hi hj hne grow zero x

end Owned

end GoArrays
