import Mathlib.Data.List.Basic

/-!
# Consecutive numbers

When a list that is put together from parts, each numbered in its own way, counts up by one.
`CountsFrom s l` says that `l` is `s, s + 1, …`; the lemmas split it over appended lists, over
parts that each start again at zero, over the positions kept by a filter and over a shifted
range. A list that is put together from parts of known lengths, one for each number of a range,
says what each part is (`flatMap_range'_inj`).
-/

set_option autoImplicit false

namespace List

/-- The list counts up by one from `s`. -/
def CountsFrom (s : Nat) (l : List Nat) : Prop := l = range' s l.length

theorem countsFrom_nil (s : Nat) : CountsFrom s [] := rfl

theorem countsFrom_cons {s x : Nat} {l : List Nat} :
    CountsFrom s (x :: l) ↔ x = s ∧ CountsFrom (s + 1) l := by
  unfold CountsFrom
  rw [length_cons, range'_succ, cons_eq_cons]

theorem countsFrom_append {s : Nat} {l l' : List Nat} :
    CountsFrom s (l ++ l') ↔ CountsFrom s l ∧ CountsFrom (s + l.length) l' := by
  induction l generalizing s with
  | nil => simp [countsFrom_nil]
  | cons x l ih =>
      have hlen : s + 1 + l.length = s + (x :: l).length := by
        rw [length_cons]
        omega
      rw [cons_append, countsFrom_cons, countsFrom_cons, ih, hlen, and_assoc]

/-- Counting from `s` is having each number in its place. -/
theorem countsFrom_iff_getElem {s : Nat} {l : List Nat} :
    CountsFrom s l ↔ ∀ i (hi : i < l.length), l[i] = s + i := by
  unfold CountsFrom
  constructor
  · intro h i hi
    have hget : l[i]? = (range' s l.length)[i]? := congrArg (fun l' => l'[i]?) h
    rw [getElem?_eq_getElem hi, getElem?_range' hi] at hget
    simpa using hget
  · intro h
    apply ext_getElem
    · rw [length_range']
    · intro i hi _
      rw [h i hi, getElem_range', Nat.one_mul]

/-- A shifted range counts from the shift. -/
theorem countsFrom_range'_iff {s t n : Nat} : CountsFrom s (range' t n) ↔ n = 0 ∨ t = s := by
  cases n with
  | zero => simp [countsFrom_nil]
  | succ n =>
      rw [range'_succ, countsFrom_cons]
      constructor
      · rintro ⟨ht, -⟩
        exact Or.inr ht
      · rintro (hn | rfl)
        · omega
        · refine ⟨rfl, ?_⟩
          unfold CountsFrom
          rw [length_range']

/-! ## Parts that start at zero -/

/-- Parts that each start at zero count on from a positive number only when all are empty. -/
theorem countsFrom_flatMap_range_succ (s : Nat) (ns : List Nat) :
    CountsFrom (s + 1) (ns.flatMap range) ↔ ∀ n ∈ ns, n = 0 := by
  induction ns with
  | nil => simp [countsFrom_nil]
  | cons n ns ih =>
      rw [flatMap_cons, range_eq_range', countsFrom_append, countsFrom_range'_iff, length_range']
      constructor
      · rintro ⟨hn, hns⟩
        obtain rfl : n = 0 := by omega
        simpa using ih.mp hns
      · intro h
        obtain rfl : n = 0 := h n (by simp)
        refine ⟨Or.inl rfl, ih.mpr fun m hm => h m (by simp [hm])⟩

/-- Parts that each start at zero count from zero when at most one has any element. -/
theorem countsFrom_flatMap_range (ns : List Nat) :
    CountsFrom 0 (ns.flatMap range) ↔ ns.countP (· ≠ 0) ≤ 1 := by
  induction ns with
  | nil => simp [countsFrom_nil]
  | cons n ns ih =>
      rw [flatMap_cons, range_eq_range', countsFrom_append, countsFrom_range'_iff, length_range']
      cases n with
      | zero => simpa using ih
      | succ n =>
          have hzero : 0 + (n + 1) = n + 1 := Nat.zero_add _
          rw [hzero, countsFrom_flatMap_range_succ, countP_cons_of_pos (by simp)]
          constructor
          · rintro ⟨-, hall⟩
            have hnone : ns.countP (· ≠ 0) = 0 := by
              rw [countP_eq_zero]
              intro m hm
              simp [hall m hm]
            omega
          · intro hle
            refine ⟨Or.inr rfl, fun m hm => ?_⟩
            have hnone : ns.countP (· ≠ 0) = 0 := by omega
            simpa using countP_eq_zero.mp hnone m hm

/-! ## Positions kept by a filter -/

section Kept

variable {α : Type} (p : α → Bool)

/-- The positions, counted from `k`, of the elements that satisfy `p`. -/
def keptFrom (k : Nat) (xs : List α) : List Nat :=
  ((xs.zipIdx k).filter fun x => p x.1).map fun x => x.2

theorem keptFrom_cons (k : Nat) (x : α) (xs : List α) :
    keptFrom p k (x :: xs) = (if p x then [k] else []) ++ keptFrom p (k + 1) xs := by
  unfold keptFrom
  by_cases hx : p x = true
  · simp [zipIdx_cons, hx]
  · simp [zipIdx_cons, hx]

theorem length_keptFrom (k : Nat) (xs : List α) : (keptFrom p k xs).length = xs.countP p := by
  induction xs generalizing k with
  | nil => rfl
  | cons x xs ih =>
      rw [keptFrom_cons, length_append, ih, countP_cons]
      split
      · rw [length_singleton]
        omega
      · rw [length_nil, Nat.zero_add, Nat.add_zero]

/-- The kept positions count from `s` exactly when the number of elements dropped before each
of them makes up for the difference. -/
theorem countsFrom_keptFrom (s k : Nat) (xs : List α) :
    CountsFrom s (keptFrom p k xs) ↔
      ∀ j (hj : j < xs.length), p xs[j] = true →
        k + (xs.take j).countP (fun x => !p x) = s := by
  induction xs generalizing s k with
  | nil => simp [keptFrom, countsFrom_nil]
  | cons x xs ih =>
      rw [keptFrom_cons]
      by_cases hx : p x = true
      · rw [if_pos hx, singleton_append, countsFrom_cons, ih]
        constructor
        · rintro ⟨rfl, h⟩ j hj hp
          cases j with
          | zero => rfl
          | succ j =>
              have htail := h j (by simpa using hj) (by simpa using hp)
              rw [take_succ_cons, countP_cons_of_neg (by simp [hx])]
              omega
        · intro h
          refine ⟨h 0 (by simp) hx, fun j hj hp => ?_⟩
          have htail := h (j + 1) (by simpa using hj) (by simpa using hp)
          rw [take_succ_cons, countP_cons_of_neg (by simp [hx])] at htail
          omega
      · rw [if_neg hx, nil_append, ih]
        constructor
        · intro h j hj hp
          cases j with
          | zero => exact absurd hp hx
          | succ j =>
              have htail := h j (by simpa using hj) (by simpa using hp)
              rw [take_succ_cons, countP_cons_of_pos (by simp [hx])]
              omega
        · intro h j hj hp
          have htail := h (j + 1) (by simpa using hj) (by simpa using hp)
          rw [take_succ_cons, countP_cons_of_pos (by simp [hx])] at htail
          omega

end Kept

/-! ## Pieces of known lengths -/

/-- Texts that are put together from pieces of the same lengths agree piece by piece. -/
theorem flatMap_range'_inj {α : Type} {f g : Nat → List α}
    (hlen : ∀ i, (f i).length = (g i).length) (hpos : ∀ i, 0 < (f i).length) {m : Nat} :
    ∀ {s n : Nat}, (range' s m).flatMap f = (range' s n).flatMap g →
      m = n ∧ ∀ i, s ≤ i → i < s + m → f i = g i := by
  induction m with
  | zero =>
      intro s n h
      cases n with
      | zero => exact ⟨rfl, fun i hs hi => absurd hi (by omega)⟩
      | succ n =>
          have hlength := congrArg length h
          rw [range'_succ, flatMap_cons, length_append] at hlength
          have hfirst := hpos s
          have hnone : ((range' s 0).flatMap f).length = 0 := rfl
          rw [hlen s] at hfirst
          omega
  | succ m ih =>
      intro s n h
      cases n with
      | zero =>
          have hlength := congrArg length h
          rw [range'_succ, flatMap_cons, length_append] at hlength
          have hfirst := hpos s
          have hnone : ((range' s 0).flatMap g).length = 0 := rfl
          omega
      | succ n =>
          rw [range'_succ, range'_succ, flatMap_cons, flatMap_cons] at h
          obtain ⟨hfirst, hrest⟩ := append_inj h (hlen s)
          obtain ⟨rfl, hall⟩ := ih hrest
          refine ⟨rfl, fun i hs hi => ?_⟩
          rcases Nat.eq_or_lt_of_le hs with rfl | hlt
          · exact hfirst
          · exact hall i (by omega) (by omega)

end List
