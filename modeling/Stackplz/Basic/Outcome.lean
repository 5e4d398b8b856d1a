import Mathlib.Data.List.Forall2

/-!
# Computations that can fail

What a successful `Except` computation says about its parts.
-/

set_option autoImplicit false

namespace Outcome

variable {ε α β : Type}

/-- A sequence succeeds through an intermediate value. -/
theorem bind_eq_ok {x : Except ε α} {f : α → Except ε β} {b : β} :
    x >>= f = .ok b ↔ ∃ a, x = .ok a ∧ f a = .ok b := by
  cases x with
  | error e =>
      show Except.error e = Except.ok b ↔ _
      simp
  | ok a =>
      show f a = .ok b ↔ _
      simp

theorem map_eq_ok {x : Except ε α} {f : α → β} {b : β} :
    x.map f = .ok b ↔ ∃ a, x = .ok a ∧ f a = b := by
  cases x with
  | error e => simp [Except.map]
  | ok a => simp [Except.map]

/-- A list of computations succeeds when each of them does. -/
theorem mapM_eq_ok {f : α → Except ε β} {xs : List α} {ys : List β} :
    xs.mapM f = .ok ys ↔ List.Forall₂ (fun x y => f x = .ok y) xs ys := by
  induction xs generalizing ys with
  | nil =>
      rw [List.mapM_nil, List.forall₂_nil_left_iff]
      show Except.ok [] = Except.ok ys ↔ _
      rw [Except.ok.injEq, eq_comm]
  | cons x xs ih =>
      rw [List.mapM_cons, bind_eq_ok]
      constructor
      · rintro ⟨y, hy, h⟩
        obtain ⟨rest, hrest, hys⟩ := bind_eq_ok.mp h
        obtain rfl : y :: rest = ys := Except.ok.inj hys
        exact List.Forall₂.cons hy (ih.mp hrest)
      · intro h
        obtain ⟨y, rest, hy, hrest, rfl⟩ := List.forall₂_cons_left_iff.mp h
        exact ⟨y, hy, bind_eq_ok.mpr ⟨rest, ih.mpr hrest, rfl⟩⟩

/-- What each computation says about its result is said of the list of results. -/
theorem map_of_mapM {γ : Type} {f : α → Except ε β} {g : β → γ} {g' : α → γ}
    (hf : ∀ x y, f x = .ok y → g y = g' x) {xs : List α} {ys : List β}
    (h : xs.mapM f = .ok ys) : ys.map g = xs.map g' := by
  have hall := mapM_eq_ok.mp h
  clear h
  induction hall with
  | nil => rfl
  | cons hxy _ ih => rw [List.map_cons, List.map_cons, hf _ _ hxy, ih]

/-- Every result comes from one of the computations. -/
theorem exists_of_mem_mapM {f : α → Except ε β} {xs : List α} {ys : List β} {y : β}
    (h : xs.mapM f = .ok ys) (hy : y ∈ ys) : ∃ x ∈ xs, f x = .ok y := by
  have hall := mapM_eq_ok.mp h
  clear h
  induction hall with
  | nil => exact absurd hy (List.not_mem_nil)
  | @cons x y' _ _ hxy _ ih =>
      rcases List.mem_cons.mp hy with rfl | hmem
      · exact ⟨x, List.mem_cons_self .., hxy⟩
      · obtain ⟨x', hx', hf⟩ := ih hmem
        exact ⟨x', List.mem_cons_of_mem _ hx', hf⟩

/-- The result at a place comes from the computation at that place. -/
theorem getElem?_of_mapM {f : α → Except ε β} {xs : List α} {ys : List β} {i : Nat} {y : β}
    (h : xs.mapM f = .ok ys) (hy : ys[i]? = some y) : ∃ x, xs[i]? = some x ∧ f x = .ok y := by
  have hall := mapM_eq_ok.mp h
  clear h
  induction hall generalizing i with
  | nil => cases hy
  | @cons x y' _ _ hxy _ ih =>
      cases i with
      | zero =>
          obtain rfl : y' = y := Option.some.inj hy
          exact ⟨x, rfl, hxy⟩
      | succ i => exact ih hy

/-- What every step of a fold keeps, the fold keeps. -/
theorem foldlM_invariant {P : β → Prop} {f : β → α → Except ε β}
    (hstep : ∀ b a b', P b → f b a = .ok b' → P b') {as : List α} {b b' : β} (hb : P b)
    (h : as.foldlM f b = .ok b') : P b' := by
  induction as generalizing b with
  | nil => exact Except.ok.inj h ▸ hb
  | cons a as ih =>
      rw [List.foldlM_cons] at h
      obtain ⟨mid, hmid, hrest⟩ := bind_eq_ok.mp h
      exact ih (hstep b a mid hb hmid) hrest

end Outcome
