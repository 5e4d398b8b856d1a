import Mathlib.Data.List.Basic
import Mathlib.Logic.Basic

/-!
# Machines that take labelled steps

A machine is a partial step function: a label says which party does what, and `none` says
that this step cannot be taken now. A run is a list of labels. What holds along runs is
proved once here: an invariant that every step meeting a guard preserves holds in every
state such steps lead to.
-/

set_option autoImplicit false

/-- A labelled transition system with a deterministic partial step. -/
structure Machine (σ α : Type) where
  /-- One step; `none` when the label is not enabled in the state. -/
  step : σ → α → Option σ

namespace Machine

variable {σ α : Type}

/-- Take the steps of a list in order; `none` as soon as one is not enabled. -/
def run (M : Machine σ α) : σ → List α → Option σ
  | s, [] => some s
  | s, a :: as => (M.step s a).bind fun t => M.run t as

/-- Every step taken along the labels `as` meets the guard `G` in the state it starts in. -/
def Guarded (M : Machine σ α) (G : σ → α → Prop) : σ → List α → Prop
  | _, [] => True
  | s, a :: as => ∀ t, M.step s a = some t → G s a ∧ M.Guarded G t as

/-- `P` holds in every state visited along the labels `as`, the first one included. -/
def Throughout (M : Machine σ α) (P : σ → Prop) : σ → List α → Prop
  | s, [] => P s
  | s, a :: as => P s ∧ ∀ t, M.step s a = some t → M.Throughout P t as

/-- The guard `G` keeps `Inv`: a step that meets `G` leads from `Inv` to `Inv`. -/
def Keeps (M : Machine σ α) (G : σ → α → Prop) (Inv : σ → Prop) : Prop :=
  ∀ s a t, Inv s → G s a → M.step s a = some t → Inv t

theorem throughout_head {M : Machine σ α} {P : σ → Prop} {s : σ} {as : List α}
    (h : M.Throughout P s as) : P s := by
  cases as with
  | nil => exact h
  | cons a as => exact h.1

/-- Every run meets the guard that asks nothing. -/
theorem guarded_true (M : Machine σ α) (as : List α) :
    ∀ s, M.Guarded (fun _ _ => True) s as := by
  induction as with
  | nil => exact fun _ => trivial
  | cons a as ih => exact fun s t _ => ⟨trivial, ih t⟩

@[simp] theorem run_nil (M : Machine σ α) (s : σ) : M.run s [] = some s := rfl

theorem run_cons_eq_some {M : Machine σ α} {s u : σ} {a : α} {as : List α} :
    M.run s (a :: as) = some u ↔ ∃ t, M.step s a = some t ∧ M.run t as = some u := by
  simp [run, Option.bind_eq_some_iff]

/-- A run along two lists is a run along the one and then along the other. -/
theorem run_append_eq_some {M : Machine σ α} {as bs : List α} {s u : σ} :
    M.run s (as ++ bs) = some u ↔ ∃ t, M.run s as = some t ∧ M.run t bs = some u := by
  induction as generalizing s with
  | nil => simp
  | cons a as ih =>
      rw [List.cons_append, run_cons_eq_some]
      constructor
      · rintro ⟨mid, hstep, hrest⟩
        obtain ⟨t, has, hbs⟩ := ih.mp hrest
        exact ⟨t, run_cons_eq_some.mpr ⟨mid, hstep, has⟩, hbs⟩
      · rintro ⟨t, hrun, hbs⟩
        obtain ⟨mid, hstep, has⟩ := run_cons_eq_some.mp hrun
        exact ⟨mid, hstep, ih.mpr ⟨t, has, hbs⟩⟩

/-- Two guards that agree in every state are met by the same runs. -/
theorem guarded_congr {M : Machine σ α} {G G' : σ → α → Prop} (h : ∀ s a, G s a ↔ G' s a)
    (as : List α) : ∀ s, M.Guarded G s as ↔ M.Guarded G' s as := by
  induction as with
  | nil => exact fun _ => Iff.rfl
  | cons a as ih =>
      intro s
      exact forall_congr' fun t => imp_congr_right fun _ => and_congr (h s a) (ih t)

theorem guarded_cons_iff {M : Machine σ α} {G : σ → α → Prop} {s t : σ} {a : α} {as : List α}
    (h : M.step s a = some t) : M.Guarded G s (a :: as) ↔ G s a ∧ M.Guarded G t as := by
  constructor
  · exact fun hguard => hguard t h
  · rintro hguard u hu
    obtain rfl := Option.some.inj (h.symm.trans hu)
    exact hguard

/-- A guarded run meets the guard at each of its steps. -/
theorem guarded_at {M : Machine σ α} {G : σ → α → Prop} {as bs : List α} {a : α} {s t u : σ}
    (h : M.Guarded G s (as ++ a :: bs)) (hrun : M.run s as = some t)
    (hstep : M.step t a = some u) : G t a := by
  induction as generalizing s with
  | nil =>
      obtain rfl := Option.some.inj hrun
      exact (h u hstep).1
  | cons b as ih =>
      obtain ⟨mid, hmid, hrest⟩ := run_cons_eq_some.mp hrun
      exact ih (h mid hmid).2 hrest

/-- **The invariant rule.** An invariant kept by guarded steps holds at the end of every
run whose steps all meet the guard. -/
theorem run_invariant {M : Machine σ α} {G : σ → α → Prop} {Inv : σ → Prop}
    (hkeeps : M.Keeps G Inv) (as : List α) :
    ∀ s t, Inv s → M.Guarded G s as → M.run s as = some t → Inv t := by
  induction as with
  | nil =>
      intro s t hs _ hrun
      rw [run_nil, Option.some.injEq] at hrun
      exact hrun ▸ hs
  | cons a as ih =>
      intro s t hs hguard hrun
      obtain ⟨u, hstep, hrest⟩ := run_cons_eq_some.mp hrun
      obtain ⟨hga, hgas⟩ := hguard u hstep
      exact ih u t (hkeeps s a u hs hga hstep) hgas hrest

/-- **The simulation rule.** Where every step from a related state can be followed, every run
can. -/
theorem run_simulates {τ : Type} {M : Machine σ α} {N : Machine τ α} {R : σ → τ → Prop}
    (hstep : ∀ s t a s', R s t → M.step s a = some s' → ∃ t', N.step t a = some t' ∧ R s' t')
    (as : List α) :
    ∀ s t s', R s t → M.run s as = some s' → ∃ t', N.run t as = some t' ∧ R s' t' := by
  induction as with
  | nil =>
      intro s t s' hR hrun
      obtain rfl := Option.some.inj hrun
      exact ⟨t, rfl, hR⟩
  | cons a as ih =>
      intro s t s' hR hrun
      obtain ⟨mid, hmid, hrest⟩ := run_cons_eq_some.mp hrun
      obtain ⟨tmid, htmid, hRmid⟩ := hstep s t a mid hR hmid
      obtain ⟨t', ht', hR'⟩ := ih mid tmid s' hRmid hrest
      exact ⟨t', run_cons_eq_some.mpr ⟨tmid, htmid, ht'⟩, hR'⟩

/-- **The lockstep rule.** Two machines whose steps look alike from states that look alike have
runs that look alike, as long as each keeps its own invariant. -/
theorem run_map_eq {σ' τ : Type} {M : Machine σ α} {N : Machine σ' α} {Inv : σ → Prop}
    {Inv' : σ' → Prop} {view : σ → τ} {view' : σ' → τ}
    (hM : M.Keeps (fun _ _ => True) Inv) (hN : N.Keeps (fun _ _ => True) Inv')
    (hstep : ∀ s t a, Inv s → Inv' t → view s = view' t →
      (M.step s a).map view = (N.step t a).map view') (as : List α) :
    ∀ s t, Inv s → Inv' t → view s = view' t →
      (M.run s as).map view = (N.run t as).map view' := by
  induction as with
  | nil =>
      intro s t _ _ hview
      exact congrArg some hview
  | cons a as ih =>
      intro s t hs ht hview
      have hnext := hstep s t a hs ht hview
      cases hM' : M.step s a with
      | none =>
          rw [hM', Option.map_none, eq_comm, Option.map_eq_none_iff] at hnext
          rw [run, run, hM', hnext]
          rfl
      | some s' =>
          rw [hM', Option.map_some, eq_comm, Option.map_eq_some_iff] at hnext
          obtain ⟨t', hN', hview'⟩ := hnext
          rw [run, run, hM', hN']
          exact ih s' t' (hM s a s' hs trivial hM') (hN t a t' ht trivial hN') hview'.symm

/-! ## Runs that stay inside a set of states -/

/-- A run from `s` to `t` whose states all satisfy `P`, the first and the last one included. -/
def Within (M : Machine σ α) (P : σ → Prop) (s : σ) (as : List α) (t : σ) : Prop :=
  M.run s as = some t ∧ M.Throughout P s as

section Within

variable {M : Machine σ α} {P : σ → Prop}

theorem within_nil {s : σ} (h : P s) : M.Within P s [] s := ⟨rfl, h⟩

theorem within_cons {s t u : σ} {a : α} {as : List α} (hP : P s) (hstep : M.step s a = some t)
    (h : M.Within P t as u) : M.Within P s (a :: as) u := by
  refine ⟨run_cons_eq_some.mpr ⟨t, hstep, h.1⟩, hP, fun t' hstep' => ?_⟩
  obtain rfl : t = t' := Option.some.inj (hstep.symm.trans hstep')
  exact h.2

theorem Within.append {as bs : List α} {s t u : σ} (h : M.Within P s as t)
    (h' : M.Within P t bs u) : M.Within P s (as ++ bs) u := by
  induction as generalizing s with
  | nil =>
      obtain rfl := Option.some.inj h.1
      exact h'
  | cons a as ih =>
      obtain ⟨hP, hrest⟩ := h.2
      obtain ⟨mid, hstep, hrun⟩ := run_cons_eq_some.mp h.1
      exact within_cons hP hstep (ih ⟨hrun, hrest mid hstep⟩)

/-- Every state that a run visits on its way is inside, too. -/
theorem Within.of_prefix {as bs : List α} {s t u : σ} (h : M.Within P s bs u)
    (hstarts : as <+: bs) (hrun : M.run s as = some t) : P t := by
  induction as generalizing s bs with
  | nil =>
      obtain rfl := Option.some.inj hrun
      exact throughout_head h.2
  | cons a as ih =>
      obtain ⟨cs, rfl⟩ := hstarts
      rw [List.cons_append] at h
      obtain ⟨mid, hstep, hrest⟩ := run_cons_eq_some.mp hrun
      obtain ⟨mid', hstep', hrun'⟩ := run_cons_eq_some.mp h.1
      obtain rfl : mid = mid' := Option.some.inj (hstep.symm.trans hstep')
      exact ih ⟨hrun', h.2.2 mid hstep⟩ (List.prefix_append as cs) hrest

/-- The state alone says which step can be taken. -/
def Deterministic (M : Machine σ α) : Prop :=
  ∀ s a b t u, M.step s a = some t → M.step s b = some u → a = b

/-- Of two runs from one state of a deterministic machine one continues the other. -/
theorem Deterministic.prefix_or_prefix (hdet : M.Deterministic) {as bs : List α} {s t u : σ}
    (has : M.run s as = some t) (hbs : M.run s bs = some u) : as <+: bs ∨ bs <+: as := by
  induction as generalizing s bs with
  | nil => exact Or.inl (List.nil_prefix)
  | cons a as ih =>
      cases bs with
      | nil => exact Or.inr (List.nil_prefix)
      | cons b bs =>
          obtain ⟨mid, hstep, hrest⟩ := run_cons_eq_some.mp has
          obtain ⟨mid', hstep', hrest'⟩ := run_cons_eq_some.mp hbs
          obtain rfl := hdet s a b mid mid' hstep hstep'
          obtain rfl : mid = mid' := Option.some.inj (hstep.symm.trans hstep')
          simpa only [List.cons_prefix_cons, true_and] using ih hrest hrest'

/-- A run that stays inside `P` up to its last step, and leaves with that step. -/
def Exits (M : Machine σ α) (P : σ → Prop) (s : σ) (as : List α) (t : σ) : Prop :=
  ∃ front a mid, as = front ++ [a] ∧ M.Within P s front mid ∧ M.step mid a = some t

theorem exits_singleton {s t : σ} {a : α} (hP : P s) (hstep : M.step s a = some t) :
    M.Exits P s [a] t := ⟨[], a, s, rfl, within_nil hP, hstep⟩

theorem Within.exits {as bs : List α} {s t u : σ} (h : M.Within P s as t)
    (h' : M.Exits P t bs u) : M.Exits P s (as ++ bs) u := by
  obtain ⟨front, a, mid, rfl, hfront, hstep⟩ := h'
  exact ⟨as ++ front, a, mid, (List.append_assoc ..).symm, h.append hfront, hstep⟩

theorem Exits.run {as : List α} {s t : σ} (h : M.Exits P s as t) : M.run s as = some t := by
  obtain ⟨front, a, mid, rfl, hfront, hstep⟩ := h
  exact run_append_eq_some.mpr ⟨mid, hfront.1, run_cons_eq_some.mpr ⟨t, hstep, rfl⟩⟩

/-- A run that ends outside has left the way the machine leaves. -/
theorem Exits.prefix {as bs : List α} {s t u : σ} (h : M.Exits P s as t)
    (hdet : M.Deterministic) (hrun : M.run s bs = some u) (hout : ¬ P u) : as <+: bs := by
  rcases hdet.prefix_or_prefix h.run hrun with hle | hle
  · exact hle
  · obtain ⟨front, a, mid, rfl, hfront, -⟩ := h
    rcases List.prefix_concat_iff.mp hle with heq | hle
    · exact heq ▸ List.prefix_refl _
    · exact absurd (hfront.of_prefix hle hrun) hout

end Within

/-- **When the guard is exact.** Let the environment keep to `Env`. If, from a state where
`P` and the invariant hold, a step keeps the invariant, and leads to a state where `P` holds
exactly when it meets the guard, then a run stays inside `P` exactly when all its steps meet
the guard. -/
theorem throughout_iff_guarded {M : Machine σ α} (Env G : σ → α → Prop) (Inv P : σ → Prop)
    (hinv : ∀ s a t, Inv s → P s → M.step s a = some t → Inv t)
    (hexact : ∀ s a t, Inv s → P s → Env s a → M.step s a = some t → (P t ↔ G s a))
    (as : List α) :
    ∀ s, Inv s → P s → M.Guarded Env s as → (M.Throughout P s as ↔ M.Guarded G s as) := by
  induction as with
  | nil =>
      intro s _ hP _
      exact ⟨fun _ => trivial, fun _ => hP⟩
  | cons a as ih =>
      intro s hI hP henv
      constructor
      · rintro ⟨_, hrest⟩ t hstep
        obtain ⟨hea, heas⟩ := henv t hstep
        have hPt : P t := throughout_head (hrest t hstep)
        have hIt : Inv t := hinv s a t hI hP hstep
        exact ⟨(hexact s a t hI hP hea hstep).mp hPt, (ih t hIt hPt heas).mp (hrest t hstep)⟩
      · intro hguard
        refine ⟨hP, fun t hstep => ?_⟩
        obtain ⟨hea, heas⟩ := henv t hstep
        obtain ⟨hga, hgas⟩ := hguard t hstep
        have hPt : P t := (hexact s a t hI hP hea hstep).mpr hga
        exact (ih t (hinv s a t hI hP hstep) hPt heas).mpr hgas

end Machine
