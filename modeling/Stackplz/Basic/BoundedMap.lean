import Mathlib.Data.Finset.Card
import Mathlib.Data.Finset.Dedup
import Mathlib.Data.List.AList

/-!
# Finite maps of bounded size

A hash map with room for `cap` entries. Storing under a key that is present always
succeeds; storing under a new key succeeds only while the map has room. The bound is a
field of the structure, so a map of more than `cap` entries cannot be built.
-/

set_option autoImplicit false

/-- A finite map with at most `cap` entries. -/
structure BoundedMap (κ ν : Type) (cap : Nat) where
  /-- The entries, at most one for each key. -/
  entries : AList (fun _ : κ => ν)
  /-- The map never holds more entries than it has room for. -/
  bound : entries.keys.length ≤ cap

namespace BoundedMap

variable {κ ν : Type} {cap : Nat}

/-- The keys present, as a predicate. -/
def HasKey (m : BoundedMap κ ν cap) (k : κ) : Prop := k ∈ m.entries

/-- The map without entries. -/
def empty : BoundedMap κ ν cap := ⟨∅, Nat.zero_le _⟩

instance : Inhabited (BoundedMap κ ν cap) := ⟨empty⟩

@[simp] theorem hasKey_empty (k : κ) : ¬ HasKey (empty : BoundedMap κ ν cap) k := by
  show ¬ k ∈ (∅ : AList (fun _ : κ => ν))
  exact AList.notMem_empty k

/-- Whether an entry for `k` can be stored: `k` is present already, or a slot is free. -/
def HasRoom (m : BoundedMap κ ν cap) (k : κ) : Prop :=
  k ∈ m.entries ∨ m.entries.keys.length < cap

theorem hasRoom_of_hasKey {m : BoundedMap κ ν cap} {k : κ} (h : m.HasKey k) : m.HasRoom k :=
  Or.inl h

variable [DecidableEq κ]

/-- The value stored under `k`, if any. -/
def lookup (m : BoundedMap κ ν cap) (k : κ) : Option ν := m.entries.lookup k

instance (m : BoundedMap κ ν cap) (k : κ) : Decidable (m.HasKey k) :=
  inferInstanceAs (Decidable (k ∈ m.entries))

instance (m : BoundedMap κ ν cap) (k : κ) : Decidable (m.HasRoom k) :=
  inferInstanceAs (Decidable (_ ∨ _))

private theorem insert_bound {m : BoundedMap κ ν cap} {k : κ} (v : ν) (h : m.HasRoom k) :
    (m.entries.insert k v).keys.length ≤ cap := by
  rw [AList.keys_insert, List.length_cons]
  by_cases hk : k ∈ m.entries
  · have hlen : (m.entries.keys.erase k).length = m.entries.keys.length - 1 :=
      List.length_erase_of_mem (AList.mem_keys.mp hk)
    have hpos : 0 < m.entries.keys.length := List.length_pos_of_mem (AList.mem_keys.mp hk)
    have := m.bound
    omega
  · rw [List.erase_of_not_mem (fun hmem => hk (AList.mem_keys.mpr hmem))]
    rcases h with hin | hlt
    · exact absurd hin hk
    · omega

/-- Store `v` under `k`; `none` when `k` is new and every slot is taken. -/
def update (m : BoundedMap κ ν cap) (k : κ) (v : ν) : Option (BoundedMap κ ν cap) :=
  if h : m.HasRoom k then some ⟨m.entries.insert k v, insert_bound v h⟩ else none

/-- Store `v` under `k`, by a caller that does not look at the status: a full map stays
as it is. -/
def put (m : BoundedMap κ ν cap) (k : κ) (v : ν) : BoundedMap κ ν cap :=
  (m.update k v).getD m

/-- Remove the entry of `k`, if there is one. -/
def erase (m : BoundedMap κ ν cap) (k : κ) : BoundedMap κ ν cap :=
  ⟨m.entries.erase k, by
    have hle : (m.entries.keys.erase k).length ≤ m.entries.keys.length :=
      (List.erase_sublist).length_le
    rw [AList.keys_erase]
    exact le_trans hle m.bound⟩

/-! ## Lookup -/

theorem hasKey_iff (m : BoundedMap κ ν cap) (k : κ) :
    m.HasKey k ↔ ∃ v, m.lookup k = some v := by
  rw [← Option.isSome_iff_exists]
  exact AList.lookup_isSome.symm

theorem lookup_eq_none (m : BoundedMap κ ν cap) (k : κ) :
    m.lookup k = none ↔ ¬ m.HasKey k :=
  AList.lookup_eq_none

theorem lookup_isSome (m : BoundedMap κ ν cap) (k : κ) :
    (m.lookup k).isSome = decide (m.HasKey k) := by
  rw [Bool.eq_iff_iff, decide_eq_true_iff]
  exact AList.lookup_isSome

@[simp] theorem lookup_empty (k : κ) : (empty : BoundedMap κ ν cap).lookup k = none :=
  (lookup_eq_none _ _).mpr (hasKey_empty k)

/-! ## Storing -/

theorem update_isSome (m : BoundedMap κ ν cap) (k : κ) (v : ν) :
    (m.update k v).isSome ↔ m.HasRoom k := by
  unfold update
  by_cases h : m.HasRoom k
  · simp [h]
  · simp [h]

theorem put_of_hasRoom {m : BoundedMap κ ν cap} {k : κ} (v : ν) (h : m.HasRoom k) :
    m.put k v = ⟨m.entries.insert k v, insert_bound v h⟩ := by
  simp [put, update, h]

theorem put_of_full {m : BoundedMap κ ν cap} {k : κ} (v : ν) (h : ¬ m.HasRoom k) :
    m.put k v = m := by
  simp [put, update, h]

theorem put_of_update {m m' : BoundedMap κ ν cap} {k : κ} {v : ν}
    (h : m.update k v = some m') : m.put k v = m' := by
  simp [put, h]

theorem hasRoom_of_update {m m' : BoundedMap κ ν cap} {k : κ} {v : ν}
    (h : m.update k v = some m') : m.HasRoom k := by
  rw [← update_isSome m k v, h]
  rfl

theorem lookup_put_self {m : BoundedMap κ ν cap} {k : κ} (v : ν) (h : m.HasRoom k) :
    (m.put k v).lookup k = some v := by
  rw [put_of_hasRoom v h]
  exact AList.lookup_insert m.entries

theorem lookup_put_ne (m : BoundedMap κ ν cap) {k k' : κ} (v : ν) (h : k' ≠ k) :
    (m.put k v).lookup k' = m.lookup k' := by
  by_cases hr : m.HasRoom k
  · rw [put_of_hasRoom v hr]
    exact AList.lookup_insert_ne h
  · rw [put_of_full v hr]

theorem hasKey_put {m : BoundedMap κ ν cap} {k : κ} (v : ν) (h : m.HasRoom k) (k' : κ) :
    (m.put k v).HasKey k' ↔ k' = k ∨ m.HasKey k' := by
  rw [put_of_hasRoom v h]
  exact AList.mem_insert m.entries

/-- Storing never removes a key, whether the map had room or not. -/
theorem hasKey_put_of_hasKey {m : BoundedMap κ ν cap} {k' : κ} (k : κ) (v : ν)
    (h : m.HasKey k') : (m.put k v).HasKey k' := by
  by_cases hr : m.HasRoom k
  · exact (hasKey_put v hr k').mpr (Or.inr h)
  · rw [put_of_full v hr]
    exact h

/-- A key present after storing is the key stored or was there before. -/
theorem hasKey_of_hasKey_put {m : BoundedMap κ ν cap} {k k' : κ} {v : ν}
    (h : (m.put k v).HasKey k') : k' = k ∨ m.HasKey k' := by
  by_cases hr : m.HasRoom k
  · exact (hasKey_put v hr k').mp h
  · rw [put_of_full v hr] at h
    exact Or.inr h

/-! ## Size -/

/-- The number of entries. -/
def size (m : BoundedMap κ ν cap) : Nat := m.entries.keys.length

omit [DecidableEq κ] in
theorem hasRoom_of_size_lt {m : BoundedMap κ ν cap} (h : m.size < cap) (k : κ) : m.HasRoom k :=
  Or.inr h

theorem size_put_le (m : BoundedMap κ ν cap) (k : κ) (v : ν) : (m.put k v).size ≤ m.size + 1 := by
  by_cases hr : m.HasRoom k
  · rw [put_of_hasRoom v hr]
    show (m.entries.insert k v).keys.length ≤ m.entries.keys.length + 1
    rw [AList.keys_insert, List.length_cons]
    have hle : (m.entries.keys.erase k).length ≤ m.entries.keys.length :=
      List.erase_sublist.length_le
    omega
  · rw [put_of_full v hr]
    omega

/-- A new key takes one more slot. -/
theorem size_put_of_new {m : BoundedMap κ ν cap} {k : κ} (v : ν) (hroom : m.HasRoom k)
    (hnew : ¬ m.HasKey k) : (m.put k v).size = m.size + 1 := by
  rw [put_of_hasRoom v hroom]
  show (m.entries.insert k v).keys.length = m.entries.keys.length + 1
  rw [AList.keys_insert, List.length_cons,
    List.erase_of_not_mem fun hmem => hnew (AList.mem_keys.mpr hmem)]

/-- Entries under different keys are all found after they are stored in turn. -/
theorem lookup_foldl_put {α : Type} {key : α → κ} {value : α → ν} {xs : List α}
    (hnodup : (xs.map key).Nodup) {m : BoundedMap κ ν cap} (hsize : m.size + xs.length ≤ cap) :
    (∀ x ∈ xs, (xs.foldl (fun m x => m.put (key x) (value x)) m).lookup (key x) =
      some (value x)) ∧
      ∀ k ∉ xs.map key, (xs.foldl (fun m x => m.put (key x) (value x)) m).lookup k =
        m.lookup k := by
  induction xs generalizing m with
  | nil => exact ⟨List.forall_mem_nil _, fun _ _ => rfl⟩
  | cons x xs ih =>
      rw [List.map_cons, List.nodup_cons] at hnodup
      rw [List.length_cons] at hsize
      have hput := size_put_le m (key x) (value x)
      obtain ⟨hmem, hother⟩ := ih hnodup.2 (m := m.put (key x) (value x)) (by omega)
      refine ⟨List.forall_mem_cons.mpr ⟨?_, hmem⟩, fun k hk => ?_⟩
      · have hroom : m.HasRoom (key x) := hasRoom_of_size_lt (by omega) _
        exact (hother (key x) hnodup.1).trans (lookup_put_self (value x) hroom)
      · rw [List.map_cons, List.mem_cons, not_or] at hk
        exact (hother k hk.2).trans (lookup_put_ne m (value x) hk.1)

/-- One update for each element of a list, in order; `none` when one of them finds no room. -/
def updateAll {α : Type} (key : α → κ) (value : α → ν) (m : BoundedMap κ ν cap) (xs : List α) :
    Option (BoundedMap κ ν cap) :=
  xs.foldlM (fun m x => m.update (key x) (value x)) m

section UpdateAll

variable {α : Type} {key : α → κ} {value : α → ν} {m m' : BoundedMap κ ν cap}

/-- The last update of a key is the one that is found. -/
theorem lookup_updateAll {xs : List α} (h : m.updateAll key value xs = some m') (k : κ) :
    m'.lookup k =
      match xs.reverse.find? fun x => key x = k with
      | some x => some (value x)
      | none => m.lookup k := by
  induction xs generalizing m with
  | nil =>
      obtain rfl := Option.some.inj h
      rfl
  | cons x xs ih =>
      obtain ⟨mid, hmid, hrest⟩ := Option.bind_eq_some_iff.mp h
      have hput := put_of_update hmid
      have hroom := hasRoom_of_update hmid
      rw [ih hrest, List.reverse_cons, List.find?_append]
      cases xs.reverse.find? fun y => key y = k with
      | some y => rfl
      | none =>
          rw [Option.none_or, ← hput]
          by_cases hx : key x = k
          · rw [List.find?_cons_of_pos (by simp [hx]), ← hx]
            exact lookup_put_self (value x) hroom
          · rw [List.find?_cons_of_neg (by simp [hx])]
            exact lookup_put_ne m (value x) (Ne.symm hx)

/-- A key that was updated leads to a value of one of its elements. -/
theorem lookup_updateAll_of_mem {xs : List α} (h : m.updateAll key value xs = some m') {x : α}
    (hx : x ∈ xs) : ∃ y ∈ xs, key y = key x ∧ m'.lookup (key x) = some (value y) := by
  have hlookup := lookup_updateAll h (key x)
  cases hfind : xs.reverse.find? fun y => key y = key x with
  | none =>
      rw [List.find?_eq_none] at hfind
      exact absurd (by simp) (hfind x (List.mem_reverse.mpr hx))
  | some y =>
      rw [hfind] at hlookup
      refine ⟨y, List.mem_reverse.mp (List.mem_of_find?_eq_some hfind), ?_, hlookup⟩
      simpa using List.find?_some hfind

/-- Elements under different keys are all found. -/
theorem lookup_updateAll_nodup {xs : List α} (hnodup : (xs.map key).Nodup)
    (h : m.updateAll key value xs = some m') {x : α} (hx : x ∈ xs) :
    m'.lookup (key x) = some (value x) := by
  obtain ⟨y, hy, hkey, hlookup⟩ := lookup_updateAll_of_mem h hx
  rw [hlookup, List.inj_on_of_nodup_map hnodup hy hx hkey]

/-- Keys that were not updated are as before. -/
theorem lookup_updateAll_of_not_mem {xs : List α} (h : m.updateAll key value xs = some m') {k : κ}
    (hk : k ∉ xs.map key) : m'.lookup k = m.lookup k := by
  have hfind : (xs.reverse.find? fun x => key x = k) = none := by
    rw [List.find?_eq_none]
    intro x hx heq
    exact hk (List.mem_map.mpr ⟨x, List.mem_reverse.mp hx, of_decide_eq_true heq⟩)
  rw [lookup_updateAll h, hfind]

/-- The updates of two lists are those of the first one and then those of the second. -/
theorem updateAll_append_eq_some {xs ys : List α} :
    m.updateAll key value (xs ++ ys) = some m' ↔
      ∃ mid, m.updateAll key value xs = some mid ∧ mid.updateAll key value ys = some m' := by
  unfold updateAll
  rw [List.foldlM_append]
  exact Option.bind_eq_some_iff

omit [DecidableEq κ] in
theorem size_le (m : BoundedMap κ ν cap) : m.size ≤ cap := m.bound

theorem size_eq_card (m : BoundedMap κ ν cap) : m.size = m.entries.keys.toFinset.card :=
  (List.toFinset_card_of_nodup m.entries.nodupKeys).symm

theorem keys_update {m mid : BoundedMap κ ν cap} {k : κ} {v : ν} (h : m.update k v = some mid) :
    mid.entries.keys.toFinset = insert k m.entries.keys.toFinset := by
  have hput := put_of_update h
  have hroom := hasRoom_of_update h
  ext k'
  rw [List.mem_toFinset, Finset.mem_insert, List.mem_toFinset, ← hput]
  exact hasKey_put v hroom k'

/-- The updates of a list succeed exactly when the map has room for all keys. -/
theorem updateAll_isSome_iff (xs : List α) (m : BoundedMap κ ν cap) :
    (m.updateAll key value xs).isSome ↔
      (m.entries.keys.toFinset ∪ (xs.map key).toFinset).card ≤ cap := by
  induction xs generalizing m with
  | nil =>
      rw [List.map_nil, List.toFinset_nil, Finset.union_empty, ← size_eq_card]
      exact iff_of_true rfl m.size_le
  | cons x xs ih =>
      rw [List.map_cons, List.toFinset_cons, Finset.union_insert, ← Finset.insert_union]
      cases hstep : m.update (key x) (value x) with
      | some mid =>
          have hrest : m.updateAll key value (x :: xs) = mid.updateAll key value xs := by
            simp [updateAll, hstep]
          rw [hrest, ih, keys_update hstep]
      | none =>
          have hnone : m.updateAll key value (x :: xs) = none := by simp [updateAll, hstep]
          -- the map is full, and the key is a new one
          have hroom : ¬ m.HasRoom (key x) := by
            rw [← update_isSome m (key x) (value x), hstep]
            exact Bool.false_ne_true
          obtain ⟨hnew, hfull⟩ := not_or.mp hroom
          have hcard : (insert (key x) m.entries.keys.toFinset).card = m.size + 1 := by
            rw [Finset.card_insert_of_notMem fun h => hnew (List.mem_toFinset.mp h), size_eq_card]
          have hsub : insert (key x) m.entries.keys.toFinset ⊆
              insert (key x) m.entries.keys.toFinset ∪ (xs.map key).toFinset :=
            Finset.subset_union_left
          have hle := Finset.card_le_card hsub
          have hsize : cap ≤ m.size := Nat.le_of_not_lt hfull
          rw [hnone]
          refine iff_of_false Bool.false_ne_true ?_
          omega

/-- As many different keys as there is room for can be stored in an empty map. -/
theorem updateAll_empty_isSome_iff (xs : List α) :
    ((empty : BoundedMap κ ν cap).updateAll key value xs).isSome ↔
      (xs.map key).dedup.length ≤ cap := by
  rw [updateAll_isSome_iff, ← List.card_toFinset]
  exact Iff.of_eq (congrArg (fun s : Finset κ => s.card ≤ cap) (Finset.empty_union _))

end UpdateAll

/-! ## Removing -/

@[simp] theorem lookup_erase_self (m : BoundedMap κ ν cap) (k : κ) :
    (m.erase k).lookup k = none :=
  AList.lookup_erase k m.entries

theorem lookup_erase_ne (m : BoundedMap κ ν cap) {k k' : κ} (h : k' ≠ k) :
    (m.erase k).lookup k' = m.lookup k' :=
  AList.lookup_erase_ne h

@[simp] theorem hasKey_erase (m : BoundedMap κ ν cap) (k k' : κ) :
    (m.erase k).HasKey k' ↔ k' ≠ k ∧ m.HasKey k' :=
  AList.mem_erase

/-- Storing under a new key and removing it again changes nothing. -/
theorem erase_put {m : BoundedMap κ ν cap} {k : κ} (v : ν) (h : ¬ m.HasKey k) :
    (m.put k v).erase k = m := by
  obtain ⟨entries, bound⟩ := m
  have hkeys : k ∉ entries.entries.keys := h
  have hnone : entries.erase k = entries := AList.ext (List.kerase_of_notMem_keys hkeys)
  have hinsert : (entries.insert k v).erase k = entries := by
    refine AList.ext ?_
    show List.kerase k (⟨k, v⟩ :: List.kerase k entries.entries) = entries.entries
    rw [List.kerase_of_notMem_keys hkeys]
    exact List.kerase_cons_eq rfl
  by_cases hroom : HasRoom ⟨entries, bound⟩ k
  · rw [put_of_hasRoom v hroom]
    simp only [erase, hinsert]
  · rw [put_of_full v hroom]
    simp only [erase, hnone]

end BoundedMap
