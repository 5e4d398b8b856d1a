import Mathlib.Data.List.AList

/-!
# Maps that are visited in any order

A map is an association list. A loop over it may visit the entries in any order, which is a
parameter of what depends on it: one order for every map.
-/

set_option autoImplicit false

/-- A map, with its entries in some order. -/
abbrev GoMap (α β : Type) := AList fun _ : α => β

/-- A key with its value, as a loop visits it. -/
abbrev GoEntry (α β : Type) := (_ : α) × β

/-- An order for every map, in which a loop visits its entries. -/
structure GoRange (α β : Type) where
  order : GoMap α β → List (GoEntry α β)
  perm : ∀ map, (order map).Perm map.entries

section GoRange

variable {α β : Type} [DecidableEq α]

/-- The order of the entries themselves. -/
def GoRange.entries : GoRange α β := ⟨AList.entries, fun _ => List.Perm.refl _⟩

/-- An order that is chosen for one map. -/
def GoRange.pick [DecidableEq β] (map : GoMap α β) (order : List (GoEntry α β))
    (h : order.Perm map.entries) : GoRange α β where
  order := fun map' => if map'.entries = map.entries then order else map'.entries
  perm := fun map' => by
    split
    · rename_i heq
      exact heq ▸ h
    · exact List.Perm.refl _

@[simp] theorem GoRange.order_pick [DecidableEq β] (map : GoMap α β)
    (order : List (GoEntry α β)) (h : order.Perm map.entries) :
    (GoRange.pick map order h).order map = order := if_pos rfl

theorem GoRange.mem_order_iff {range : GoRange α β} {map : GoMap α β} {key : α} {value : β} :
    ⟨key, value⟩ ∈ range.order map ↔ map.lookup key = some value := by
  rw [(range.perm map).mem_iff, ← AList.mem_lookup_iff, Option.mem_def]

omit [DecidableEq α] in
theorem GoRange.nodupKeys (range : GoRange α β) (map : GoMap α β) :
    (range.order map).NodupKeys :=
  (List.perm_nodupKeys (range.perm map)).mpr map.nodupKeys

/-- A visit can come to any key last. -/
theorem exists_range_last [DecidableEq β] {map : GoMap α β} {key : α} {value : β}
    (h : map.lookup key = some value) :
    ∃ (range : GoRange α β) (front : List (GoEntry α β)),
      range.order map = front ++ [⟨key, value⟩] := by
  let entry : GoEntry α β := ⟨key, value⟩
  have hmem : entry ∈ map.entries := AList.mem_lookup_iff.mp h
  obtain ⟨front, back, hentries⟩ := List.append_of_mem hmem
  have hperm : (front ++ back ++ [entry]).Perm map.entries := by
    rw [hentries, List.append_assoc]
    exact List.Perm.append_left front (List.perm_append_singleton _ _)
  exact ⟨GoRange.pick map _ hperm, front ++ back, GoRange.order_pick map _ hperm⟩

/-- A visit can start with any key. -/
theorem exists_range_first [DecidableEq β] {map : GoMap α β} {key : α} {value : β}
    (h : map.lookup key = some value) :
    ∃ (range : GoRange α β) (back : List (GoEntry α β)),
      range.order map = ⟨key, value⟩ :: back := by
  let entry : GoEntry α β := ⟨key, value⟩
  have hmem : entry ∈ map.entries := AList.mem_lookup_iff.mp h
  obtain ⟨front, back, hentries⟩ := List.append_of_mem hmem
  have hperm : (entry :: (front ++ back)).Perm map.entries := by
    rw [hentries]
    exact List.perm_middle.symm
  exact ⟨GoRange.pick map _ hperm, front ++ back, GoRange.order_pick map _ hperm⟩

/-- New keys are put in front, one after the other. -/
theorem entries_foldl_insert :
    ∀ (entries : List (GoEntry α β)) (map : GoMap α β), (entries ++ map.entries).NodupKeys →
      (entries.foldl (fun map entry => map.insert entry.1 entry.2) map).entries =
        entries.reverse ++ map.entries := by
  intro entries
  induction entries with
  | nil => exact fun _ _ => rfl
  | cons entry entries ih =>
      intro map h
      rw [List.cons_append] at h
      have hkeys : entry.1 ∉ (entries ++ map.entries).keys := (List.nodupKeys_cons.mp h).1
      have hnew : entry.1 ∉ map := by
        intro hmem
        apply hkeys
        rw [List.keys, List.map_append, List.mem_append]
        exact Or.inr hmem
      have hentries : (map.insert entry.1 entry.2).entries = entry :: map.entries :=
        AList.entries_insert_of_notMem hnew
      have hnodup : (entries ++ (map.insert entry.1 entry.2).entries).NodupKeys := by
        rw [hentries]
        exact (List.perm_nodupKeys List.perm_middle).mpr h
      rw [List.foldl_cons, ih _ hnodup, hentries, List.reverse_cons, List.append_assoc]
      rfl

/-- The keys that are in a map after a loop of insertions. -/
theorem mem_foldl_insert (entries : List (GoEntry α β)) (map : GoMap α β) (key : α) :
    key ∈ entries.foldl (fun map entry => map.insert entry.1 entry.2) map ↔
      key ∈ map ∨ key ∈ entries.map Sigma.fst := by
  induction entries generalizing map with
  | nil => simp
  | cons entry entries ih =>
      rw [List.foldl_cons, ih, AList.mem_insert, List.map_cons, List.mem_cons]
      tauto

/-- A map that is filled in a loop over another one has the same entries. -/
theorem GoRange.perm_foldl_insert (range : GoRange α β) (map : GoMap α β) :
    ((range.order map).foldl (fun map entry => map.insert entry.1 entry.2)
      (∅ : GoMap α β)).entries.Perm map.entries := by
  have hnodup : (range.order map ++ (∅ : GoMap α β).entries).NodupKeys := by
    simpa using range.nodupKeys map
  rw [entries_foldl_insert _ _ hnodup, AList.empty_entries, List.append_nil]
  exact (List.reverse_perm _).trans (range.perm map)

end GoRange
