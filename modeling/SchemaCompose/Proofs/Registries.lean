import SchemaCompose.Registry
import Mathlib.Data.List.Nodup

/-!
# Registries of distinct keys

Values that are written under different keys stand in the registry in the order in
which they were written, and a key that is not written is not found.
-/

namespace SchemaCompose.Registry

variable {Key Value : Type} [DecidableEq Key] {key : Key} {value : Value}
  {registry : Registry Key Value}

theorem put_of_new (new : key ∉ registry.map Prod.fst) (value : Value) :
    put key value registry = registry ++ [(key, value)] := by
  induction registry with
  | nil => rfl
  | cons entry rest ih =>
      rw [List.map_cons, List.mem_cons, not_or] at new
      rw [put, if_neg (Ne.symm new.1), ih new.2]
      rfl

theorem find?_of_unknown (unknown : key ∉ registry.map Prod.fst) :
    find? key registry = none := by
  induction registry with
  | nil => rfl
  | cons entry rest ih =>
      rw [List.map_cons, List.mem_cons, not_or] at unknown
      rw [find?, if_neg (Ne.symm unknown.1), ih unknown.2]

theorem erase_of_unknown (unknown : key ∉ registry.map Prod.fst) :
    erase key registry = registry := by
  rw [erase, List.filter_eq_self]
  intro entry member
  rw [decide_eq_true_eq]
  rintro rfl
  exact unknown (List.mem_map_of_mem member)

theorem erase_cons_self :
    erase key ((key, value) :: registry) = erase key registry := by
  simp [erase]

theorem find?_cons_self : find? key ((key, value) :: registry) = some value := by
  simp [find?]

/-! ## Entries -/

theorem mem_of_find? (found : find? key registry = some value) :
    (key, value) ∈ registry := by
  induction registry with
  | nil => contradiction
  | cons entry rest ih =>
      obtain ⟨present, old⟩ := entry
      rw [find?] at found
      split_ifs at found with same
      · obtain rfl := Option.some.inj found
        rw [same]
        exact List.mem_cons_self
      · exact List.mem_cons_of_mem _ (ih found)

theorem mem_put {entry : Key × Value} (member : entry ∈ put key value registry) :
    entry = (key, value) ∨ entry ∈ registry := by
  induction registry with
  | nil => exact Or.inl (List.mem_singleton.mp member)
  | cons first rest ih =>
      obtain ⟨present, old⟩ := first
      rw [put] at member
      split_ifs at member with same
      · rcases List.mem_cons.mp member with rfl | behind
        · exact Or.inl (by rw [same])
        · exact Or.inr (List.mem_cons_of_mem _ behind)
      · rcases List.mem_cons.mp member with rfl | behind
        · exact Or.inr List.mem_cons_self
        · exact (ih behind).imp_right (List.mem_cons_of_mem _)

theorem nodup_put (distinct : (registry.map Prod.fst).Nodup) (key : Key)
    (value : Value) : ((put key value registry).map Prod.fst).Nodup := by
  induction registry with
  | nil => simp [put]
  | cons first rest ih =>
      obtain ⟨present, old⟩ := first
      rw [List.map_cons, List.nodup_cons] at distinct
      rw [put]
      split_ifs with same
      · exact List.nodup_cons.mpr distinct
      · rw [List.map_cons, List.nodup_cons]
        refine ⟨?_, ih distinct.2⟩
        intro member
        obtain ⟨entry, written, first⟩ := List.mem_map.mp member
        rcases mem_put written with rfl | behind
        · exact same first.symm
        · exact distinct.1 (first ▸ List.mem_map_of_mem behind)

/-- Of distinct keys, one that is present gives its value. -/
theorem find?_of_mem (distinct : (registry.map Prod.fst).Nodup)
    (member : (key, value) ∈ registry) : find? key registry = some value := by
  induction registry with
  | nil => contradiction
  | cons entry rest ih =>
      obtain ⟨present, old⟩ := entry
      rw [List.map_cons, List.nodup_cons] at distinct
      rcases List.mem_cons.mp member with same | behind
      · rw [find?, if_pos (Prod.mk.inj same).1.symm, (Prod.mk.inj same).2]
      · have different : present ≠ key := by
          rintro rfl
          exact distinct.1 (List.mem_map.mpr ⟨_, behind, rfl⟩)
        rw [find?, if_neg different, ih distinct.2 behind]

/-- Of distinct keys, the order does not matter. -/
theorem find?_of_perm {other : Registry Key Value} (distinct : (registry.map Prod.fst).Nodup)
    (perm : other.Perm registry) (key : Key) : find? key other = find? key registry := by
  cases found : find? key registry with
  | some value =>
      exact find?_of_mem ((perm.map Prod.fst).nodup_iff.mpr distinct)
        (perm.mem_iff.mpr (mem_of_find? found))
  | none =>
      by_contra present
      obtain ⟨value, found'⟩ := Option.ne_none_iff_exists'.mp present
      have member := perm.mem_iff.mp (mem_of_find? found')
      simp [find?_of_mem distinct member] at found

/-- What is under the keys that are kept. -/
theorem find?_filter (kept : Key → Bool) (registry : Registry Key Value) (key : Key) :
    find? key (registry.filter fun entry => kept entry.1) =
      if kept key then find? key registry else none := by
  induction registry with
  | nil => simp [find?]
  | cons entry rest ih =>
      obtain ⟨present, value⟩ := entry
      by_cases same : present = key
      · subst same
        cases stays : kept present with
        | true => simp [stays, find?]
        | false => simpa [List.filter_cons, stays] using ih
      · cases stays : kept present with
        | true => simpa [List.filter_cons, stays, find?, same] using ih
        | false => simpa [List.filter_cons, stays, find?, same] using ih

theorem erase_sublist (key : Key) (registry : Registry Key Value) :
    (erase key registry).Sublist registry :=
  List.filter_sublist

/-! ## Changing values -/

variable {Other : Type}

/-- The registry with every value changed. -/
def mapValues (change : Value → Other) (registry : Registry Key Value) :
    Registry Key Other :=
  registry.map fun (key, value) => (key, change value)

theorem find?_mapValues (change : Value → Other) (registry : Registry Key Value)
    (key : Key) :
    (registry.mapValues change).find? key = (registry.find? key).map change := by
  induction registry with
  | nil => rfl
  | cons entry rest ih =>
      by_cases same : entry.1 = key
      · simp [mapValues, find?, same]
      · have further := ih
        simp only [mapValues, List.map_cons, find?, same, if_false] at further ⊢
        exact further

theorem put_mapValues (change : Value → Other) (registry : Registry Key Value)
    (key : Key) (value : Value) :
    (registry.put key value).mapValues change =
      (registry.mapValues change).put key (change value) := by
  induction registry with
  | nil => rfl
  | cons entry rest ih =>
      by_cases same : entry.1 = key
      · simp [mapValues, put, same]
      · have further := ih
        simp only [mapValues, List.map_cons, put, same, if_false] at further ⊢
        rw [further]

/-- Writing the value that is there changes nothing. -/
theorem put_of_find?
    (present : registry.find? key = some value) : registry.put key value = registry := by
  induction registry with
  | nil => contradiction
  | cons entry rest ih =>
      by_cases same : entry.1 = key
      · rw [find?, if_pos same, Option.some.injEq] at present
        rw [put, if_pos same, ← present]
      · simp only [find?, same, if_false] at present
        simp [put, same, ih present]

end SchemaCompose.Registry
