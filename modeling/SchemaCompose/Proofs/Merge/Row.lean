import Mathlib.Data.List.Induction
import Mathlib.Data.List.Nodup
import SchemaCompose.Schema.Basic

/-!
# Rows of named members

Models, and the fields of a model, stand in rows and are found by their names.
This file holds what merging needs of such rows: the place of the last member of a
name, the names in the order of their first appearance, and when one member may be
taken into a row before others instead of behind them.
-/

namespace SchemaCompose.Row

variable {α : Type} {κ : Type}

theorem nodup_append_singleton {names : List κ} {name : κ} (distinct : names.Nodup)
    (new : name ∉ names) :
    (names ++ [name]).Nodup := by
  rw [← List.concat_eq_append]
  exact List.Nodup.concat new distinct

variable [BEq κ] [LawfulBEq κ]

/-- A row that holds a name can be cut at the last member of that name. -/
theorem exists_last_split
    {key : α → κ} {name : κ} {row : List α}
    (present : name ∈ row.map key) :
    ∃ earlier member later,
      row = earlier ++ member :: later ∧ key member = name ∧
        name ∉ later.map key := by
  induction row with
  | nil => simp at present
  | cons first rest ih =>
      by_cases further : name ∈ rest.map key
      · obtain ⟨earlier, member, later, split, named, last⟩ := ih further
        exact ⟨first :: earlier, member, later, by rw [split]; rfl, named, last⟩
      · have same : key first = name := by
          rcases List.mem_cons.mp present with equal | inRest
          · exact equal.symm
          · exact absurd inRest further
        exact ⟨[], first, rest, rfl, same, further⟩

/-- A name is among some names and one that may be new if it is one of them. -/
theorem mem_ite_append_singleton {names : List κ} {name last : κ} :
    name ∈ (if last ∈ names then names else names ++ [last]) ↔
      name ∈ names ∨ name = last := by
  split
  · rename_i present
    constructor
    · exact Or.inl
    · rintro (member | rfl)
      · exact member
      · exact present
  · simp

theorem nodup_ite_append_singleton {names : List κ} (distinct : names.Nodup)
    (last : κ) :
    (if last ∈ names then names else names ++ [last]).Nodup := by
  split
  · exact distinct
  · rename_i new
    exact nodup_append_singleton distinct new

/-- One more name goes to the end of the names that appeared before, unless it is
one of them. -/
theorem eraseDups_append_singleton
    (names : List κ) (name : κ) :
    (names ++ [name]).eraseDups =
      if name ∈ names then names.eraseDups else names.eraseDups ++ [name] := by
  rw [List.eraseDups_append]
  by_cases present : name ∈ names
  · simp [List.removeAll, present]
  · simp [List.removeAll, present, List.eraseDups_cons]

theorem nodup_eraseDups (names : List κ) : names.eraseDups.Nodup := by
  induction names using List.reverseRecOn with
  | nil => simp
  | append_singleton earlier name ih =>
      rw [eraseDups_append_singleton]
      split
      · exact ih
      · rename_i new
        exact nodup_append_singleton ih fun member =>
          new (List.mem_eraseDups.mp member)

/-- Names that are all different appear in their own order. -/
theorem eraseDups_of_nodup
    {names : List κ} (distinct : names.Nodup) :
    names.eraseDups = names := by
  induction names using List.reverseRecOn with
  | nil => simp
  | append_singleton earlier name ih =>
      rw [List.nodup_append] at distinct
      have new : name ∉ earlier := by
        intro member
        exact distinct.2.2 name member name (List.mem_singleton_self name) rfl
      rw [eraseDups_append_singleton, if_neg new, ih distinct.1]

/-- Repeated names may be struck out before others follow. -/
theorem eraseDups_eraseDups_append (earlier later : List κ) :
    (earlier.eraseDups ++ later).eraseDups = (earlier ++ later).eraseDups := by
  induction later using List.reverseRecOn with
  | nil =>
      rw [List.append_nil, List.append_nil]
      exact eraseDups_of_nodup (nodup_eraseDups earlier)
  | append_singleton before name ih =>
      rw [← List.append_assoc, ← List.append_assoc, eraseDups_append_singleton,
        eraseDups_append_singleton, ih]
      simp only [List.mem_append, List.mem_eraseDups]

/--
Taking a member into a row behind others has the same result as taking it in before
them, if the row stays ready for it and no single one of the others stands in its
way.
-/
theorem take_foldl_comm
    (Ready : List α → Prop) {take : List α → α → List α} {member : α}
    {others : List α}
    (stays : ∀ row, ∀ other ∈ others, Ready row → Ready (take row other))
    (swap : ∀ row, ∀ other ∈ others, Ready row →
      take (take row other) member = take (take row member) other)
    {row : List α} (ready : Ready row) :
    take (others.foldl take row) member = others.foldl take (take row member) := by
  induction others generalizing row with
  | nil => rfl
  | cons other rest ih =>
      have readyNext : Ready (take row other) := stays row other (by simp) ready
      calc take ((other :: rest).foldl take row) member
          = take (rest.foldl take (take row other)) member := rfl
        _ = rest.foldl take (take (take row other) member) :=
          ih (fun row next inRest =>
            stays row next (List.mem_cons_of_mem other inRest))
            (fun row next inRest =>
              swap row next (List.mem_cons_of_mem other inRest)) readyNext
        _ = rest.foldl take (take (take row member) other) := by
          rw [swap row other (by simp) ready]

end SchemaCompose.Row
