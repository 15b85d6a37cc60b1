import Mathlib.Data.List.Forall2
import SchemaCompose.Schema.Fault

/-!
# Readings that succeed

A reading in `Except` that gives a result has gone through every one of its steps.
This file holds the inversions from which the other files learn what an accepted
text is made of, or where a refused one fails, and the induction over the steps of a
reading that goes through a row.
-/

namespace SchemaCompose.Reading

variable {ε α β σ : Type}

theorem ok_bind (value : α) (further : α → Except ε β) :
    (Except.ok value >>= further) = further value := rfl

theorem bind_eq_ok {reading : Except ε α} {further : α → Except ε β} {result : β} :
    reading >>= further = .ok result ↔
      ∃ value, reading = .ok value ∧ further value = .ok result := by
  cases reading with
  | error fault => simp [bind, Except.bind]
  | ok value => simp [bind, Except.bind]

theorem bind_eq_error {reading : Except ε α} {further : α → Except ε β} {fault : ε} :
    reading >>= further = .error fault ↔
      reading = .error fault ∨
        ∃ value, reading = .ok value ∧ further value = .error fault := by
  cases reading with
  | error other => simp [bind, Except.bind]
  | ok value => simp [bind, Except.bind]

theorem map_eq_ok {reading : Except ε α} {write : α → β} {result : β} :
    reading.map write = .ok result ↔
      ∃ value, reading = .ok value ∧ write value = result := by
  cases reading with
  | error fault => simp [Except.map]
  | ok value => simp [Except.map]

theorem map_eq_error {reading : Except ε α} {write : α → β} {fault : ε} :
    reading.map write = .error fault ↔ reading = .error fault := by
  cases reading with
  | error other => simp [Except.map]
  | ok value => simp [Except.map]

theorem pure_eq_ok {value result : α} :
    (pure value : Except ε α) = .ok result ↔ value = result := by
  simp [pure, Except.pure]

theorem atLine_eq_ok {line : Nat} {reading : Except Fault α} {result : α} :
    atLine line reading = .ok result ↔ reading = .ok result := by
  cases reading with
  | error fault => simp [atLine, Except.mapError]
  | ok value => simp [atLine, Except.mapError]

/-- What every step of a reading keeps is kept by the whole reading. -/
theorem foldlM_keeps_of_mem
    (Holds : σ → Prop) {step : σ → α → Except ε σ} {row : List α}
    (keeps : ∀ state, ∀ item, ∀ next, item ∈ row → Holds state →
      step state item = .ok next → Holds next)
    {start final : σ}
    (holds : Holds start) (read : row.foldlM step start = .ok final) :
    Holds final := by
  induction row generalizing start with
  | nil =>
      rw [List.foldlM_nil, pure_eq_ok] at read
      exact read ▸ holds
  | cons item rest ih =>
      rw [List.foldlM_cons, bind_eq_ok] at read
      obtain ⟨next, stepped, further⟩ := read
      refine ih (fun state other after member => ?_)
        (keeps start item next List.mem_cons_self holds stepped) further
      exact keeps state other after (List.mem_cons_of_mem item member)

theorem foldlM_keeps
    (Holds : σ → Prop) {step : σ → α → Except ε σ}
    (keeps : ∀ state item next, Holds state →
      step state item = .ok next → Holds next)
    {row : List α} {start final : σ}
    (holds : Holds start) (read : row.foldlM step start = .ok final) :
    Holds final :=
  foldlM_keeps_of_mem Holds (fun state item next _ => keeps state item next) holds read

/-- Every item of a row that is read is taken by some step. -/
theorem exists_step_of_mem
    {step : σ → α → Except ε σ} {row : List α} {start final : σ} {item : α}
    (read : row.foldlM step start = .ok final) (member : item ∈ row) :
    ∃ state next, step state item = .ok next := by
  induction row generalizing start with
  | nil => simp at member
  | cons first rest ih =>
      rw [List.foldlM_cons, bind_eq_ok] at read
      obtain ⟨next, stepped, further⟩ := read
      rcases List.mem_cons.mp member with rfl | behind
      · exact ⟨start, next, stepped⟩
      · exact ih further behind

/-- A row that is not read has a member at which some step fails. -/
theorem exists_step_of_foldlM_eq_error
    {step : σ → α → Except ε σ} {row : List α} {start : σ} {fault : ε}
    (failed : row.foldlM step start = .error fault) :
    ∃ item ∈ row, ∃ state, step state item = .error fault := by
  induction row generalizing start with
  | nil => cases failed
  | cons item rest ih =>
      rw [List.foldlM_cons, bind_eq_error] at failed
      rcases failed with here | ⟨next, -, further⟩
      · exact ⟨item, List.mem_cons_self, start, here⟩
      · obtain ⟨other, member, fails⟩ := ih further
        exact ⟨other, List.mem_cons_of_mem item member, fails⟩

/-- A row is read member by member. -/
theorem mapM_eq_ok
    {read : α → Except ε β} {row : List α} {results : List β} :
    row.mapM read = .ok results ↔
      List.Forall₂ (fun item result => read item = .ok result) row results := by
  induction row generalizing results with
  | nil => simp [List.mapM_nil, pure, Except.pure, eq_comm]
  | cons item rest ih =>
      rw [List.mapM_cons, bind_eq_ok, List.forall₂_cons_left_iff]
      constructor
      · rintro ⟨first, here, further⟩
        obtain ⟨others, behind, same⟩ := bind_eq_ok.mp further
        exact ⟨first, others, here, ih.mp behind, (pure_eq_ok.mp same).symm⟩
      · rintro ⟨first, others, here, behind, rfl⟩
        exact ⟨first, here, bind_eq_ok.mpr ⟨others, ih.mpr behind, rfl⟩⟩

/-- A row that is not read has a member that is not. -/
theorem exists_mem_of_mapM_eq_error
    {read : α → Except ε β} {row : List α} {fault : ε}
    (failed : row.mapM read = .error fault) : ∃ item ∈ row, read item = .error fault := by
  induction row with
  | nil => cases failed
  | cons item rest ih =>
      rw [List.mapM_cons, bind_eq_error] at failed
      rcases failed with here | ⟨first, -, further⟩
      · exact ⟨item, List.mem_cons_self, here⟩
      · rcases bind_eq_error.mp further with behind | ⟨others, -, none⟩
        · obtain ⟨other, member, fails⟩ := ih behind
          exact ⟨other, List.mem_cons_of_mem item member, fails⟩
        · cases none

theorem exists_of_mem_results
    {related : α → β → Prop} {row : List α} {results : List β} {result : β}
    (read : List.Forall₂ related row results) (member : result ∈ results) :
    ∃ item ∈ row, related item result := by
  induction read with
  | nil => simp at member
  | cons here _ ih =>
      rcases List.mem_cons.mp member with rfl | behind
      · exact ⟨_, List.mem_cons_self, here⟩
      · obtain ⟨item, inRow, reads⟩ := ih behind
        exact ⟨item, List.mem_cons_of_mem _ inRow, reads⟩

theorem exists_of_mem_row
    {related : α → β → Prop} {row : List α} {results : List β} {item : α}
    (read : List.Forall₂ related row results) (member : item ∈ row) :
    ∃ result ∈ results, related item result :=
  exists_of_mem_results read.flip member

/-- A row is read exactly if some function gives what is read of each member. -/
theorem forall₂_eq_ok_iff
    [Nonempty β] {read : α → Except ε β} {row : List α}
    {results : List β} :
    List.Forall₂ (fun item result => read item = .ok result) row results ↔
      ∃ give : α → β, (∀ item ∈ row, read item = .ok (give item)) ∧
        results = row.map give := by
  constructor
  · intro each
    let give (item : α) : β := (read item).toOption.getD (Classical.arbitrary β)
    have gives {item : α} {result : β} (here : read item = .ok result) :
        give item = result := by
      simp only [give, here, Except.toOption, Option.getD_some]
    refine ⟨give, fun item member => ?_, ?_⟩
    · obtain ⟨result, _, here⟩ := exists_of_mem_row each member
      rw [here, gives here]
    · induction each with
      | nil => rfl
      | cons here _ ih => rw [List.map_cons, gives here, ih]
  · rintro ⟨give, reads, rfl⟩
    rw [List.forall₂_map_right_iff, List.forall₂_same]
    exact reads

end SchemaCompose.Reading
