import SchemaCompose.Proofs.Reading.Parts

/-!
# Expressions

An expression stands on one line, closes no bracket that it did not open, leaves no bracket
and no literal open, and begins no comment; brackets and slashes inside of literals do not
count.  This is said by counting brackets over the beginnings of the text, without the
scanners of a line (`IsExpression`).  Those scanners go over an expression as a whole,
because it is the same as a balanced text on one line (`isExpression_iff`).
-/

namespace SchemaCompose

/-! ## Open brackets -/

namespace LiteralState

/-- What a character adds to the number of open brackets. -/
def weight (state : LiteralState) (c : Char) : Int :=
  if state = .outside ∧ (c = '(' ∨ c = '[') then 1
  else if state = .outside ∧ (c = ')' ∨ c = ']') then -1
  else 0

/-- The brackets that open in a text, less those that close. -/
def excess : LiteralState → Text → Int
  | _, [] => 0
  | state, c :: rest => state.weight c + excess (state.next c) rest

end LiteralState

section Nesting

variable {depth depth' : Nat} {state state' : LiteralState} {text : Text}

/-- A character is passed unless it closes what was not opened. -/
theorem nesting_cons (depth : Nat) (state : LiteralState) (c : Char) (text : Text) :
    nesting depth state (c :: text) =
      if depth + state.weight c < 0 then none
      else nesting (depth + state.weight c).toNat (state.next c) text := by
  rw [nesting, LiteralState.weight]
  split_ifs with opens below closes outermost below below' below
  · omega
  · rfl
  · rfl
  · omega
  · omega
  · congr 1
    omega
  · omega
  · congr 1

/-- A text is nested well exactly if none of its beginnings closes more than was open. -/
theorem nesting_eq_some_iff :
    nesting depth state text = some (depth', state') ↔
      (∀ front, front <+: text → 0 ≤ depth + state.excess front) ∧
        depth + state.excess text = depth' ∧ state.run text = state' := by
  induction text generalizing depth state with
  | nil =>
      rw [nesting, Option.some.injEq, Prod.mk.injEq, ← Int.natCast_inj]
      simp [LiteralState.excess, LiteralState.run]
  | cons c text ih =>
      have beginnings : (∀ front, front <+: c :: text → 0 ≤ depth + state.excess front) ↔
          ∀ front, front <+: text →
            0 ≤ depth + state.weight c + (state.next c).excess front := by
        simp only [List.prefix_cons_iff]
        constructor
        · intro each front begins
          have whole := each (c :: front) (Or.inr ⟨front, rfl, begins⟩)
          rwa [LiteralState.excess, ← Int.add_assoc] at whole
        · rintro each _ (rfl | ⟨front, rfl, begins⟩)
          · simp [LiteralState.excess]
          · rw [LiteralState.excess, ← Int.add_assoc]
            exact each front begins
      rw [nesting_cons, beginnings, LiteralState.excess, ← Int.add_assoc,
        LiteralState.run_cons]
      split_ifs with below
      · -- The bracket that is not open is missed already by the empty beginning.
        refine iff_of_false (by simp) fun nested => ?_
        have here := nested.1 [] List.nil_prefix
        rw [LiteralState.excess, Int.add_zero] at here
        exact Int.not_lt.mpr here below
      · rw [ih, Int.toNat_of_nonneg (Int.not_lt.mp below)]

end Nesting

/-! ## Comments -/

/-- A text holds no comment exactly if no two slashes stand outside of its literals. -/
theorem Text.beforeComment_eq_self_iff {state : LiteralState} {text : Text} :
    beforeComment state text = text ↔
      ∀ front behind, text = front ++ '/' :: '/' :: behind → state.run front ≠ .outside := by
  constructor
  · rintro silent front behind rfl outside
    have starts := (beforeComment_of_append silent).2
    rw [outside] at starts
    contradiction
  · intro apart
    induction text generalizing state with
    | nil => rfl
    | cons c text ih =>
        have quiet : ¬ (state = .outside ∧ c = '/' ∧ text.head? = some '/') := by
          rintro ⟨rfl, rfl, first⟩
          obtain ⟨behind, rfl⟩ := List.head?_eq_some_iff.mp first
          exact apart [] behind rfl rfl
        rw [beforeComment, if_neg quiet, ih]
        rintro front behind rfl
        exact apart (c :: front) behind rfl

/-! ## Expressions -/

/-- The text stands on one line, closes what it opens and nothing else, and begins no
comment. -/
structure IsExpression (text : Text) : Prop where
  single : Text.IsLine text
  opened : ∀ front, front <+: text → 0 ≤ LiteralState.excess .outside front
  closed : LiteralState.excess .outside text = 0
  ended : LiteralState.run .outside text = .outside
  silent : ∀ front behind, text = front ++ '/' :: '/' :: behind →
    LiteralState.run .outside front ≠ .outside

variable {text : Text}

/-- Expressions are what the scanners of a line pass. -/
theorem isExpression_iff : IsExpression text ↔ Text.IsLine text ∧ Balanced text := by
  have nested : nesting 0 .outside text = some (0, .outside) ↔ _ := nesting_eq_some_iff
  simp only [Int.natCast_zero, Int.zero_add] at nested
  constructor
  · rintro ⟨single, opened, closed, ended, silent⟩
    exact ⟨single, nested.mpr ⟨opened, closed, ended⟩,
      Text.beforeComment_eq_self_iff.mpr silent⟩
  · rintro ⟨single, balanced⟩
    obtain ⟨opened, closed, ended⟩ := nested.mp balanced.nested
    exact ⟨single, opened, closed, ended, Text.beforeComment_eq_self_iff.mp balanced.silent⟩

instance : DecidablePred IsExpression := fun _ => decidable_of_iff _ isExpression_iff.symm

/-- Brackets, slashes and an escaped quote in a literal do not count. -/
example : IsExpression "f([1], \"]) // \\\" (\")" := by decide

/-- White space around an expression does not matter to it. -/
theorem isExpression_trim_iff (single : Text.IsLine text) :
    IsExpression (Text.trim text) ↔ IsExpression text := by
  rw [isExpression_iff, isExpression_iff]
  refine ⟨fun ⟨_, trimmed⟩ => ⟨single, ?_⟩,
    fun ⟨_, balanced⟩ => ⟨Text.isLine_trim single, balanced_trim balanced⟩⟩
  obtain ⟨before, behind, whole, blank, blankBehind⟩ := Text.exists_trim_append text
  have noSlash : ∀ {gap : Text}, (∀ c ∈ gap, Text.isBlank c = true) → '/' ∉ gap :=
    fun blank slash => absurd (blank '/' slash) (by decide)
  rw [whole]
  refine ((balanced_of_blank blank).append trimmed (Or.inl ?_)).append
    (balanced_of_blank blankBehind) (Or.inr ?_)
  · exact fun last => noSlash blank (List.mem_of_getLast? last)
  · exact fun first => noSlash blankBehind (List.mem_of_head? first)

end SchemaCompose
