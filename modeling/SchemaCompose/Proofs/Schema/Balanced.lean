import Mathlib.Tactic.MkIffOfInductiveProp
import SchemaCompose.Proofs.Text.Names
import SchemaCompose.Schema.Attribute
import SchemaCompose.Schema.Render

/-!
# Balanced texts

A text is balanced when its brackets close in order and its literals end, where
brackets inside literals do not count, and when it holds no comment.  Behind a
balanced text a scanner stands where it stood before it, so that a line which is
put together from balanced pieces is read piece by piece: its comment begins behind
the pieces (`Balanced.beforeComment_append`), and an argument list ends at the
bracket behind them (`untilClosing_of_closing`).
-/

namespace SchemaCompose

/-- The brackets that are open behind a text, and where the scanner of literals
stands there; none if a bracket closes that was not opened. -/
def nesting (depth : Nat) (state : LiteralState) :
    Text → Option (Nat × LiteralState)
  | [] => some (depth, state)
  | c :: rest =>
    if state = .outside ∧ (c = '(' ∨ c = '[') then
      nesting (depth + 1) (state.next c) rest
    else if state = .outside ∧ (c = ')' ∨ c = ']') then
      if depth = 0 then none else nesting (depth - 1) (state.next c) rest
    else nesting depth (state.next c) rest

/-- Brackets close in order, literals end, and no comment begins. -/
@[mk_iff]
structure Balanced (text : Text) : Prop where
  nested : nesting 0 .outside text = some (0, .outside)
  silent : Text.beforeComment .outside text = text

instance : DecidablePred Balanced := fun text =>
  decidable_of_iff' _ (balanced_iff text)

/-! ## Nesting -/

section Nesting

variable {depth depth' : Nat} {state state' : LiteralState} {text : Text}

theorem nesting_append (depth : Nat) (state : LiteralState) (left right : Text) :
    nesting depth state (left ++ right) =
      (nesting depth state left).bind fun place =>
        nesting place.1 place.2 right := by
  induction left generalizing depth state with
  | nil => rfl
  | cons c left ih =>
      rw [List.cons_append, nesting, nesting]
      split_ifs
      · exact ih (depth + 1) (state.next c)
      · rfl
      · exact ih (depth - 1) (state.next c)
      · exact ih depth (state.next c)

/-- Brackets that are open around a text do not matter to it. -/
theorem nesting_add
    (nested : nesting depth state text = some (depth', state')) (more : Nat) :
    nesting (depth + more) state text = some (depth' + more, state') := by
  induction text generalizing depth state with
  | nil =>
      rw [nesting, Option.some.injEq, Prod.mk.injEq] at nested
      rw [nesting, nested.1, nested.2]
  | cons c text ih =>
      rw [nesting] at nested ⊢
      split_ifs at nested ⊢ with opens closes outermost none
      · rw [Nat.add_right_comm]
        exact ih nested
      · omega
      · have shifted : depth + more - 1 = depth - 1 + more := by omega
        rw [shifted]
        exact ih nested
      · exact ih nested

theorem run_of_nesting
    (nested : nesting depth state text = some (depth', state')) :
    state.run text = state' := by
  induction text generalizing depth state with
  | nil =>
      rw [nesting, Option.some.injEq, Prod.mk.injEq] at nested
      exact nested.2
  | cons c text ih =>
      rw [nesting] at nested
      rw [LiteralState.run_cons]
      split_ifs at nested
      · exact ih nested
      · exact ih nested
      · exact ih nested

theorem untilClosing_cons (depth : Nat) (state : LiteralState) (c : Char)
    (rest : Text) :
    let go (further : Nat) : Option (Text × Text) :=
      (Attribute.untilClosing further (state.next c) rest).map fun found =>
        (c :: found.1, found.2)
    Attribute.untilClosing depth state (c :: rest) =
      if state = .outside ∧ (c = '(' ∨ c = '[') then go (depth + 1)
      else if state = .outside ∧ (c = ')' ∨ c = ']') then
        if depth = 0 then some ([], rest) else go (depth - 1)
      else go depth := by
  intro go
  unfold Attribute.untilClosing
  cases depth with
  | zero => rfl
  | succ depth => rfl

/-- The scanner of an argument list passes a text that is nested well. -/
theorem untilClosing_of_nesting
    (nested : nesting depth state text = some (depth', state')) (rest : Text) :
    Attribute.untilClosing depth state (text ++ rest) =
      (Attribute.untilClosing depth' state' rest).map
        fun found => (text ++ found.1, found.2) := by
  induction text generalizing depth state with
  | nil =>
      rw [nesting, Option.some.injEq, Prod.mk.injEq] at nested
      rw [nested.1, nested.2]
      simp
  | cons c text ih =>
      have step : ∀ {further : Nat},
          nesting further (state.next c) text = some (depth', state') →
          (Attribute.untilClosing further (state.next c) (text ++ rest)).map
              (fun found => (c :: found.1, found.2)) =
            (Attribute.untilClosing depth' state' rest).map
              fun found => (c :: text ++ found.1, found.2) := by
        intro further inner
        rw [ih inner, Option.map_map]
        rfl
      rw [nesting] at nested
      rw [List.cons_append, untilClosing_cons]
      split_ifs at nested ⊢
      · exact step nested
      · exact step nested
      · exact step nested

/-- An argument list ends at the first bracket that closes behind a text that is
nested well. -/
theorem untilClosing_of_closing
    {inner : Text} (nested : nesting 0 .outside inner = some (0, .outside))
    {closing : Char} (closes : closing = ')' ∨ closing = ']') (rest : Text) :
    Attribute.untilClosing 0 .outside (inner ++ closing :: rest) =
      some (inner, rest) := by
  rw [untilClosing_of_nesting nested]
  rcases closes with rfl | rfl
  · simp [Attribute.untilClosing]
  · simp [Attribute.untilClosing]

end Nesting

/-! ## Inside a literal -/

namespace LiteralState

variable {state : LiteralState} {text : Text}

theorem next_ne_outside (literal : state ≠ .outside) {c : Char} (plain : c ≠ '"') :
    state.next c ≠ .outside := by
  cases state with
  | outside => contradiction
  | inside =>
      rw [next]
      split_ifs
      · simp
      · simp
  | escaped => simp [next]

theorem run_ne_outside (literal : state ≠ .outside) (plain : '"' ∉ text) :
    state.run text ≠ .outside := by
  induction text generalizing state with
  | nil => exact literal
  | cons c text ih =>
      rw [List.mem_cons, not_or] at plain
      rw [run_cons]
      exact ih (next_ne_outside literal (Ne.symm plain.1)) plain.2

/-- Brackets inside a literal do not count. -/
theorem run_outside_of_no_quote (plain : '"' ∉ text) :
    LiteralState.run .outside text = .outside := by
  induction text with
  | nil => rfl
  | cons c text ih =>
      rw [List.mem_cons, not_or] at plain
      rw [run_cons, next, if_neg (Ne.symm plain.1), ih plain.2]

theorem nesting_of_literal (literal : state ≠ .outside) (plain : '"' ∉ text)
    (depth : Nat) : nesting depth state text = some (depth, state.run text) := by
  induction text generalizing state with
  | nil => rfl
  | cons c text ih =>
      rw [List.mem_cons, not_or] at plain
      have further := next_ne_outside literal (Ne.symm plain.1)
      rw [nesting, if_neg fun opens => literal opens.1,
        if_neg fun closes => literal closes.1, ih further plain.2, run_cons]

end LiteralState

/-! ## Comments -/

namespace Text

/-- A comment begins behind a text that holds none, unless a slash stands at either
side. -/
theorem beforeComment_append
    {state : LiteralState} {left right : Text}
    (silent : beforeComment state left = left)
    (apart : left.getLast? ≠ some '/' ∨ right.head? ≠ some '/') :
    beforeComment state (left ++ right) =
      left ++ beforeComment (state.run left) right := by
  induction left generalizing state with
  | nil => rfl
  | cons c left ih =>
      rw [beforeComment] at silent
      rw [List.cons_append, beforeComment]
      split_ifs at silent with starts
      have further : beforeComment (state.next c) left = left := by
        simpa using silent
      have quiet :
          ¬ (state = .outside ∧ c = '/' ∧ (left ++ right).head? = some '/') := by
        rintro ⟨outside, rfl, next⟩
        cases left with
        | nil =>
            rcases apart with last | first
            · exact last rfl
            · exact first next
        | cons d left => exact starts ⟨outside, rfl, next⟩
      rw [if_neg quiet, LiteralState.run_cons, List.cons_append]
      congr 1
      apply ih further
      cases left with
      | nil => simp
      | cons d left => simpa using apart

theorem prefix_beforeComment (state : LiteralState) (text : Text) :
    beforeComment state text <+: text := by
  induction text generalizing state with
  | nil => exact List.prefix_rfl
  | cons c text ih =>
      rw [beforeComment]
      split
      · exact List.nil_prefix
      · exact List.prefix_cons_inj c |>.mpr (ih _)

theorem prefix_code (text : Text) : code text <+: text :=
  (prefix_trimEnd _).trans (prefix_beforeComment _ _)

/-- What stands before a comment holds none. -/
theorem beforeComment_beforeComment (state : LiteralState) (text : Text) :
    beforeComment state (beforeComment state text) = beforeComment state text := by
  induction text generalizing state with
  | nil => rfl
  | cons c text ih =>
      rw [beforeComment]
      split_ifs with starts
      · rfl
      · have quiet : ¬ (state = .outside ∧ c = '/' ∧
            (beforeComment (state.next c) text).head? = some '/') := by
          rintro ⟨outside, slash, first⟩
          refine starts ⟨outside, slash, ?_⟩
          obtain ⟨behind, whole⟩ := prefix_beforeComment (state.next c) text
          obtain ⟨others, same⟩ := List.head?_eq_some_iff.mp first
          rw [← whole, same]
          rfl
        rw [beforeComment, if_neg quiet, ih]

/-- No part of a text without comment holds one: not what it starts with, and not
what stands behind. -/
theorem beforeComment_of_append
    {state : LiteralState} {left right : Text}
    (silent : beforeComment state (left ++ right) = left ++ right) :
    beforeComment state left = left ∧
      beforeComment (state.run left) right = right := by
  induction left generalizing state with
  | nil => exact ⟨rfl, silent⟩
  | cons c left ih =>
      rw [List.cons_append, beforeComment] at silent
      split_ifs at silent with starts
      obtain ⟨before, behind⟩ := ih (List.cons.inj silent).2
      refine ⟨?_, behind⟩
      rw [beforeComment, if_neg, before]
      rintro ⟨outside, slash, first⟩
      refine starts ⟨outside, slash, ?_⟩
      obtain ⟨others, rfl⟩ := List.head?_eq_some_iff.mp first
      rfl

theorem beforeComment_of_no_slash
    {state : LiteralState} {text : Text} (plain : '/' ∉ text) :
    beforeComment state text = text := by
  induction text generalizing state with
  | nil => rfl
  | cons c text ih =>
      rw [List.mem_cons, not_or] at plain
      rw [beforeComment, if_neg fun starts => plain.1 starts.2.1.symm, ih plain.2]

/-- No comment begins inside a literal. -/
theorem beforeComment_of_inside
    {state : LiteralState} {text : Text} (literal : state ≠ .outside)
    (plain : '"' ∉ text) (rest : Text) :
    beforeComment state (text ++ rest) =
      text ++ beforeComment (state.run text) rest := by
  induction text generalizing state with
  | nil => rfl
  | cons c text ih =>
      rw [List.mem_cons, not_or] at plain
      have further := LiteralState.next_ne_outside literal (Ne.symm plain.1)
      rw [List.cons_append, beforeComment, if_neg fun starts => literal starts.1,
        ih further plain.2, LiteralState.run_cons, List.cons_append]

/-- Behind a text that closes its literals and holds no comment, code begins anew. -/
theorem code_append_of_closed
    {left : Text} (silent : beforeComment .outside left = left)
    (closed : LiteralState.run .outside left = .outside)
    (ends : ∀ c ∈ left.getLast?, isBlank c = false ∧ c ≠ '/') (right : Text) :
    code (left ++ right) = left ++ code right := by
  have apart : left.getLast? ≠ some '/' := fun last => (ends '/' last).2 rfl
  rw [code, beforeComment_append silent (Or.inl apart), closed,
    trimEnd_append_of_visible (fun c last => (ends c last).1), code]

end Text

/-! ## Balanced pieces -/

theorem balanced_nil : Balanced [] := ⟨rfl, rfl⟩

namespace Balanced

variable {text left right rest : Text}

theorem run_eq (balanced : Balanced text) :
    LiteralState.run .outside text = .outside :=
  run_of_nesting balanced.nested

theorem append
    (first : Balanced left) (second : Balanced right)
    (apart : left.getLast? ≠ some '/' ∨ right.head? ≠ some '/') :
    Balanced (left ++ right) := by
  constructor
  · rw [nesting_append, first.nested]
    exact second.nested
  · rw [Text.beforeComment_append first.silent apart, first.run_eq, second.silent]

theorem beforeComment_append
    (balanced : Balanced text)
    (apart : text.getLast? ≠ some '/' ∨ rest.head? ≠ some '/') :
    Text.beforeComment .outside (text ++ rest) =
      text ++ Text.beforeComment .outside rest := by
  rw [Text.beforeComment_append balanced.silent apart, balanced.run_eq]

end Balanced

/-- A text without quotes, brackets and slashes is balanced. -/
theorem balanced_of_plain
    {text : Text} (plain : ∀ c ∈ text, c ∉ ['"', '(', ')', '[', ']', '/']) :
    Balanced text := by
  constructor
  · induction text with
    | nil => rfl
    | cons c text ih =>
        rw [List.forall_mem_cons] at plain
        have here := plain.1
        simp only [List.mem_cons, List.not_mem_nil, or_false, not_or] at here
        rw [nesting, ← ih plain.2]
        simp [here, LiteralState.next]
  · apply Text.beforeComment_of_no_slash
    intro slash
    exact plain '/' slash (by decide)

/-- No double quote and no backslash stands in the text. -/
def Quotable (text : Text) : Prop :=
  ∀ c ∈ text, c ≠ '"' ∧ c ≠ '\\'

instance : DecidablePred Quotable := fun text =>
  inferInstanceAs (Decidable (∀ c ∈ text, c ≠ '"' ∧ c ≠ '\\'))

/-- Between double quotes a literal of a line ends at the second one: the text holds
none, and no backslash takes that one along. -/
@[mk_iff]
structure IsDelimited (text : Text) : Prop where
  plain : '"' ∉ text
  ended : LiteralState.run .inside text = .inside

instance : DecidablePred IsDelimited := fun text =>
  decidable_of_iff' _ (isDelimited_iff text)

/-- Between double quotes the text also ends there in an argument list: no backslash
stands in front of the second one. -/
@[mk_iff]
structure IsContained (text : Text) : Prop where
  plain : '"' ∉ text
  ended : text.getLast? ≠ some '\\'

instance : DecidablePred IsContained := fun text =>
  decidable_of_iff' _ (isContained_iff text)

theorem Quotable.isContained {text : Text} (quotable : Quotable text) :
    IsContained text :=
  ⟨fun quote => (quotable _ quote).1 rfl,
    fun last => (quotable _ (List.mem_of_getLast? last)).2 rfl⟩

/-- A quoted text ends where its closing quote stands. -/
theorem takeWhile_append_quote {text : Text} (plain : '"' ∉ text) (rest : Text) :
    (text ++ '"' :: rest).takeWhile (· ≠ '"') = text ∧
      (text ++ '"' :: rest).dropWhile (· ≠ '"') = '"' :: rest := by
  apply Text.takeWhile_append_of_head
  · intro c member
    simpa using ne_of_mem_of_not_mem member plain
  · rintro c ⟨⟩
    decide

/-- Behind a contained text the scanner is right inside the literal again. -/
theorem IsContained.run_inside {text : Text} (contained : IsContained text) :
    LiteralState.run .inside text = .inside := by
  rcases text.eq_nil_or_concat with rfl | ⟨others, last, rfl⟩
  · rfl
  · obtain ⟨plain, ended⟩ := contained
    rw [List.concat_eq_append] at plain ended ⊢
    simp only [List.mem_append, List.mem_singleton, not_or] at plain
    have inside : LiteralState.run .inside others ≠ .outside :=
      LiteralState.run_ne_outside (by simp) plain.1
    have noBackslash : last ≠ '\\' := by simpa using ended
    rw [LiteralState.run_append]
    cases behind : LiteralState.run .inside others with
    | outside => contradiction
    | inside =>
        show LiteralState.next .inside last = .inside
        simp [LiteralState.next, noBackslash, Ne.symm plain.2]
    | escaped => rfl

theorem IsContained.isDelimited {text : Text} (contained : IsContained text) :
    IsDelimited text :=
  ⟨contained.plain, contained.run_inside⟩

theorem balanced_inQuotes {text : Text} (delimited : IsDelimited text) :
    Balanced (inQuotes text) := by
  constructor
  · have opened :
        nesting 0 .outside (inQuotes text) = nesting 0 .inside (text ++ ['"']) := by
      simp [inQuotes, nesting, LiteralState.next]
    rw [opened, nesting_append,
      LiteralState.nesting_of_literal (by simp) delimited.plain, delimited.ended]
    rfl
  · have opened :
        Text.beforeComment .outside (inQuotes text) =
          '"' :: Text.beforeComment .inside (text ++ ['"']) := by
      simp [inQuotes, Text.beforeComment, LiteralState.next]
    rw [opened, Text.beforeComment_of_inside (by simp) delimited.plain,
      delimited.ended]
    rfl

/-- A balanced text between brackets is balanced. -/
theorem Balanced.enclosed
    {text : Text} (balanced : Balanced text) {opening closing : Char}
    (opens : opening = '(' ∨ opening = '[')
    (closes : closing = ')' ∨ closing = ']') :
    Balanced (opening :: text ++ [closing]) := by
  have outsideOpening : LiteralState.next .outside opening = .outside := by
    rcases opens with rfl | rfl <;> rfl
  have outsideClosing : LiteralState.next .outside closing = .outside := by
    rcases closes with rfl | rfl <;> rfl
  have notOpening : ¬ (closing = '(' ∨ closing = '[') := by
    rcases closes with rfl | rfl <;> decide
  constructor
  · rw [List.cons_append, nesting, if_pos ⟨rfl, opens⟩, outsideOpening,
      nesting_append, nesting_add balanced.nested 1]
    simp [nesting, notOpening, closes, outsideClosing]
  · have noSlash : opening ≠ '/' := by
      rcases opens with rfl | rfl <;> decide
    have noSlashBehind : closing ≠ '/' := by
      rcases closes with rfl | rfl <;> decide
    rw [List.cons_append, Text.beforeComment,
      if_neg fun starts => noSlash starts.2.1, outsideOpening,
      balanced.beforeComment_append (Or.inr (by simpa using noSlashBehind))]
    simp [Text.beforeComment]

end SchemaCompose
