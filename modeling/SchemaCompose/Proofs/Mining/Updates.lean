import Mathlib.Data.List.Find
import SchemaCompose.Proofs.Mining.Candid
import SchemaCompose.Proofs.Mining.Shapes

/-!
# Actions on update

The key of an action has no sign, so that it is looked for at every place of an
attribute.  In the arguments of a candid relation the search goes from comma to comma:
in each argument it finds the action that the argument asks for
(`Mining.firstMatch_onUpdate?_join`), and so the first one of the relation.
-/

namespace SchemaCompose

namespace Mining

variable {α : Type} {recognise : Option Char → Text → Option α}
  {mark left rest raw cut tail : Text} {before : Option Char} {separator : Char}
  {source : Attribute}

/-! ## Passing over a piece -/

/-- The search passes over a piece without the mark, and over the character behind it
that is none of the mark. -/
theorem IsLed.firstMatch_append_cons
    (led : IsLed mark recognise) (filled : mark ≠ []) (absent : separator ∉ mark)
    (unmarked : ¬ mark <:+: left) (before : Option Char) (rest : Text) :
    firstMatch recognise before (left ++ separator :: rest) =
      firstMatch recognise (some separator) rest := by
  have here : ∀ other, recognise other (separator :: rest) = none := by
    intro other
    apply led
    intro starts
    have inside : mark <+: [] := prefix_of_append_cons absent starts
    exact filled (List.prefix_nil.mp inside)
  rw [Mining.firstMatch_append, firstMatch_cons_of_none (here _)]
  intro other place suffix _
  apply led
  intro starts
  exact unmarked ((prefix_of_append_cons absent starts).isInfix.trans suffix.isInfix)

/-- A recogniser that is not told the character in front finds the same behind any. -/
theorem firstMatch_eq_of_blind (recognise : Text → Option α) (before : Option Char)
    (text : Text) :
    firstMatch (fun _ => recognise) before text =
      firstMatch (fun _ => recognise) none text := by
  cases text with
  | nil => rfl
  | cons c text => rfl

/-! ## One argument -/

/-- What stops an argument: a comma or the bracket behind the last one. -/
def IsStop (separator : Char) : Prop :=
  separator ∈ [',', ')', ']']

theorem isStop_of_closes (closes : separator = ')' ∨ separator = ']') :
    IsStop separator := by
  rcases closes with rfl | rfl
  · simp [IsStop]
  · simp [IsStop]

theorem IsStop.not_mem (isStop : IsStop separator) :
    separator ∉ "onUpdate:".toList ∧ Text.isWord separator = false ∧
      Text.isBlank separator = false := by
  have each : ∀ c ∈ [',', ')', ']'], c ∉ "onUpdate:".toList ∧ Text.isWord c = false ∧
      Text.isBlank c = false := by
    decide
  exact each separator isStop

theorem isWord_of_mem_relationActions :
    ∀ action ∈ relationActions, action ≠ [] ∧ ∀ c ∈ action, Text.isWord c = true := by
  decide

theorem onUpdate?_eq_find? (text : Text) :
    onUpdate? ("onUpdate:" ++ text) =
      relationActions.find? fun action =>
        (Text.after? action (Text.trimStart text)).any Text.atWordEnd := by
  rw [onUpdate?, Text.after?_append]
  rfl

/-- Whether a word stands in front does not depend on what follows behind the end of a
word. -/
theorem atWordEnd_after?_append
    {word text more : Text} (run : ∀ c ∈ word, Text.isWord c = true)
    (filled : text ≠ []) (ends : ∀ c ∈ more.head?, Text.isWord c = false) :
    (Text.after? word (text ++ more)).any Text.atWordEnd =
      (Text.after? word text).any Text.atWordEnd := by
  by_cases starts : word <+: text
  · obtain ⟨behind, rfl⟩ := starts
    rw [List.append_assoc, Text.after?_append, Text.after?_append, Option.any_some,
      Option.any_some]
    cases behind with
    | nil => exact Text.atWordEnd_iff.mpr ends
    | cons c behind => rfl
  · have further : ¬ word <+: text ++ more := by
      intro reaches
      refine starts (prefix_of_append_apart filled (fun c first member => ?_) reaches)
      have word := run c (List.mem_of_mem_tail member)
      rw [ends c first] at word
      contradiction
    rw [Text.after?_of_not_prefix starts, Text.after?_of_not_prefix further]

/-- The action of an argument is recognised up to its stop. -/
theorem onUpdate?_append_stop
    (value : Text) (blank : ∀ c ∈ tail, Text.isBlank c = true)
    (isStop : IsStop separator) (rest : Text) :
    onUpdate? ("onUpdate:" ++ (value ++ (tail ++ separator :: rest))) =
      onUpdate? ("onUpdate:" ++ value) := by
  obtain ⟨_, noWord, visible⟩ := isStop.not_mem
  have ends : ∀ c ∈ (tail ++ separator :: rest).head?, Text.isWord c = false := by
    cases tail with
    | nil =>
        rintro c ⟨⟩
        exact noWord
    | cons d tail =>
        rintro c ⟨⟩
        exact Text.not_isWord_of_isBlank (blank d List.mem_cons_self)
  rw [onUpdate?_eq_find?, onUpdate?_eq_find?]
  apply List.find?_congr
  intro action member
  obtain ⟨filled, run⟩ := isWord_of_mem_relationActions action member
  rw [Text.trimStart, List.dropWhile_append, ← Text.trimStart, ← Text.trimStart]
  cases start : Text.trimStart value with
  | cons c others => exact atWordEnd_after?_append run (by simp) ends
  | nil =>
      obtain ⟨c, word, rfl⟩ := List.exists_cons_of_ne_nil filled
      have other : (separator :: rest).head? ≠ some c := by
        rintro ⟨⟩
        rw [run separator List.mem_cons_self] at noWord
        contradiction
      rw [List.isEmpty_nil, if_pos rfl, Text.trimStart_append_of_blank blank,
        Text.trimStart_cons_of_not_blank visible, Text.after?_of_head? rfl other]
      rfl

/-- An argument whose value is an action is recognised. -/
theorem not_mem_of_onUpdate?
    {value : Text} (none : onUpdate? ("onUpdate:" ++ value) = none) :
    Text.trim value ∉ relationActions := by
  intro member
  rw [onUpdate?_eq_find?, List.find?_eq_none] at none
  apply none (Text.trim value) member
  obtain ⟨tail, whole, blank⟩ := Text.exists_trimEnd_append (Text.trimStart value)
  rw [whole, ← Text.trim, Text.after?_append, Option.any_some, Text.atWordEnd_iff]
  intro c first
  exact Text.not_isWord_of_isBlank (blank c (List.mem_of_mem_head? first))

theorem action?_of_unmarked {argument : Text}
    (unmarked : ¬ "onUpdate:".toList <:+: argument) :
    Arguments.action? argument = none := by
  rw [Arguments.action?,
    Text.after?_of_not_prefix fun starts => unmarked starts.isInfix]
  rfl

theorem action?_append (value : Text) :
    Arguments.action? ("onUpdate:" ++ value) =
      if Text.trim value ∈ relationActions then some (Text.trim value) else none := by
  rw [Arguments.action?, Text.after?_append, Option.map_some, Option.filter_some]
  simp

theorem firstMatch_onUpdate?_of_blank
    (blank : ∀ c ∈ tail, Text.isBlank c = true) (before : Option Char) (rest : Text) :
    firstMatch (fun _ => onUpdate?) before (tail ++ rest) =
      firstMatch (fun _ => onUpdate?) none rest := by
  rw [firstMatch_append, firstMatch_eq_of_blind]
  intro other place suffix filled
  apply isLed_onUpdate?.isBlindToBlanks (by decide) other
  intro c first
  rw [List.head?_append_of_ne_nil _ filled] at first
  exact blank c (suffix.subset (List.mem_of_mem_head? first))

/-- In an argument the search finds what the argument asks for. -/
theorem firstMatch_onUpdate?_argument
    (candid : Arguments.IsCandid (Text.trim raw)) (isStop : IsStop separator)
    (before : Option Char) (rest : Text) :
    firstMatch (fun _ => onUpdate?) before (raw ++ separator :: rest) =
      (Arguments.action? (Text.trim raw)).or
        (firstMatch (fun _ => onUpdate?) none rest) := by
  have known : "onUpdate:".toList ∈ fieldMarks := by decide
  have absent := isStop.not_mem.1
  rcases candid with unmarked | ⟨value, same, further, recognised⟩
  · rw [action?_of_unmarked unmarked, Option.none_or,
      isLed_onUpdate?.firstMatch_append_cons (by decide) absent
        fun inside => unmarked (infix_trim known inside)]
    exact firstMatch_eq_of_blind onUpdate? _ rest
  · obtain ⟨lead, tail, whole, blankLead, blankTail⟩ := Text.exists_trim_append raw
    have regroup : raw ++ separator :: rest =
        lead ++ ("onUpdate:" ++ (value ++ (tail ++ separator :: rest))) := by
      rw [whole, same]
      simp
    have here := onUpdate?_append_stop value blankTail isStop rest
    rw [regroup, firstMatch_onUpdate?_of_blank blankLead, same, action?_append]
    cases found : onUpdate? ("onUpdate:" ++ value) with
    | some action =>
        obtain rfl := recognised action (same ▸ found)
        rw [if_pos (mem_relationActions_of_onUpdate? found)]
        exact firstMatch_of_some (here.trans found)
    | none =>
        -- The key is not looked at again behind its first letter.
        have unmarked : ¬ "onUpdate:".toList <:+: "nUpdate:".toList ++ (value ++ tail) := by
          intro inside
          apply further
          exact infix_of_append_apart (by decide) (not_mem_of_blank known blankTail)
            (infix_of_append_of_head rfl (by decide) inside)
        have passes := isLed_onUpdate?.firstMatch_append_cons (by decide) absent unmarked
          (some 'o') rest
        have split : "onUpdate:" ++ (value ++ (tail ++ separator :: rest)) =
            'o' :: ("nUpdate:".toList ++ (value ++ tail) ++ separator :: rest) := by
          simp
        rw [if_neg (not_mem_of_onUpdate? found), Option.none_or]
        rw [split] at here ⊢
        rw [firstMatch_cons_of_none (here.trans found), passes]
        exact firstMatch_eq_of_blind onUpdate? _ rest

/-- In a row of arguments the search finds the first action that one of them asks
for. -/
theorem firstMatch_onUpdate?_join
    {others : List Text} (blank : ∀ c ∈ tail, Text.isBlank c = true)
    (candid : ∀ part ∈ raw :: others, Arguments.IsCandid (Text.trim part))
    (isStop : IsStop separator) (before : Option Char) (rest : Text) :
    firstMatch (fun _ => onUpdate?) before
        (Text.join "," (raw :: others) ++ (tail ++ separator :: rest)) =
      (((raw :: others).map Text.trim).findSome? Arguments.action?).or
        (firstMatch (fun _ => onUpdate?) none rest) := by
  induction others generalizing raw before with
  | nil =>
      rw [List.forall_mem_singleton] at candid
      have same : Text.trim (raw ++ tail) = Text.trim raw := by
        rw [← Text.trim_trimEnd, Text.trimEnd_append_of_blank raw blank, Text.trim_trimEnd]
      rw [← same] at candid
      rw [Text.join, ← List.append_assoc, firstMatch_onUpdate?_argument candid isStop, same]
      simp
  | cons next others ih =>
      rw [List.forall_mem_cons] at candid
      rw [Arguments.join_comma_cons_cons, List.append_assoc, List.cons_append,
        firstMatch_onUpdate?_argument candid.1 (by simp [IsStop]), ih candid.2,
        ← Option.or_assoc, ← findSome?_cons_eq_or, ← List.map_cons]

/-! ## One attribute -/

theorem findSome?_withoutEmptyLast (items : List Text) :
    (Arguments.withoutEmptyLast items).findSome? Arguments.action? =
      items.findSome? Arguments.action? := by
  rw [Arguments.withoutEmptyLast]
  split_ifs with empty
  · obtain ⟨init, rfl⟩ := List.getLast?_eq_some_iff.mp empty
    have none : Arguments.action? [] = none := by decide
    simp [none]
  · rfl

theorem mem_withoutEmptyLast_or {item : Text} {items : List Text}
    (member : item ∈ items) :
    item ∈ Arguments.withoutEmptyLast items ∨ item = [] := by
  rw [Arguments.withoutEmptyLast]
  split_ifs with empty
  · obtain ⟨init, rfl⟩ := List.getLast?_eq_some_iff.mp empty
    simpa using member
  · exact Or.inl member

theorem firstMatch_onUpdate?_of_unmarked
    (unmarked : ¬ "onUpdate:".toList <:+: cut) (apart : StartsApart rest)
    (before : Option Char) :
    firstMatch (fun _ => onUpdate?) before (cut ++ rest) =
      firstMatch (fun _ => onUpdate?) none rest := by
  rw [isLed_onUpdate?.firstMatch_append (by decide) apart unmarked]
  exact firstMatch_eq_of_blind onUpdate? _ rest

/-- A name holds no colon, and so no key. -/
theorem unmarked_of_isName {name : Text} (isName : Attribute.IsName name) :
    ¬ "onUpdate:".toList <:+: name := fun inside =>
  isName.not_mem (show ':' ≠ '@' ∧ Attribute.isNameChar ':' = false by decide)
    (inside.subset (by decide))

theorem firstMatch_onUpdate?_of_spelled
    (apart : StartsApart rest) (spelled : Attribute.IsSpelled cut source)
    (candid : Attribute.IsCandid cut source) (before : Option Char) :
    firstMatch (fun _ => onUpdate?) before (cut ++ rest) =
      source.action?.or (firstMatch (fun _ => onUpdate?) none rest) := by
  cases spelled with
  | bare isName =>
      have none : Attribute.action? ⟨cut, none⟩ = none := by
        rw [Attribute.action?]
        split_ifs
        · rfl
        · rfl
      rw [none, Option.none_or]
      exact firstMatch_onUpdate?_of_unmarked (unmarked_of_isName isName) apart before
  | @call name raw closing isName _ closes =>
      by_cases relates : name = "@relation"
      · obtain ⟨arguments, splits, each⟩ := candid.relation relates
        obtain ⟨lead, tail, whole, blankLead, blankTail⟩ := Text.exists_trim_append raw
        obtain ⟨part, others, same, rfl⟩ := Arguments.exists_of_split splits
        have parts : Text.trim raw = Text.join "," (part :: others) := same
        have regroup : name ++ '(' :: (raw ++ [closing]) ++ rest =
            name ++ '(' :: (lead ++
              (Text.join "," (part :: others) ++ (tail ++ closing :: rest))) := by
          rw [← parts]
          conv_lhs => rw [whole]
          simp
        have action : Attribute.action? ⟨name, some (Text.trim raw)⟩ =
            ((part :: others).map Text.trim).findSome? Arguments.action? := by
          rw [Attribute.action?, if_pos relates, splits]
          exact findSome?_withoutEmptyLast _
        have every : ∀ own ∈ part :: others, Arguments.IsCandid (Text.trim own) := by
          intro own member
          rcases mem_withoutEmptyLast_or (List.mem_map_of_mem member) with kept | empty
          · exact each _ kept
          · rw [empty]
            exact Or.inl (by decide)
        rw [regroup, action, isLed_onUpdate?.firstMatch_append_cons (by decide) (by decide)
          (unmarked_of_isName isName), firstMatch_onUpdate?_of_blank blankLead,
          firstMatch_onUpdate?_join blankTail every (isStop_of_closes closes)]
      · have none : Attribute.action? ⟨name, some (Text.trim raw)⟩ = none :=
          if_neg relates
        rw [none, Option.none_or]
        refine firstMatch_onUpdate?_of_unmarked (fun inside => ?_) apart before
        rcases infix_append_cons (by decide) inside with inName | inArguments
        · exact unmarked_of_isName isName inName
        · exact candid.plain relates _ rfl
            (infix_trim_of_closed (by decide) closes inArguments)

end Mining

end SchemaCompose
