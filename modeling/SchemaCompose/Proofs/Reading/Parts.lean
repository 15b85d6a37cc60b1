import SchemaCompose.Proofs.Reading.Spelling
import SchemaCompose.Proofs.Schema.Arguments

/-!
# What is read is part of its line

Whatever a scanner cuts out of a line is made of characters of that line, and what it
trims is trimmed: the arguments of an attribute, the members of a list, the value
under a key.  A text that is read from one line therefore has no line boundary in it.
-/

namespace SchemaCompose

/-! ## Lines -/

namespace Text

theorem IsLine.of_subset {text part : Text} (single : IsLine text)
    (inside : part ⊆ text) : IsLine part :=
  fun c member => single c (inside member)

theorem isLine_trim {text : Text} (single : IsLine text) : IsLine (trim text) :=
  single.of_subset (trim_subset text)

theorem cutAt_subset {mark : Char} {text before : Text} {behind : Option Text}
    (cut : cutAt mark text = (before, behind)) :
    before ⊆ text ∧ mark ∉ before ∧ ∀ rest ∈ behind, rest ⊆ text := by
  induction text generalizing before behind with
  | nil =>
      cases cut
      exact ⟨List.Subset.refl _, by simp, by simp⟩
  | cons c text ih =>
      rw [cutAt] at cut
      split_ifs at cut with marked
      · cases cut
        refine ⟨by simp, by simp, ?_⟩
        rintro rest ⟨⟩
        exact List.subset_cons_self c text
      · obtain ⟨inside, absent, others⟩ := ih (Prod.eta (cutAt mark text)).symm
        cases cut
        refine ⟨List.cons_subset_cons c inside, ?_, ?_⟩
        · simpa [absent] using Ne.symm marked
        · intro rest found
          exact List.Subset.trans (others rest found) (List.subset_cons_self c text)

theorem unescapeQuotes_subset (text : Text) : unquote.unescapeQuotes text ⊆ text := by
  induction text using unquote.unescapeQuotes.induct with
  | case1 => exact List.Subset.refl _
  | case2 rest ih =>
      rw [unquote.unescapeQuotes]
      exact List.Subset.trans (List.cons_subset_cons '"' ih)
        (List.subset_cons_self '\\' _)
  | case3 c rest other ih =>
      rw [unquote.unescapeQuotes]
      · exact List.cons_subset_cons c ih
      · exact other

theorem unquote_subset (value : Text) : unquote value ⊆ value := by
  apply List.Subset.trans _ (trim_subset value)
  rw [unquote]
  split
  · rename_i rest quoted
    rw [quoted]
    split
    · exact List.Subset.trans (unescapeQuotes_subset _)
        (List.Subset.trans (List.dropLast_subset rest) (List.subset_cons_self '"' rest))
    · exact List.Subset.refl _
  · exact List.Subset.refl _

end Text

/-! ## Comments -/

namespace Text

variable {text : Text}

/-- The code of a line holds no comment. -/
theorem silent_code (line : Text) :
    beforeComment .outside (code line) = code line := by
  obtain ⟨tail, whole⟩ := prefix_trimEnd (beforeComment .outside line)
  have silent := beforeComment_beforeComment .outside line
  rw [← whole] at silent
  exact (beforeComment_of_append silent).1

theorem quote_not_mem_takeWhile_isBlank (text : Text) :
    '"' ∉ text.takeWhile isBlank := by
  intro member
  have visible := List.mem_takeWhile_imp member
  contradiction

theorem silent_trim (silent : beforeComment .outside text = text) :
    beforeComment .outside (trim text) = trim text := by
  have whole := List.takeWhile_append_dropWhile (p := isBlank) (l := text)
  rw [← whole] at silent
  have behind := (beforeComment_of_append silent).2
  rw [LiteralState.run_outside_of_no_quote (quote_not_mem_takeWhile_isBlank text),
    ← trimStart] at behind
  obtain ⟨tail, trimmed⟩ := prefix_trimEnd (trimStart text)
  rw [← trimmed] at behind
  exact (beforeComment_of_append behind).1

end Text

/-- White space is balanced, as it holds no mark. -/
theorem balanced_of_blank {text : Text} (blank : ∀ c ∈ text, Text.isBlank c = true) :
    Balanced text := by
  apply balanced_of_plain
  intro c member mark
  have visible : ∀ d ∈ ['"', '(', ')', '[', ']', '/'], Text.isBlank d = false := by decide
  have seen := visible c mark
  rw [blank c member] at seen
  contradiction

/-- White space outside of literals changes nothing. -/
theorem nesting_of_blank
    {text : Text} (blank : ∀ c ∈ text, Text.isBlank c = true) (depth : Nat) :
    nesting depth .outside text = some (depth, .outside) := by
  have added := nesting_add (balanced_of_blank blank).nested depth
  rwa [Nat.zero_add] at added

/-- White space at the ends of a text that closes its brackets and literals stands
outside of them. -/
theorem nesting_trim
    {text : Text} (nested : nesting 0 .outside text = some (0, .outside)) :
    nesting 0 .outside (Text.trim text) = some (0, .outside) := by
  have start : nesting 0 .outside (Text.trimStart text) = some (0, .outside) := by
    rw [← List.takeWhile_append_dropWhile (p := Text.isBlank) (l := text),
      nesting_append, nesting_of_blank fun c member => List.mem_takeWhile_imp member]
      at nested
    exact nested
  obtain ⟨tail, whole, blank⟩ := Text.exists_trimEnd_append (Text.trimStart text)
  rw [whole, nesting_append, Option.bind_eq_some_iff] at start
  obtain ⟨⟨depth, state⟩, nested, behind⟩ := start
  rw [Text.trim, nested]
  by_cases outside : state = .outside
  · rw [outside, nesting_of_blank blank] at behind
    rw [outside, behind]
  · have plain : '"' ∉ tail := by
      intro member
      have visible := blank '"' member
      contradiction
    rw [LiteralState.nesting_of_literal outside plain] at behind
    exact absurd (congrArg Prod.snd (Option.some.inj behind))
      (LiteralState.run_ne_outside outside plain)

/-- A balanced text is balanced when it is trimmed. -/
theorem balanced_trim {text : Text} (balanced : Balanced text) :
    Balanced (Text.trim text) :=
  ⟨nesting_trim balanced.nested, Text.silent_trim balanced.silent⟩

/-! ## Arguments -/

namespace Arguments

theorem join_comma_cons_cons (raw next : Text) (others : List Text) :
    Text.join "," (raw :: next :: others) =
      raw ++ ',' :: Text.join "," (next :: others) := by
  rw [Text.join, List.append_assoc]
  rfl

theorem subset_join_comma {raw : Text} {raws : List Text} (member : raw ∈ raws) :
    raw ⊆ Text.join "," raws := by
  induction raws with
  | nil => simp at member
  | cons first others ih =>
      cases others with
      | nil =>
          rw [List.mem_singleton.mp member]
          exact List.Subset.refl _
      | cons next others =>
          rw [join_comma_cons_cons]
          rcases List.mem_cons.mp member with rfl | behind
          · exact List.subset_append_left _ _
          · exact List.Subset.trans (ih behind) (List.Subset.trans
              (List.subset_cons_self ',' _) (List.subset_append_right first _))

/-- The arguments are what stands between the commas that separate them, trimmed. -/
theorem exists_of_splitFrom
    {reading : Reading} {text : Text} {arguments : List Text}
    (read : splitFrom reading text = some arguments) :
    ∃ raw others,
      reading.current.reverse ++ text = Text.join "," (raw :: others) ∧
        arguments = withoutEmptyLast ((raw :: others).map Text.trim) := by
  induction text generalizing reading arguments with
  | nil =>
      rw [splitFrom] at read
      split_ifs at read
      refine ⟨reading.current.reverse, [], List.append_nil _, ?_⟩
      split at read
      · rename_i empty
        cases read
        rw [List.map_singleton, empty]
        rfl
      · rename_i filled
        cases read
        refine (withoutEmptyLast_of_filled ?_).symm
        simpa using filled
  | cons c rest ih =>
      rw [splitFrom] at read
      split_ifs at read with separates
      · obtain ⟨others, further, rfl⟩ := Option.map_eq_some_iff.mp read
        obtain ⟨raw, raws, whole, rfl⟩ := ih further
        obtain rfl : c = ',' := by
          simp only [Reading.separates, Bool.and_eq_true, decide_eq_true_eq] at separates
          exact separates.1.2
        refine ⟨reading.current.reverse, raw :: raws, ?_, ?_⟩
        · rw [join_comma_cons_cons, ← whole]
          rfl
        · exact (withoutEmptyLast_cons_cons _ _ _).symm
      · obtain ⟨raw, raws, whole, same⟩ := ih read
        refine ⟨raw, raws, ?_, same⟩
        rw [← whole, Reading.current_take]
        simp

theorem exists_of_split
    {text : Text} {arguments : List Text} (read : split text = .ok arguments) :
    ∃ raw others, text = Text.join "," (raw :: others) ∧
      arguments = withoutEmptyLast ((raw :: others).map Text.trim) := by
  rw [split] at read
  split at read
  · rename_i found splits
    cases read
    exact exists_of_splitFrom splits
  · contradiction

/-- Every argument is trimmed and part of what is split. -/
theorem isTrimmed_of_split
    {text : Text} {arguments : List Text} (read : split text = .ok arguments) :
    ∀ argument ∈ arguments, Text.IsTrimmed argument ∧ argument ⊆ text := by
  obtain ⟨raw, others, rfl, rfl⟩ := exists_of_split read
  intro argument member
  have inRow : argument ∈ (raw :: others).map Text.trim := by
    rw [withoutEmptyLast] at member
    split_ifs at member
    · exact List.dropLast_subset _ member
    · exact member
  obtain ⟨own, inRaws, rfl⟩ := List.mem_map.mp inRow
  exact ⟨Text.isTrimmed_trim own,
    List.Subset.trans (Text.trim_subset own) (subset_join_comma inRaws)⟩

theorem exists_of_named?
    {key value : Text} {arguments : List Text}
    (found : named? key arguments = some value) :
    ∃ argument ∈ arguments, value ⊆ argument := by
  obtain ⟨argument, member, here⟩ := List.exists_of_findSome?_eq_some found
  refine ⟨argument, member, ?_⟩
  split at here
  · rename_i before behind cut
    split_ifs at here
    cases here
    exact List.Subset.trans (Text.unquote_subset behind)
      ((Text.cutAt_subset cut).2.2 behind rfl)
  · contradiction

/-- The member of a list keeps its name and loses its modifiers. -/
structure IsBare (text : Text) : Prop where
  trimmed : Text.IsTrimmed text
  single : Text.IsLine text
  unmodified : '(' ∉ text

theorem isBare_of_listOf
    {value : Text} {members : List Text} (single : Text.IsLine value)
    (read : listOf value = .ok members) : ∀ member ∈ members, IsBare member := by
  obtain ⟨arguments, splits, same⟩ := Reading.bind_eq_ok.mp read
  obtain rfl := Reading.pure_eq_ok.mp same
  -- The members stand between square brackets, or there are none around them.
  have inValue : ∀ argument ∈ arguments, argument ⊆ value := by
    intro argument member
    split at splits
    · rename_i rest bracketed
      have inRest : rest ⊆ value := by
        apply List.Subset.trans _ (Text.trim_subset value)
        rw [bracketed]
        exact List.subset_cons_self '[' rest
      split_ifs at splits
      · exact List.Subset.trans (isTrimmed_of_split splits argument member).2
          (List.Subset.trans (List.dropLast_subset rest) inRest)
      · exact List.Subset.trans (isTrimmed_of_split splits argument member).2
          (Text.trim_subset value)
    · exact List.Subset.trans (isTrimmed_of_split splits argument member).2
        (Text.trim_subset value)
  rw [List.forall_mem_map]
  intro argument member
  obtain ⟨before, absent, _⟩ :=
    Text.cutAt_subset (Prod.eta (Text.cutAt '(' argument)).symm
  refine ⟨Text.isTrimmed_trim _, ?_, fun mark => absent (Text.trim_subset _ mark)⟩
  exact Text.isLine_trim
    (single.of_subset (List.Subset.trans before (inValue argument member)))

end Arguments

/-! ## Attributes -/

namespace Attribute

/-- The arguments of an attribute as they are scanned from one line. -/
structure IsScanned (source : Attribute) : Prop where
  trimmed : ∀ inner ∈ source.arguments, Text.IsTrimmed inner
  single : ∀ inner ∈ source.arguments, Text.IsLine inner

/-- What holds of every attribute that stands in a text holds of every attribute that
is scanned from it. -/
theorem forall_mem_of_scan
    (Holds : Attribute → Prop) {text : Text} {sources : List Attribute}
    (scanned : scan text = .ok sources)
    (stands : ∀ before cut behind source, text = before ++ cut ++ behind →
      LiteralState.run .outside before = .outside → IsSpelled cut source →
        Holds source) :
    ∀ source ∈ sources, Holds source := by
  obtain ⟨row, spells, rfl⟩ := exists_spells_of_scan scanned
  rw [List.forall_mem_map]
  clear scanned
  induction spells with
  | nil => simp
  | @gap c behind row isBlank further ih =>
      apply ih
      intro before cut later source whole outside spelled
      have plain : c ≠ '"' := by
        rintro rfl
        contradiction
      refine stands (c :: before) cut later source (by rw [whole]; simp) ?_ spelled
      rw [LiteralState.run_cons, LiteralState.next, if_neg plain, outside]
  | @entry cut behind source row spelled further ih =>
      rw [List.forall_mem_cons]
      refine ⟨stands [] cut behind source rfl rfl spelled, ih ?_⟩
      intro before next later other whole outside isNext
      refine stands (cut ++ before) next later other ?_ ?_ isNext
      · rw [whole]
        simp
      · rw [LiteralState.run_append, spelled.run_eq, outside]

/-- Every attribute of a line has arguments of that line. -/
theorem isScanned_of_scan
    {text : Text} {sources : List Attribute} (single : Text.IsLine text)
    (scanned : scan text = .ok sources) : ∀ source ∈ sources, source.IsScanned := by
  apply forall_mem_of_scan IsScanned scanned
  intro before cut behind source whole _ spelled
  have inText : cut ⊆ text := by
    rw [whole]
    exact List.Subset.trans (List.subset_append_right _ _)
      (List.subset_append_left _ _)
  constructor
  · intro inner member
    obtain ⟨_, untrimmed, _, _, _, rfl, _⟩ := spelled.exists_of_mem member
    exact Text.isTrimmed_trim untrimmed
  · intro inner member
    obtain ⟨name, untrimmed, closing, split, _, rfl, _⟩ := spelled.exists_of_mem member
    refine Text.isLine_trim (single.of_subset (List.Subset.trans ?_ inText))
    rw [split]
    intro c inside
    simp [inside]

/-- The arguments of an attribute are balanced if no comment begins in its text. -/
theorem balanced_of_scan
    {text : Text} {sources : List Attribute}
    (silent : Text.beforeComment .outside text = text)
    (scanned : scan text = .ok sources) :
    ∀ source ∈ sources, ∀ inner ∈ source.arguments, Balanced inner := by
  apply forall_mem_of_scan
    (fun source => ∀ inner ∈ source.arguments, Balanced inner) scanned
  intro before cut behind source whole outside spelled inner member
  obtain ⟨name, untrimmed, closing, split, isName, rfl, nested⟩ :=
    spelled.exists_of_mem member
  have noQuote : '"' ∉ name := isName.not_mem (by decide)
  have opened : LiteralState.run .outside (name ++ ['(']) = .outside :=
    LiteralState.run_outside_of_no_quote (by simp [noQuote])
  have parts : text =
      before ++ ((name ++ ['(']) ++ (untrimmed ++ closing :: behind)) := by
    rw [whole, split]
    simp
  rw [parts] at silent
  have own := (Text.beforeComment_of_append silent).2
  rw [outside] at own
  have inside := (Text.beforeComment_of_append own).2
  rw [opened] at inside
  exact balanced_trim ⟨nested, (Text.beforeComment_of_append inside).1⟩

variable {source : Attribute}

theorem IsScanned.getD (isScanned : source.IsScanned) :
    Text.IsLine (source.arguments.getD []) := by
  cases arguments : source.arguments with
  | none => exact Text.isLine_nil
  | some inner => exact isScanned.single inner arguments

/-- The arguments of a scanned attribute stand on one line each. -/
theorem IsScanned.split (isScanned : source.IsScanned) {arguments : List Text}
    (splits : source.split = .ok arguments) :
    ∀ argument ∈ arguments, Text.IsLine argument := by
  intro argument member
  exact isScanned.getD.of_subset
    (Arguments.isTrimmed_of_split splits argument member).2

theorem IsScanned.positional (isScanned : source.IsScanned) {value : Text}
    (read : source.positional = .ok value) : Text.IsLine value := by
  obtain ⟨arguments, splits, further⟩ := Reading.bind_eq_ok.mp read
  have single := isScanned.split splits
  split at further
  · contradiction
  · rename_i first others
    have line := single first List.mem_cons_self
    split at further
    · obtain rfl := Reading.pure_eq_ok.mp further
      apply Text.isLine_trim
      have cut := (Text.cutAt_subset (Prod.eta (Text.cutAt ':' first)).symm).2.2
      cases behind : (Text.cutAt ':' first).2 with
      | none => exact Text.isLine_nil
      | some rest => exact line.of_subset (cut rest behind)
    · obtain rfl := Reading.pure_eq_ok.mp further
      exact line

theorem IsScanned.named? (isScanned : source.IsScanned) {key : Text}
    {value : Option Text} (read : source.named? key = .ok value) :
    ∀ text ∈ value, Text.IsLine text := by
  obtain ⟨arguments, splits, rfl⟩ := Reading.map_eq_ok.mp read
  intro text found
  obtain ⟨argument, member, inside⟩ := Arguments.exists_of_named? found
  exact (isScanned.split splits argument member).of_subset inside

theorem IsScanned.listNamed (isScanned : source.IsScanned) {key : Text}
    {members : List Text} (read : source.listNamed key = .ok members) :
    ∀ member ∈ members, Arguments.IsBare member := by
  obtain ⟨value, named, further⟩ := Reading.bind_eq_ok.mp read
  cases value with
  | none =>
      obtain rfl := Reading.pure_eq_ok.mp further
      simp
  | some value =>
      exact Arguments.isBare_of_listOf (isScanned.named? named value rfl) further

end Attribute

end SchemaCompose
