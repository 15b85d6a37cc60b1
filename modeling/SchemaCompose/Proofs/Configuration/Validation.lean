import SchemaCompose.Proofs.Configuration.Failures

/-!
# Which configurations are accepted

A configuration is a mapping with a row of mixers, each of which has an input and an
output (`View.IsConfiguration`); the jobs of one are read off its mixers (`View.Asks`).
A row of mixers is refused at the first that is none, for its input before its output
(`Configuration.exists_jobsFrom_error`).  All of this is said of what a value shows of
itself, whatever values are and whichever letters their texts are made of; it decides
what is loaded from a file whose text a reader takes for the value
(`Configuration.load_decides`).
-/

namespace SchemaCompose

/-! ## White space at the ends -/

namespace Alphabet

variable {Letter : Type} [Alphabet Letter] {letters : List Letter} {c : Letter}

/-- Neither end of the letters is white space. -/
def IsTrimmed (letters : List Letter) : Prop :=
  (∀ c ∈ letters.head?, isBlank c = false) ∧ ∀ c ∈ letters.getLast?, isBlank c = false

/-- White space is trimmed off at either end. -/
theorem exists_trim_append (letters : List Letter) :
    ∃ before behind, letters = before ++ trim letters ++ behind ∧
      (∀ c ∈ before, isBlank c = true) ∧ ∀ c ∈ behind, isBlank c = true := by
  refine ⟨letters.takeWhile isBlank,
    ((letters.dropWhile isBlank).reverse.takeWhile isBlank).reverse, ?_,
    fun c => List.mem_takeWhile_imp, fun c member => ?_⟩
  · rw [trim, List.append_assoc, ← List.reverse_append, List.takeWhile_append_dropWhile,
      List.reverse_reverse, List.takeWhile_append_dropWhile]
  · exact List.mem_takeWhile_imp (List.mem_reverse.mp member)

theorem isTrimmed_trim (letters : List Letter) : IsTrimmed (trim letters) := by
  constructor
  · intro c first
    obtain ⟨behind, whole⟩ : trim letters <+: letters.dropWhile isBlank := by
      rw [trim, ← List.reverse_suffix, List.reverse_reverse]
      exact List.dropWhile_suffix isBlank
    have visible := List.head?_dropWhile_not isBlank letters
    rw [← whole, List.head?_append, first] at visible
    exact visible
  · intro c last
    have visible := List.head?_dropWhile_not isBlank (letters.dropWhile isBlank).reverse
    rw [trim, List.getLast?_reverse] at last
    rw [last] at visible
    exact visible

theorem trim_eq_nil_iff : trim letters = [] ↔ ∀ c ∈ letters, isBlank c = true := by
  obtain ⟨before, behind, whole, blank, blankBehind⟩ := exists_trim_append letters
  constructor
  · intro empty c member
    rw [whole, empty, List.append_nil, List.mem_append] at member
    exact member.elim (blank c) (blankBehind c)
  · intro all
    by_contra filled
    obtain ⟨c, rest, cut⟩ := List.exists_cons_of_ne_nil filled
    have inside : c ∈ letters := by
      rw [whole, cut]
      simp
    have visible := (isTrimmed_trim letters).1 c (by rw [cut]; rfl)
    rw [all c inside] at visible
    contradiction

end Alphabet

namespace View

variable {Letter Value : Type}

section Definitions

variable [Alphabet Letter] [DecidableEq Letter] [Shown Letter Value]

/-! ## What a configuration is -/

/-- The value has a row of items: it is a sequence of them, or octets, each of which
counts as a number. -/
inductive HasItems : View Letter Value → List (View Letter Value) → Prop where
  | sequence (items : List Value) : HasItems (.sequence items) (items.map Shown.view)
  | octets (row : List UInt8) : HasItems (.octets row) (row.map fun _ => .number)

/-- The value is a text with something else than white space in it. -/
def IsVisible (value : View Letter Value) : Prop :=
  ∃ text, value = .text text ∧ ∃ c ∈ text, Alphabet.isBlank c = false

/-- The value is one pattern, or a row of at least one. -/
def IsInput (value : View Letter Value) : Prop :=
  value.IsVisible ∨
    ∃ items, value.HasItems items ∧ items ≠ [] ∧ ∀ item ∈ items, item.IsVisible

/-- The value is a mapping. -/
def IsMapping (value : View Letter Value) : Prop :=
  ∃ entries, value = .mapping entries

/-- The value is a mapping with an input. -/
def HasInput (value : View Letter Value) : Prop :=
  ∃ input, value.get? "input" = some input ∧ input.IsInput

/-- The value is a mapping with an input and an output. -/
structure IsMixer (value : View Letter Value) : Prop where
  isMapping : value.IsMapping
  hasInput : value.HasInput
  hasOutput : ∃ output, value.get? "output" = some output ∧ output.IsVisible

/-- The value is a mapping with the given row of mixers, whatever they are. -/
def HasMixers (value : View Letter Value) (items : List (View Letter Value)) : Prop :=
  ∃ mixers, value.get? "mixers" = some mixers ∧ mixers.HasItems items

/-- The value is a mapping with a row of at least one mixer. -/
def IsConfiguration (value : View Letter Value) : Prop :=
  value.IsMapping ∧
    ∃ items, value.HasMixers items ∧ items ≠ [] ∧ ∀ item ∈ items, item.IsMixer

/-! ## What a configuration asks for -/

/-- The value is the text with or without white space at its ends. -/
def Gives (value : View Letter Value) (text : List Letter) : Prop :=
  ∃ raw, value = .text raw ∧ text = Alphabet.trim raw

/-- The value is the one pattern, or the row of the patterns in their order. -/
def Lists (value : View Letter Value) (patterns : List (List Letter)) : Prop :=
  (∃ pattern, value.Gives pattern ∧ patterns = [pattern]) ∨
    ∃ items, value.HasItems items ∧ List.Forall₂ Gives items patterns

/-- The value is a mapping with the patterns and the output of the job. -/
structure Asks (value : View Letter Value) (job : JobOver Letter) : Prop where
  inputs : ∃ input, value.get? "input" = some input ∧ input.Lists job.inputs
  output : ∃ output, value.get? "output" = some output ∧ output.Gives job.output

end Definitions

/-! ## Texts -/

section Texts

variable [Alphabet Letter]

theorem isVisible_text_iff {raw : List Letter} :
    (View.text raw : View Letter Value).IsVisible ↔ Alphabet.trim raw ≠ [] := by
  simp [IsVisible, Alphabet.trim_eq_nil_iff]

/-- What a visible text gives is not empty, and has no white space at its ends. -/
theorem IsVisible.of_gives {value : View Letter Value} {text : List Letter} (isVisible : value.IsVisible)
    (gives : value.Gives text) : text ≠ [] ∧ Alphabet.IsTrimmed text := by
  obtain ⟨raw, rfl, rfl⟩ := gives
  exact ⟨isVisible_text_iff.mp isVisible, Alphabet.isTrimmed_trim raw⟩

theorem IsVisible.exists_gives {value : View Letter Value} (isVisible : value.IsVisible) :
    ∃ text, value.Gives text := by
  obtain ⟨raw, same, -⟩ := isVisible
  exact ⟨_, raw, same, rfl⟩

end Texts

/-! ## Items -/

variable [Shown Letter Value]

theorem hasItems_iff {value : View Letter Value} {items : List (View Letter Value)} :
    value.HasItems items ↔ value.items? = some items := by
  constructor
  · rintro (_ | _) <;> rfl
  · intro found
    cases value with
    | sequence own =>
        obtain rfl := Option.some.inj found
        exact .sequence own
    | octets row =>
        obtain rfl := Option.some.inj found
        exact .octets row
    | _ => cases found

theorem HasItems.unique {value : View Letter Value} {items others : List (View Letter Value)}
    (hasItems : value.HasItems items) (hasOthers : value.HasItems others) :
    items = others :=
  Option.some.inj ((hasItems_iff.mp hasItems).symm.trans (hasItems_iff.mp hasOthers))

variable [Alphabet Letter]

/-! ## Inputs -/

theorem IsInput.ne_null {value : View Letter Value} (isInput : value.IsInput) : value ≠ .null := by
  rintro rfl
  rcases isInput with ⟨text, same, -⟩ | ⟨items, hasItems, -⟩ <;> contradiction

theorem isInput_text_iff {raw : List Letter} :
    (View.text raw : View Letter Value).IsInput ↔ (View.text raw : View Letter Value).IsVisible := by
  refine or_iff_left ?_
  rintro ⟨items, ⟨⟩, -⟩

theorem lists_text_iff {raw : List Letter} {patterns : List (List Letter)} :
    (View.text raw : View Letter Value).Lists patterns ↔ patterns = [Alphabet.trim raw] := by
  constructor
  · rintro (⟨pattern, ⟨other, same, rfl⟩, rfl⟩ | ⟨items, ⟨⟩, -⟩)
    rw [View.text.inj same]
  · rintro rfl
    exact Or.inl ⟨_, ⟨raw, rfl, rfl⟩, rfl⟩

theorem IsInput.ne_nil_of_lists {value : View Letter Value} {patterns : List (List Letter)}
    (isInput : value.IsInput) (lists : value.Lists patterns) : patterns ≠ [] := by
  rcases lists with ⟨pattern, -, rfl⟩ | ⟨items, hasItems, gives⟩
  · exact List.cons_ne_nil _ _
  rintro rfl
  obtain rfl := List.forall₂_nil_right_iff.mp gives
  rcases isInput with ⟨raw, rfl, -⟩ | ⟨others, hasOthers, filled, -⟩
  · cases hasItems
  · exact filled (hasOthers.unique hasItems)

/-- A value that is no text has patterns only if it has items. -/
theorem isInput_and_lists_iff {value : View Letter Value} {patterns : List (List Letter)}
    (other : ∀ raw, value ≠ .text raw) :
    value.IsInput ∧ value.Lists patterns ↔
      ∃ items, value.HasItems items ∧ items ≠ [] ∧
        (∀ item ∈ items, item.IsVisible) ∧ List.Forall₂ Gives items patterns := by
  constructor
  · rintro ⟨isInput, lists⟩
    rcases isInput with ⟨raw, same, -⟩ | ⟨items, hasItems, filled, visible⟩
    · exact absurd same (other raw)
    rcases lists with ⟨_, ⟨raw, same, -⟩, -⟩ | ⟨others, hasOthers, gives⟩
    · exact absurd same (other raw)
    obtain rfl := hasItems.unique hasOthers
    exact ⟨items, hasItems, filled, visible, gives⟩
  · rintro ⟨items, hasItems, filled, visible, gives⟩
    exact ⟨Or.inr ⟨items, hasItems, filled, visible⟩, Or.inr ⟨items, hasItems, gives⟩⟩

theorem IsInput.exists_lists {value : View Letter Value} (isInput : value.IsInput) :
    ∃ patterns, value.Lists patterns := by
  rcases isInput with isVisible | ⟨items, hasItems, -, visible⟩
  · obtain ⟨pattern, gives⟩ := isVisible.exists_gives
    exact ⟨_, Or.inl ⟨pattern, gives, rfl⟩⟩
  · choose! text gives using fun item member => (visible item member).exists_gives
    refine ⟨items.map text, Or.inr ⟨items, hasItems, ?_⟩⟩
    rwa [List.forall₂_map_right_iff, List.forall₂_same]

theorem IsInput.of_lists {value : View Letter Value} {patterns : List (List Letter)} (isInput : value.IsInput)
    (lists : value.Lists patterns) :
    ∀ pattern ∈ patterns, pattern ≠ [] ∧ Alphabet.IsTrimmed pattern := by
  intro pattern member
  by_cases isText : ∃ raw, value = .text raw
  · obtain ⟨raw, rfl⟩ := isText
    obtain rfl := lists_text_iff.mp lists
    obtain rfl := List.mem_singleton.mp member
    exact (isInput_text_iff.mp isInput).of_gives ⟨raw, rfl, rfl⟩
  · push Not at isText
    obtain ⟨items, -, -, visible, gives⟩ :=
      (isInput_and_lists_iff isText).mp ⟨isInput, lists⟩
    obtain ⟨item, inItems, gives⟩ := Reading.exists_of_mem_results gives member
    exact (visible item inItems).of_gives gives

/-! ## Mixers -/

variable [DecidableEq Letter]

theorem HasMixers.unique {value : View Letter Value} {items others : List (View Letter Value)}
    (hasMixers : value.HasMixers items) (hasOthers : value.HasMixers others) :
    items = others := by
  obtain ⟨mixers, has, hasItems⟩ := hasMixers
  obtain ⟨again, hasAgain, hasOthers⟩ := hasOthers
  obtain rfl := Option.some.inj (has.symm.trans hasAgain)
  exact hasItems.unique hasOthers

theorem present?_eq_some_iff {key : Text} {value found : View Letter Value} :
    value.present? key = some found ↔ value.get? key = some found ∧ found ≠ .null := by
  rw [present?]
  split
  · rename_i null
    simp [null, eq_comm]
  · rename_i other
    exact ⟨fun same => ⟨same, fun null => other (null ▸ same)⟩, And.left⟩

theorem isMapping_of_get? {key : Text} {value found : View Letter Value}
    (has : value.get? key = some found) : value.IsMapping := by
  cases value with
  | mapping entries => exact ⟨entries, rfl⟩
  | _ => cases has

/-- A mixer asks for no job without patterns, and for no blank one. -/
theorem IsMixer.of_asks {value : View Letter Value} {job : JobOver Letter} (isMixer : value.IsMixer)
    (asks : value.Asks job) :
    job.inputs ≠ [] ∧ (∀ pattern ∈ job.inputs, pattern ≠ [] ∧ Alphabet.IsTrimmed pattern) ∧
      job.output ≠ [] ∧ Alphabet.IsTrimmed job.output := by
  obtain ⟨-, ⟨input, has, isInput⟩, ⟨output, hasOutput, visible⟩⟩ := isMixer
  obtain ⟨⟨other, hasOther, lists⟩, ⟨otherOutput, hasOtherOutput, gives⟩⟩ := asks
  obtain rfl := Option.some.inj (has.symm.trans hasOther)
  obtain rfl := Option.some.inj (hasOutput.symm.trans hasOtherOutput)
  exact ⟨isInput.ne_nil_of_lists lists, isInput.of_lists lists, visible.of_gives gives⟩

theorem IsMixer.exists_asks {value : View Letter Value} (isMixer : value.IsMixer) :
    ∃ job, value.Asks job := by
  obtain ⟨input, has, isInput⟩ := isMixer.hasInput
  obtain ⟨output, hasOutput, visible⟩ := isMixer.hasOutput
  obtain ⟨inputs, lists⟩ := isInput.exists_lists
  obtain ⟨text, gives⟩ := visible.exists_gives
  exact ⟨⟨inputs, text⟩, ⟨input, has, lists⟩, ⟨output, hasOutput, gives⟩⟩

end View

/-- The wording of a fault names the mixer of the number for what is wrong with it: that
it is no mapping, or else its input, or else its output. -/
structure ConfigurationFault.Blames {Letter Value : Type} [Alphabet Letter]
    [DecidableEq Letter] [Shown Letter Value] (fault : ConfigurationFault) (index : Nat)
    (mixer : View Letter Value) : Prop where
  mapping : ¬ mixer.IsMapping → fault.message =
    ("Configuration section '" : Text) ++ ConfigurationFault.mixer index ++
      ("' must be a mapping." : Text)
  input : mixer.IsMapping → ¬ mixer.HasInput →
    ConfigurationFault.mixer index ++ (".input" : Text) <+: fault.message
  output : mixer.IsMapping → mixer.HasInput →
    ConfigurationFault.mixer index ++ (".output" : Text) <+: fault.message

namespace Configuration

variable {Letter Value : Type} [Alphabet Letter]

/-! ## One mixer -/

section Mixer

variable {index : Nat} {part : TextPart} {value : View Letter Value}
  {patterns : List (List Letter)}

theorem partText_eq_ok_iff {text : List Letter} :
    partText index part value = .ok text ↔ value.IsVisible ∧ value.Gives text := by
  cases value with
  | text raw =>
      rw [View.isVisible_text_iff]
      simp only [partText, View.Gives, View.text.injEq, exists_eq_left']
      cases Alphabet.trim raw <;> simp [eq_comm]
  | _ => simp [partText, View.IsVisible, View.Gives]

/-- A part of a mixer that is refused is named by the fault. -/
theorem prefix_message_of_partText {fault : ConfigurationFault}
    (refused : partText index part value = .error fault) :
    ConfigurationFault.mixer index ++ (("." : Text) ++ part.name) <+: fault.message := by
  rw [← List.append_assoc]
  rw [partText.eq_def] at refused
  split at refused
  · split at refused
    · obtain rfl := Except.error.inj refused
      exact ⟨_, rfl⟩
    · cases refused
  · obtain rfl := Except.error.inj refused
    exact ⟨_, rfl⟩

variable [Shown Letter Value]

theorem patterns_eq_ok_iff (filled : patterns ≠ []) :
    Configuration.patterns index value = .ok patterns ↔
      value.IsInput ∧ value.Lists patterns := by
  rw [Configuration.patterns.eq_def]
  split
  · rename_i raw
    rw [View.isInput_text_iff, View.isVisible_text_iff, View.lists_text_iff,
      Except.ok.injEq]
    split_ifs with blank
    · simp [blank, filled.symm]
    · simp [blank, eq_comm]
  · rename_i items other found
    rw [View.isInput_and_lists_iff other, Reading.mapM_eq_ok]
    simp only [partText_eq_ok_iff, List.forall₂_and_left, View.hasItems_iff, found,
      Option.some.injEq, exists_eq_left', iff_and_self]
    rintro ⟨-, gives⟩ rfl
    exact filled (List.forall₂_nil_left_iff.mp gives)
  · rename_i other none
    simp [View.isInput_and_lists_iff other, View.hasItems_iff, none]

theorem inputs_some_eq_ok_iff :
    inputs index (some value) = .ok patterns ↔ value.IsInput ∧ value.Lists patterns := by
  rw [inputs, Reading.bind_eq_ok]
  constructor
  · rintro ⟨found, read, rest⟩
    cases found with
    | nil => cases rest
    | cons pattern others =>
        obtain rfl := Reading.pure_eq_ok.mp rest
        exact (patterns_eq_ok_iff (List.cons_ne_nil _ _)).mp read
  · intro accepted
    have filled := accepted.1.ne_nil_of_lists accepted.2
    refine ⟨patterns, (patterns_eq_ok_iff filled).mpr accepted, ?_⟩
    obtain ⟨pattern, others, rfl⟩ := List.exists_cons_of_ne_nil filled
    rfl

/-- An input that is refused is named by the fault. -/
theorem prefix_message_of_inputs {input : Option (View Letter Value)}
    {fault : ConfigurationFault}
    (refused : inputs index input = .error fault) :
    ConfigurationFault.mixer index ++ (".input" : Text) <+: fault.message := by
  have wording : ∀ {rest : Text}, ConfigurationFault.mixer index ++ (".input" : Text) <+:
      ConfigurationFault.mixer index ++ ((".input" : Text) ++ rest) :=
    fun {rest} => ⟨rest, List.append_assoc ..⟩
  cases input with
  | none =>
      obtain rfl := Except.error.inj refused
      exact wording
  | some input =>
      rcases Reading.bind_eq_error.mp refused with first | ⟨found, -, rest⟩
      · rw [Configuration.patterns.eq_def] at first
        split at first
        · cases first
        · obtain ⟨item, -, fails⟩ := Reading.exists_mem_of_mapM_eq_error first
          exact wording.trans (prefix_message_of_partText fails)
        · obtain rfl := Except.error.inj first
          exact wording
      · cases found with
        | nil =>
            obtain rfl := Except.error.inj rest
            exact wording
        | cons => cases rest

variable [DecidableEq Letter]

/-- The input of a mixer is read exactly if it is one. -/
theorem inputs_eq_ok_iff :
    inputs index (value.present? "input") = .ok patterns ↔
      ∃ input, value.get? "input" = some input ∧ input.IsInput ∧ input.Lists patterns := by
  constructor
  · intro read
    cases found : value.present? "input" with
    | none =>
        rw [found] at read
        cases read
    | some input =>
        rw [found, inputs_some_eq_ok_iff] at read
        exact ⟨input, (View.present?_eq_some_iff.mp found).1, read⟩
  · rintro ⟨input, has, accepted⟩
    rw [View.present?_eq_some_iff.mpr ⟨has, accepted.1.ne_null⟩]
    exact inputs_some_eq_ok_iff.mpr accepted

/-- A mixer is read exactly if it is one, and then it asks for its job. -/
theorem job_eq_ok_iff {job : JobOver Letter} :
    Configuration.job index value = .ok job ↔ value.IsMixer ∧ value.Asks job := by
  constructor
  · intro read
    cases value with
    | mapping entries =>
        obtain ⟨inputs, first, rest⟩ := Reading.bind_eq_ok.mp read
        obtain ⟨output, second, made⟩ := Reading.bind_eq_ok.mp rest
        obtain rfl := Reading.pure_eq_ok.mp made
        obtain ⟨input, has, isInput, lists⟩ := inputs_eq_ok_iff.mp first
        obtain ⟨visible, gives⟩ := partText_eq_ok_iff.mp second
        obtain ⟨raw, isText, -⟩ := id gives
        have hasOutput : (View.mapping entries).get? "output" = some (.text raw) := by
          cases found : (View.mapping entries).get? "output" with
          | none => simp only [found, Option.getD_none, reduceCtorEq] at isText
          | some output => rw [← isText, found, Option.getD_some]
        rw [isText] at visible gives
        exact ⟨⟨⟨entries, rfl⟩, ⟨input, has, isInput⟩, ⟨_, hasOutput, visible⟩⟩,
          ⟨input, has, lists⟩, ⟨_, hasOutput, gives⟩⟩
    | _ => cases read
  · rintro ⟨⟨⟨entries, rfl⟩, ⟨input, has, isInput⟩, ⟨output, hasOutput, visible⟩⟩,
      ⟨other, hasOther, lists⟩, ⟨otherOutput, hasOtherOutput, gives⟩⟩
    obtain rfl := Option.some.inj (has.symm.trans hasOther)
    obtain rfl := Option.some.inj (hasOutput.symm.trans hasOtherOutput)
    have first : inputs index ((View.mapping entries).present? "input") = .ok job.inputs :=
      inputs_eq_ok_iff.mpr ⟨input, has, isInput, lists⟩
    have second : partText index .output output = .ok job.output :=
      partText_eq_ok_iff.mpr ⟨visible, gives⟩
    rw [Configuration.job.eq_def]
    simp only [first, Reading.ok_bind, hasOutput, Option.getD_some, second]
    rfl

/-- What is no mixer is refused, and the fault says what is wrong with it. -/
theorem exists_job_error (unfit : ¬ value.IsMixer) :
    ∃ fault, Configuration.job index value = .error fault ∧ fault.Blames index value := by
  cases read : Configuration.job index value with
  | ok job => exact absurd (job_eq_ok_iff.mp read).1 unfit
  | error fault =>
      refine ⟨fault, rfl, ?_⟩
      rw [Configuration.job.eq_def] at read
      split at read
      · rename_i entries
        have isMapping : (View.mapping entries : View Letter Value).IsMapping := ⟨entries, rfl⟩
        rcases Reading.bind_eq_error.mp read with first | ⟨patterns, first, rest⟩
        · have noInput : ¬ (View.mapping entries).HasInput := by
            rintro ⟨input, has, isInput⟩
            obtain ⟨patterns, lists⟩ := isInput.exists_lists
            cases first.symm.trans (inputs_eq_ok_iff.mpr ⟨input, has, isInput, lists⟩)
          exact ⟨absurd isMapping, fun _ _ => prefix_message_of_inputs first,
            fun _ hasInput => absurd hasInput noInput⟩
        · obtain ⟨input, has, isInput, -⟩ := inputs_eq_ok_iff.mp first
          rcases Reading.bind_eq_error.mp rest with second | ⟨output, -, none⟩
          · exact ⟨absurd isMapping, fun _ absent => absurd ⟨input, has, isInput⟩ absent,
              fun _ _ => prefix_message_of_partText second⟩
          · cases none
      · rename_i other
        obtain rfl := Except.error.inj read
        have noMapping : ¬ value.IsMapping := by
          rintro ⟨entries, same⟩
          exact other entries same
        exact ⟨fun _ => rfl, fun isMapping => absurd isMapping noMapping,
          fun isMapping => absurd isMapping noMapping⟩

end Mixer

variable [DecidableEq Letter] [Shown Letter Value]

/-! ## A row of mixers -/

section Mixers

variable {index : Nat} {items : List (View Letter Value)} {jobs : List (JobOver Letter)}

theorem jobsFrom_eq_ok_iff :
    jobsFrom index items = .ok jobs ↔
      (∀ item ∈ items, item.IsMixer) ∧ List.Forall₂ View.Asks items jobs := by
  induction items generalizing index jobs with
  | nil => simp [jobsFrom, eq_comm]
  | cons item items ih =>
      rw [List.forall_mem_cons, List.forall₂_cons_left_iff, jobsFrom]
      simp only [Reading.bind_eq_ok, Reading.pure_eq_ok, job_eq_ok_iff, ih]
      constructor
      · rintro ⟨first, ⟨isMixer, asks⟩, rest, ⟨others, behind⟩, rfl⟩
        exact ⟨⟨isMixer, others⟩, first, rest, asks, behind, rfl⟩
      · rintro ⟨⟨isMixer, others⟩, first, rest, asks, behind, rfl⟩
        exact ⟨first, ⟨isMixer, asks⟩, rest, ⟨others, behind⟩, rfl⟩

/-- A row is refused for the first item that is no mixer. -/
theorem exists_jobsFrom_error {before behind : List (View Letter Value)} {item : View Letter Value}
    (mixers : ∀ earlier ∈ before, earlier.IsMixer) (unfit : ¬ item.IsMixer) :
    ∃ fault, jobsFrom index (before ++ item :: behind) = .error fault ∧
      fault.Blames (index + before.length) item := by
  induction before generalizing index with
  | nil =>
      obtain ⟨fault, refused, blames⟩ :
          ∃ fault, job index item = .error fault ∧ fault.Blames index item :=
        exists_job_error unfit
      exact ⟨fault, Reading.bind_eq_error.mpr (Or.inl refused), blames⟩
  | cons earlier before ih =>
      rw [List.forall_mem_cons] at mixers
      obtain ⟨fault, refused, blames⟩ := @ih (index + 1) mixers.2
      obtain ⟨job, asks⟩ := mixers.1.exists_asks
      refine ⟨fault, Reading.bind_eq_error.mpr (Or.inr ⟨job,
        job_eq_ok_iff.mpr ⟨mixers.1, asks⟩, ?_⟩), ?_⟩
      · exact Reading.bind_eq_error.mpr (Or.inl refused)
      · rwa [List.length_cons, Nat.add_comm before.length, ← Nat.add_assoc]

end Mixers

/-! ## The file at a path -/

section Files

variable {value : View Letter Value} {jobs : List (JobOver Letter)}

theorem jobsOfMixers_eq_ok_iff :
    jobsOfMixers value = .ok jobs ↔
      ∃ items, value.HasItems items ∧ items ≠ [] ∧ (∀ item ∈ items, item.IsMixer) ∧
        List.Forall₂ View.Asks items jobs := by
  simp only [View.hasItems_iff]
  rw [jobsOfMixers]
  split
  · rename_i none
    simp [none]
  · rename_i empty
    simp [empty]
  · rename_i items filled found
    simp only [found, Option.some.injEq, exists_eq_left', jobsFrom_eq_ok_iff, ne_eq]
    exact (and_iff_right filled).symm

theorem jobsOf_mapping_eq_ok_iff {entries : List (Value × Value)} :
    jobsOf (.mapping entries) = .ok jobs ↔
      ∃ mixers, (View.mapping entries).get? "mixers" = some mixers ∧
        jobsOfMixers mixers = .ok jobs := by
  rw [jobsOf]
  constructor
  · intro read
    cases found : (View.mapping entries).present? "mixers" with
    | none =>
        rw [found] at read
        cases read
    | some mixers =>
        rw [found] at read
        exact ⟨mixers, (View.present?_eq_some_iff.mp found).1, read⟩
  · rintro ⟨mixers, has, read⟩
    have notNull : mixers ≠ .null := by
      rintro rfl
      cases read
    rw [View.present?_eq_some_iff.mpr ⟨has, notNull⟩]
    exact read

/-- The jobs are found exactly if the value is a configuration. -/
theorem jobsOf_eq_ok_iff :
    jobsOf value = .ok jobs ↔ value.IsConfiguration ∧
      ∃ items, value.HasMixers items ∧ List.Forall₂ View.Asks items jobs := by
  constructor
  · intro read
    cases value with
    | mapping entries =>
        obtain ⟨mixers, has, read⟩ := jobsOf_mapping_eq_ok_iff.mp read
        obtain ⟨items, hasItems, filled, each, asks⟩ := jobsOfMixers_eq_ok_iff.mp read
        exact ⟨⟨⟨entries, rfl⟩, items, ⟨mixers, has, hasItems⟩, filled, each⟩,
          items, ⟨mixers, has, hasItems⟩, asks⟩
    | _ => cases read
  · rintro ⟨⟨⟨entries, rfl⟩, items, ⟨mixers, has, hasItems⟩, filled, each⟩,
      others, ⟨again, hasAgain, hasOthers⟩, asks⟩
    obtain rfl := Option.some.inj (has.symm.trans hasAgain)
    obtain rfl := hasItems.unique hasOthers
    exact jobsOf_mapping_eq_ok_iff.mpr ⟨mixers, has,
      jobsOfMixers_eq_ok_iff.mpr ⟨items, hasItems, filled, each, asks⟩⟩

theorem exists_jobsOf_iff :
    (∃ jobs, jobsOf value = .ok jobs) ↔ value.IsConfiguration := by
  constructor
  · rintro ⟨jobs, made⟩
    exact (jobsOf_eq_ok_iff.mp made).1
  · rintro ⟨isMapping, items, hasMixers, filled, mixers⟩
    choose! job asks using fun item member => (mixers item member).exists_asks
    refine ⟨items.map job, jobsOf_eq_ok_iff.mpr
      ⟨⟨isMapping, items, hasMixers, filled, mixers⟩, items, hasMixers, ?_⟩⟩
    rwa [List.forall₂_map_right_iff, List.forall₂_same]

/-- A row of mixers is refused for the first item that is none. -/
theorem exists_jobsOf_error {before behind : List (View Letter Value)} {item : View Letter Value}
    (hasMixers : value.HasMixers (before ++ item :: behind))
    (mixers : ∀ earlier ∈ before, earlier.IsMixer) (unfit : ¬ item.IsMixer) :
    ∃ fault, jobsOf value = .error fault ∧ fault.Blames before.length item := by
  obtain ⟨row, has, hasItems⟩ := hasMixers
  obtain ⟨entries, rfl⟩ := View.isMapping_of_get? has
  obtain ⟨fault, refused, blames⟩ :
      ∃ fault, jobsFrom 0 (before ++ item :: behind) = .error fault ∧
        fault.Blames (0 + before.length) item := exists_jobsFrom_error mixers unfit
  refine ⟨fault, ?_, Nat.zero_add before.length ▸ blames⟩
  have notNull : row ≠ .null := by
    rintro rfl
    cases hasItems
  rw [jobsOf, View.present?_eq_some_iff.mpr ⟨has, notNull⟩]
  dsimp only
  rw [jobsOfMixers, View.hasItems_iff.mp hasItems]
  cases before <;> exact refused

/-- The reader takes the text of the file at a path for the value. -/
def Holds (reader : Reader Value) (disk : Disk) (path : Path) (value : Value) : Prop :=
  ∃ text, disk.readText path = .ok text ∧ reader text = .ok value

/-- What a file is taken for decides what is loaded from it. -/
theorem load_of_holds {reader : Reader Value} {disk : Disk} {path : Path} {value : Value}
    (holds : Holds reader disk path value) :
    load reader disk path =
      ((jobsOf (Shown.view value)).mapError ConfigurationFailure.invalid).map fun jobs =>
        { path, jobs } := by
  obtain ⟨text, read, made⟩ := holds
  obtain ⟨entry, status⟩ := exists_status_of_readText read
  rw [load, status, read]
  simp only [Except.mapError, Reading.ok_bind, made]
  cases jobsOf (Shown.view value) <;> rfl

/--
Whatever a reader of texts takes the file at a path for is loaded exactly if it shows a
configuration: a mapping with a row of at least one mixer.  Then there is one job for each
mixer in their order, with the patterns in their order and every text without the white
space at its ends, so that no job lacks patterns and no pattern and no output is blank.  A
row with something that is no mixer is refused, with a fault that names the first such
item by its number, and its input rather than its output.
-/
theorem load_decides {reader : Reader Value} {disk : Disk} {path : Path} {value : Value}
    (holds : Holds reader disk path value) :
    ((∃ configuration, load reader disk path = .ok configuration) ↔
      (Shown.view value).IsConfiguration) ∧
    (∀ configuration, load reader disk path = .ok configuration →
      configuration.path = path ∧
      (∃ items, (Shown.view value).HasMixers items ∧
        List.Forall₂ View.Asks items configuration.jobs) ∧
      ∀ job ∈ configuration.jobs,
        job.inputs ≠ [] ∧
        (∀ pattern ∈ job.inputs, pattern ≠ [] ∧ Alphabet.IsTrimmed pattern) ∧
        job.output ≠ [] ∧ Alphabet.IsTrimmed job.output) ∧
    ∀ before item behind, (Shown.view value).HasMixers (before ++ item :: behind) →
      (∀ earlier ∈ before, earlier.IsMixer) → ¬ item.IsMixer →
      ∃ fault, load reader disk path = .error (.invalid fault) ∧
        fault.Blames before.length item := by
  rw [load_of_holds holds, ← exists_jobsOf_iff]
  refine ⟨?_, ?_, ?_⟩
  · cases jobsOf (Shown.view value) <;> simp [Except.map, Except.mapError]
  · intro configuration loaded
    obtain ⟨jobs, made, rfl⟩ := Reading.map_eq_ok.mp loaded
    replace made : jobsOf (Shown.view value) = .ok jobs := by
      cases asked : jobsOf (Shown.view value) with
      | error fault => simp [asked, Except.mapError] at made
      | ok own => simpa [asked, Except.mapError] using made
    obtain ⟨⟨-, items, hasMixers, -, mixers⟩, others, hasOthers, asks⟩ :=
      jobsOf_eq_ok_iff.mp made
    obtain rfl := hasMixers.unique hasOthers
    refine ⟨rfl, ⟨items, hasMixers, asks⟩, fun job member => ?_⟩
    obtain ⟨item, inItems, asks⟩ := Reading.exists_of_mem_results asks member
    exact (mixers item inItems).of_asks asks
  · intro before item behind hasMixers mixers unfit
    obtain ⟨fault, refused, blames⟩ := exists_jobsOf_error hasMixers mixers unfit
    rw [refused]
    exact ⟨fault, rfl, blames⟩

theorem eq_ok_of_toOption {ε α : Type} {reading : Except ε α} {result : α}
    (found : reading.toOption = some result) : reading = .ok result := by
  cases reading with
  | error fault => cases found
  | ok own => exact congrArg Except.ok (Option.some.inj found)

/-- One mixer, with patterns and an output. -/
def asked : Text := "mixers: [\x7binput: [' a ', b], output: c\x7d]"

/-- Two mixers, of which the second has an empty row of patterns and a number for its
output. -/
def halfAsked : Text :=
  "mixers:\n- input: [' a ', b]\n  output: c\n- output: 1\n  input: []\n"

/-- A disk with these in two files. -/
def asking : Disk where
  entries := [(["one"], .file (Utf8.encode asked)), (["two"], .file (Utf8.encode halfAsked))]

/-- The first file asks for one job; the second one is refused for the input of its
second mixer. -/
theorem load_decides_asking :
    (∃ value, Holds Yaml.reader asking (Path.ofText "one") value ∧
      (Shown.view value).IsConfiguration ∧
      ∃ items, (Shown.view value).HasMixers items ∧
        List.Forall₂ View.Asks items [⟨["a", "b"], "c"⟩]) ∧
    ∃ value, Holds Yaml.reader asking (Path.ofText "two") value ∧
      ∃ first second, (Shown.view value).HasMixers [first, second] ∧
        first.IsMixer ∧ ¬ second.IsMixer ∧
        load Yaml.reader asking (Path.ofText "two") = .error (.invalid (.inputEmpty 1)) ∧
        (ConfigurationFault.inputEmpty 1).Blames 1 second := by
  constructor
  · obtain ⟨value, made⟩ : ∃ value, (Yaml.reader asked).toOption = some value :=
      Option.isSome_iff_exists.mp (by decide +kernel)
    have holds : Holds Yaml.reader asking (Path.ofText "one") value :=
      ⟨asked, by decide +kernel, eq_ok_of_toOption made⟩
    obtain ⟨accepted, jobs, -⟩ := load_decides holds
    have loaded : load Yaml.reader asking (Path.ofText "one") =
        .ok ⟨Path.ofText "one", [⟨["a", "b"], "c"⟩]⟩ := by decide +kernel
    exact ⟨value, holds, accepted.mp ⟨_, loaded⟩, (jobs _ loaded).2.1⟩
  · have read : ((Yaml.reader halfAsked).toOption.bind fun value =>
        ((Shown.view value).get? "mixers").bind View.items?).map
          (List.map (Configuration.job 1)) =
          some [.ok ⟨["a", "b"], "c"⟩, .error (.inputEmpty 1)] := by
      decide +kernel
    obtain ⟨items, found, each⟩ := Option.map_eq_some_iff.mp read
    obtain ⟨value, made, found⟩ := Option.bind_eq_some_iff.mp found
    obtain ⟨mixers, has, hasItems⟩ := Option.bind_eq_some_iff.mp found
    obtain ⟨first, rest, rfl, asks, others⟩ := List.map_eq_cons_iff.mp each
    obtain ⟨second, none, rfl, refused, nothing⟩ := List.map_eq_cons_iff.mp others
    obtain rfl := List.map_eq_nil_iff.mp nothing
    have holds : Holds Yaml.reader asking (Path.ofText "two") value :=
      ⟨halfAsked, by decide +kernel, eq_ok_of_toOption made⟩
    have unfit : ¬ second.IsMixer := by
      intro isMixer
      obtain ⟨job, asksOther⟩ := isMixer.exists_asks
      cases refused.symm.trans (job_eq_ok_iff.mpr ⟨isMixer, asksOther⟩)
    have earlier : ∀ earlier ∈ [first], earlier.IsMixer :=
      List.forall_mem_singleton.mpr (job_eq_ok_iff.mp asks).1
    obtain ⟨accepted, -, row⟩ := load_decides holds
    obtain ⟨fault, failed, blames⟩ := row [first] second []
      ⟨mixers, has, View.hasItems_iff.mpr hasItems⟩ earlier unfit
    have same : load Yaml.reader asking (Path.ofText "two") =
        .error (.invalid (.inputEmpty 1)) := by
      decide +kernel
    obtain rfl := ConfigurationFailure.invalid.inj (Except.error.inj (failed.symm.trans same))
    exact ⟨value, holds, first, second, ⟨mixers, has, View.hasItems_iff.mpr hasItems⟩,
      List.forall_mem_singleton.mp earlier, unfit, failed, blames⟩

end Files

end Configuration

end SchemaCompose
