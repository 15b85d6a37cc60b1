import SchemaCompose.Proofs.Reading.Success
import SchemaCompose.Proofs.Schema.Attributes

/-!
# Rows of attributes

What the scanner reads is a row of attributes with white space between them
(`Attribute.exists_spells_of_scan`), and of every such row it reads the attributes
(`Attribute.Spells.scan_eq`).  A row keeps what the scanner drops: the text that every
attribute takes.
-/

namespace SchemaCompose.Attribute

/-! ## One attribute -/

/-- An argument list is cut at a bracket; what stands in front of it closes every
bracket but those that were open before, and every literal. -/
theorem exists_of_untilClosing
    {depth : Nat} {state : LiteralState} {text inner behind : Text}
    (found : untilClosing depth state text = some (inner, behind)) :
    nesting depth state inner = some (0, .outside) ∧
      ∃ closing, (closing = ')' ∨ closing = ']') ∧
        text = inner ++ closing :: behind := by
  induction text generalizing depth state inner behind with
  | nil => contradiction
  | cons c rest ih =>
      have further : ∀ {further : Nat},
          (untilClosing further (state.next c) rest).map
              (fun (pair : Text × Text) => (c :: pair.1, pair.2)) =
            some (inner, behind) →
          ∃ others, inner = c :: others ∧
            nesting further (state.next c) others = some (0, .outside) ∧
            ∃ closing, (closing = ')' ∨ closing = ']') ∧
              rest = others ++ closing :: behind := by
        intro further mapped
        obtain ⟨⟨before, others⟩, scanned, same⟩ := Option.map_eq_some_iff.mp mapped
        obtain ⟨rfl, rfl⟩ := Prod.mk.inj same
        obtain ⟨nested, closing, closes, rfl⟩ := ih scanned
        exact ⟨before, rfl, nested, closing, closes, rfl⟩
      rw [untilClosing_cons] at found
      split_ifs at found with opens closes outermost
      · obtain ⟨others, rfl, nested, closing, isClosing, rfl⟩ := further found
        exact ⟨by rw [nesting, if_pos opens, nested], closing, isClosing, rfl⟩
      · cases found
        rw [outermost, closes.1]
        exact ⟨rfl, c, closes.2, rfl⟩
      · obtain ⟨others, rfl, nested, closing, isClosing, rfl⟩ := further found
        exact ⟨by rw [nesting, if_neg opens, if_pos closes, if_neg outermost, nested],
          closing, isClosing, rfl⟩
      · obtain ⟨others, rfl, nested, closing, isClosing, rfl⟩ := further found
        exact ⟨by rw [nesting, if_neg opens, if_neg closes, nested], closing,
          isClosing, rfl⟩

/-- The text is the attribute: its name, with its arguments between brackets if it has
any. -/
inductive IsSpelled : Text → Attribute → Prop
  | bare {name : Text} (isName : IsName name) : IsSpelled name ⟨name, none⟩
  | call {name inner : Text} {closing : Char} (isName : IsName name)
      (nested : nesting 0 .outside inner = some (0, .outside))
      (closes : closing = ')' ∨ closing = ']') :
      IsSpelled (name ++ '(' :: (inner ++ [closing])) ⟨name, some (Text.trim inner)⟩

theorem IsSpelled.ne_nil {cut : Text} {source : Attribute}
    (spelled : IsSpelled cut source) : cut ≠ [] := by
  cases spelled with
  | bare isName => exact isName.ne_nil
  | call isName _ _ => simp

theorem IsSpelled.exists_of_mem {cut inner : Text} {source : Attribute}
    (spelled : IsSpelled cut source) (member : inner ∈ source.arguments) :
    ∃ name untrimmed closing, cut = name ++ '(' :: (untrimmed ++ [closing]) ∧
      IsName name ∧ inner = Text.trim untrimmed ∧
      nesting 0 .outside untrimmed = some (0, .outside) := by
  cases spelled with
  | bare isName => contradiction
  | @call name untrimmed closing isName nested _ =>
      exact ⟨name, untrimmed, closing, rfl, isName, (Option.some.inj member).symm, nested⟩

/-- An attribute with arguments starts with its name and a bracket. -/
theorem IsSpelled.prefix_of_isSome {cut : Text} {source : Attribute}
    (spelled : IsSpelled cut source) (filled : source.arguments.isSome) :
    source.name ++ ['('] <+: cut := by
  cases spelled with
  | bare isName => contradiction
  | @call name raw closing _ _ _ => exact ⟨raw ++ [closing], by simp⟩

/-- Literals end where the attribute ends. -/
theorem IsSpelled.run_eq {cut : Text} {source : Attribute}
    (spelled : IsSpelled cut source) : LiteralState.run .outside cut = .outside := by
  cases spelled with
  | bare isName => exact LiteralState.run_outside_of_no_quote (isName.not_mem (by decide))
  | call isName nested closes =>
      rw [LiteralState.run_append,
        LiteralState.run_outside_of_no_quote (isName.not_mem (by decide)),
        LiteralState.run_cons, LiteralState.run_append]
      rw [show LiteralState.next .outside '(' = .outside from rfl, run_of_nesting nested]
      rcases closes with rfl | rfl
      · rfl
      · rfl

/-- One step of the scanner: it reads an attribute and goes on behind it. -/
theorem scan_cons_cases
    {c : Char} {rest : Text} {sources : List Attribute}
    (visible : ¬ Text.isBlank c = true) (scanned : scan (c :: rest) = .ok sources) :
    ∃ source others cut behind, sources = source :: others ∧
      scan behind = .ok others ∧ c :: rest = cut ++ behind ∧ IsSpelled cut source := by
  rw [scan, if_neg visible] at scanned
  split at scanned
  · contradiction
  · rename_i name inside named
    obtain ⟨isName, whole, _⟩ := isName_of_name? named
    split at scanned
    · contradiction
    · rename_i inner behind closed
      obtain ⟨others, further, rfl⟩ := Reading.map_eq_ok.mp scanned
      obtain ⟨nested, closing, closes, rfl⟩ := exists_of_untilClosing closed
      exact ⟨_, others, name ++ '(' :: (inner ++ [closing]), behind, rfl, further,
        by rw [whole]; simp, .call isName nested closes⟩
  · rename_i name behind _ named
    obtain ⟨others, further, rfl⟩ := Reading.map_eq_ok.mp scanned
    obtain ⟨isName, whole, _⟩ := isName_of_name? named
    exact ⟨_, others, name, behind, rfl, further, whole, .bare isName⟩

/-! ## Rows -/

/-- The text is a row of attributes with white space between them. Every attribute
stands behind the text that it takes. -/
inductive Spells : Text → List (Text × Attribute) → Prop
  | nil : Spells [] []
  | gap {c : Char} {behind : Text} {row : List (Text × Attribute)}
      (isBlank : Text.isBlank c = true) (further : Spells behind row) :
      Spells (c :: behind) row
  | entry {cut behind : Text} {source : Attribute}
      {row : List (Text × Attribute)} (spelled : IsSpelled cut source)
      (further : Spells behind row) :
      Spells (cut ++ behind) ((cut, source) :: row)

variable {text cut behind : Text} {source : Attribute}
  {row : List (Text × Attribute)}

theorem IsSpelled.exists_cons (spelled : IsSpelled cut source) :
    ∃ others, cut = '@' :: others := by
  cases spelled with
  | bare isName => exact isName.exists_cons
  | call isName _ _ =>
      obtain ⟨others, rfl⟩ := isName.exists_cons
      exact ⟨_, rfl⟩

/-- An attribute begins with an at-sign, and so a row begins with one or with white
space. -/
theorem Spells.head_cases (spells : Spells text row) :
    ∀ c ∈ text.head?, Text.isBlank c = true ∨ c = '@' := by
  cases spells with
  | nil => simp
  | gap isBlank _ =>
      rintro c ⟨⟩
      exact Or.inl isBlank
  | entry spelled _ =>
      obtain ⟨others, rfl⟩ := spelled.exists_cons
      rintro c ⟨⟩
      exact Or.inr rfl

theorem IsSpelled.scan_append
    (spelled : IsSpelled cut source)
    (ends : ∀ c ∈ behind.head?, Text.isBlank c = true ∨ c = '@') :
    scan (cut ++ behind) = (scan behind).map (source :: ·) := by
  cases spelled with
  | bare isName =>
      apply scan_of_name isName
      intro c first
      rcases ends c first with blank | rfl
      · refine ⟨?_, ?_⟩
        · by_contra inName
          rw [Bool.not_eq_false, isNameChar, Bool.or_eq_true] at inName
          rcases inName with word | dot
          · rw [Text.not_isWord_of_isBlank blank] at word
            contradiction
          · rw [of_decide_eq_true dot] at blank
            contradiction
        · rintro rfl
          contradiction
      · decide
  | @call name inner closing isName nested closes =>
      have regroup : name ++ '(' :: (inner ++ [closing]) ++ behind =
          name ++ '(' :: inner ++ closing :: behind := by
        simp
      rw [regroup, scan_of_name_with_arguments isName nested closes]

/-- The attributes of a row are scanned. -/
theorem Spells.scan_eq (spells : Spells text row) :
    scan text = .ok (row.map Prod.snd) := by
  induction spells with
  | nil =>
      rw [scan]
      rfl
  | gap isBlank _ ih => rw [scan_cons_of_blank isBlank, ih]
  | entry spelled further ih =>
      rw [spelled.scan_append further.head_cases, ih]
      rfl

theorem exists_spells_of_scan
    {sources : List Attribute} (scanned : scan text = .ok sources) :
    ∃ row, Spells text row ∧ row.map Prod.snd = sources := by
  induction length : text.length using Nat.strong_induction_on
    generalizing text sources with
  | h size ih =>
      cases text with
      | nil =>
          rw [scan] at scanned
          cases scanned
          exact ⟨[], .nil, rfl⟩
      | cons c rest =>
          by_cases isBlank : Text.isBlank c = true
          · rw [scan_cons_of_blank isBlank] at scanned
            obtain ⟨row, spells, same⟩ :=
              ih rest.length (by rw [← length]; simp) scanned rfl
            exact ⟨row, .gap isBlank spells, same⟩
          · obtain ⟨source, others, cut, behind, rfl, further, whole, spelled⟩ :=
              scan_cons_cases isBlank scanned
            have shorter : behind.length < size := by
              have filled := List.length_pos_of_ne_nil spelled.ne_nil
              rw [← length, whole, List.length_append]
              omega
            obtain ⟨row, spells, rfl⟩ := ih behind.length shorter further rfl
            exact ⟨(cut, source) :: row, whole ▸ .entry spelled spells, rfl⟩

theorem Spells.append {others : List (Text × Attribute)}
    (spells : Spells text row) (further : Spells behind others) :
    Spells (text ++ behind) (row ++ others) := by
  induction spells with
  | nil => exact further
  | gap isBlank _ ih => exact .gap isBlank ih
  | entry spelled _ ih =>
      rw [List.append_assoc]
      exact .entry spelled ih

theorem isBlank_of_spells_nil (spells : Spells text []) :
    ∀ c ∈ text, Text.isBlank c = true := by
  generalize none : ([] : List (Text × Attribute)) = row at spells
  induction spells with
  | nil => simp
  | gap isBlank _ ih => exact List.forall_mem_cons.mpr ⟨isBlank, ih none⟩
  | entry _ _ => contradiction

/-- Literals end where a row of attributes ends. -/
theorem Spells.run_eq (spells : Spells text row) :
    LiteralState.run .outside text = .outside := by
  induction spells with
  | nil => rfl
  | @gap c _ _ isBlank _ ih =>
      have plain : c ≠ '"' := by
        rintro rfl
        contradiction
      rw [LiteralState.run_cons, LiteralState.next, if_neg plain, ih]
  | entry spelled _ ih => rw [LiteralState.run_append, spelled.run_eq, ih]

/-- The attributes of a row stand in its text. -/
theorem Spells.isInfix_of_mem (spells : Spells text row) :
    ∀ entry ∈ row, entry.1 <:+: text ∧ IsSpelled entry.1 entry.2 := by
  induction spells with
  | nil => simp
  | gap _ _ ih =>
      intro entry member
      obtain ⟨inside, spelled⟩ := ih entry member
      exact ⟨List.infix_cons inside, spelled⟩
  | entry spelled _ ih =>
      rw [List.forall_mem_cons]
      refine ⟨⟨(List.prefix_append _ _).isInfix, spelled⟩, ?_⟩
      intro entry member
      obtain ⟨inside, further⟩ := ih entry member
      exact ⟨inside.trans (List.suffix_append _ _).isInfix, further⟩

end SchemaCompose.Attribute
