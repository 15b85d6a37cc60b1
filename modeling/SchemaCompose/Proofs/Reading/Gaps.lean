import SchemaCompose.Proofs.Reading.Success
import SchemaCompose.Proofs.Schema.Arguments

/-!
# White space between arguments

White space at a place outside of brackets and strings is read into one argument, and the
others do not depend on it (`Arguments.split_around`).
-/

namespace SchemaCompose

namespace Text

/-- All characters of the text are white space. -/
def IsGap (text : Text) : Prop :=
  ∀ c ∈ text, isBlank c = true

instance : DecidablePred IsGap := fun text =>
  inferInstanceAs (Decidable (∀ c ∈ text, isBlank c = true))

variable {text left right gap : Text} {c : Char}

theorem IsGap.not_mem (blank : IsGap gap) (visible : isBlank c = false) : c ∉ gap := by
  intro member
  rw [blank c member] at visible
  contradiction

theorem isGap_append : IsGap (left ++ right) ↔ IsGap left ∧ IsGap right :=
  List.forall_mem_append

theorem trim_eq_nil_iff : trim text = [] ↔ IsGap text := by
  constructor
  · intro empty c member
    by_contra visible
    rw [Bool.not_eq_true] at visible
    have inside := mem_trim visible member
    rw [empty] at inside
    cases inside
  · intro gap
    rw [trim, trimEnd_eq_nil_iff]
    exact fun c member => gap c ((List.dropWhile_suffix isBlank).subset member)

theorem trim_gap_append (gap_ : IsGap gap) (text : Text) : trim (gap ++ text) = trim text := by
  rw [trim, trimStart_append_of_blank gap_, trim]

theorem trim_append_gap (text : Text) (gap_ : IsGap gap) : trim (text ++ gap) = trim text := by
  rw [← trim_trimEnd, trimEnd_append_of_blank text gap_, trim_trimEnd]

theorem trim_trim (text : Text) : trim (trim text) = trim text :=
  isTrimmed_trim text

/-- White space does not matter at an edge. -/
theorem trim_around_of_edge (edge : IsGap left ∨ IsGap right) (gap_ : IsGap gap) :
    trim (left ++ gap ++ right) = trim (left ++ right) := by
  rcases edge with front | back
  · rw [trim_gap_append (isGap_append.mpr ⟨front, gap_⟩), trim_gap_append front]
  · rw [List.append_assoc, trim_append_gap left (isGap_append.mpr ⟨gap_, back⟩),
      trim_append_gap left back]

theorem unquote_trim (text : Text) : unquote (trim text) = unquote text := by
  rw [unquote, unquote, trim_trim]

/-- What stands around a character that is no white space is trimmed on the other side. -/
theorem exists_trim_around (visible : isBlank c = false) (left right : Text) :
    trim (left ++ c :: right) = trimStart left ++ c :: trimEnd right := by
  have own : trimStart (left ++ c :: right) = trimStart left ++ c :: right := by
    induction left with
    | nil => exact trimStart_cons_of_not_blank visible
    | cons d left ih =>
        cases blank : isBlank d with
        | true => rw [List.cons_append, trimStart_cons_of_blank blank, ih,
            trimStart_cons_of_blank blank]
        | false => rw [List.cons_append, trimStart_cons_of_not_blank blank,
            trimStart_cons_of_not_blank blank, List.cons_append]
  have parted : trimStart left ++ c :: right = (trimStart left ++ [c]) ++ right := by simp
  rw [trim, own, parted, trimEnd_append_of_visible]
  · simp
  · intro d last
    rw [List.getLast?_concat] at last
    exact Option.some.inj last ▸ visible

theorem trim_trimStart (text : Text) : trim (trimStart text) = trim text := by
  have whole := List.takeWhile_append_dropWhile (p := isBlank) (l := text)
  rw [← trimStart] at whole
  conv_rhs => rw [← whole]
  exact (trim_gap_append (fun c => List.mem_takeWhile_imp) _).symm

/-- Behind something visible, more text does not matter for where a text starts. -/
theorem trimStart_append_of_visible (visible : trimStart left ≠ []) (right : Text) :
    trimStart (left ++ right) = trimStart left ++ right := by
  rw [trimStart, List.dropWhile_append, if_neg (by simpa [trimStart] using visible)]
  rfl

end Text

namespace Arguments

open Text

/-! ## Around a place -/

namespace Reading

/-- The arguments that are complete behind a text, and where the reader stands there. -/
def run (reading : Reading) : Text → List Text × Reading
  | [] => ([], reading)
  | c :: rest =>
    if reading.separates c then
      let behind := run { reading with current := [] } rest
      (trim reading.current.reverse :: behind.1, behind.2)
    else (reading.take c).run rest

/-- What stands in front of the comma that ends the current argument. -/
def ahead (reading : Reading) : Text → Text
  | [] => []
  | c :: rest => if reading.separates c then [] else c :: (reading.take c).ahead rest

/-- The reader with something more in front of what it has read of its argument. -/
def behind (reading : Reading) (lead : Text) : Reading :=
  { reading with current := reading.current ++ lead }

variable {reading : Reading} {gap : Text} {c : Char}

theorem separates_behind (reading : Reading) (lead : Text) (c : Char) :
    (reading.behind lead).separates c = reading.separates c := rfl

theorem take_behind (started : reading.inString = true → reading.current ≠ [])
    (lead : Text) (c : Char) :
    (reading.behind lead).take c = (reading.take c).behind lead := by
  have whole := take_append started lead 0 c
  simpa [behind] using whole

theorem splitFrom_append (reading : Reading) (left right : Text) :
    splitFrom reading (left ++ right) =
      (splitFrom (reading.run left).2 right).map ((reading.run left).1 ++ ·) := by
  induction left generalizing reading with
  | nil => simp [run]
  | cons c left ih =>
      rw [List.cons_append, splitFrom, run]
      split_ifs with separates
      · rw [ih, Option.map_map]
        rfl
      · exact ih (reading.take c)

/-- White space goes to the current argument. -/
theorem splitFrom_gap (outside : reading.inString = false) (blank : IsGap gap)
    (rest : Text) :
    splitFrom reading (gap ++ rest) =
      splitFrom { reading with current := gap.reverse ++ reading.current } rest := by
  induction gap generalizing reading with
  | nil => rfl
  | cons c gap ih =>
      rw [IsGap, List.forall_mem_cons] at blank
      have apart : ∀ mark ∈ [',', '"', '(', '[', ')', ']'], c ≠ mark := by
        rintro mark member rfl
        have visible : ∀ d ∈ [',', '"', '(', '[', ')', ']'], isBlank d = false := by decide
        rw [visible c member] at blank
        exact absurd blank.1 Bool.false_ne_true
      simp only [List.forall_mem_cons, List.not_mem_nil, false_imp_iff, implies_true,
        and_true] at apart
      have taken : reading.take c = { reading with current := c :: reading.current } := by
        simp [take, outside, apart]
      have inside : { reading with current := c :: reading.current }.inString = false := outside
      rw [List.cons_append, splitFrom_cons_of_not_separates (by simp [separates, apart]), taken,
        ih inside blank.2]
      simp

/-- How a reader ends: what it has read of the last argument is one, or nothing. -/
def lastRow (argument : Text) : List Text :=
  if argument = [] then [] else [argument]

/-- What a reader has in front of an argument becomes a part of that argument alone. -/
theorem splitFrom_behind (started : reading.inString = true → reading.current ≠ [])
    (right : Text) :
    let argument lead := trim (lead.reverse ++ (reading.current.reverse ++ reading.ahead right))
    (∀ lead, splitFrom (reading.behind lead) right = none) ∨
    (∃ after, ∀ lead, splitFrom (reading.behind lead) right = some (argument lead :: after)) ∨
    ∀ lead, splitFrom (reading.behind lead) right = some (lastRow (argument lead)) := by
  induction right generalizing reading with
  | nil =>
      by_cases open_ : (reading.depth ≠ 0 || reading.inString) = true
      · exact Or.inl fun lead => by rw [splitFrom]; exact if_pos open_
      · refine Or.inr (Or.inr fun lead => ?_)
        rw [splitFrom, show (reading.behind lead).depth = reading.depth from rfl,
          show (reading.behind lead).inString = reading.inString from rfl, if_neg open_]
        simp only [behind, ahead, List.reverse_append, List.append_nil, lastRow]
        split <;> simp_all
  | cons c right ih =>
      by_cases separates : reading.separates c = true
      · have step : ∀ lead, splitFrom (reading.behind lead) (c :: right) =
            (splitFrom { reading with current := [] } right).map
              (trim (lead.reverse ++ (reading.current.reverse ++ [])) :: ·) := by
          intro lead
          rw [splitFrom, separates_behind, if_pos separates]
          simp [behind]
        rw [ahead, if_pos separates]
        cases others : splitFrom { reading with current := [] } right with
        | none => exact Or.inl fun lead => by rw [step, others]; rfl
        | some after => exact Or.inr (Or.inl ⟨after, fun lead => by rw [step, others]; rfl⟩)
      · have step : ∀ lead, splitFrom (reading.behind lead) (c :: right) =
            splitFrom ((reading.take c).behind lead) right := by
          intro lead
          rw [splitFrom, separates_behind, if_neg separates, take_behind started]
        have next : (reading.take c).inString = true → (reading.take c).current ≠ [] := by
          rw [current_take]
          simp
        have same : ∀ lead : Text, lead.reverse ++ (reading.current.reverse ++
            c :: (reading.take c).ahead right) =
              lead.reverse ++ ((reading.take c).current.reverse ++
                (reading.take c).ahead right) := by
          simp [current_take]
        simp only [ahead, if_neg separates, step, same]
        exact ih next

end Reading

/-- What a reader of arguments has read of an argument behind a text. -/
def begun (left : Text) : Text :=
  (Reading.run {} left).2.current.reverse

/-- The arguments that are complete in a text. -/
def complete (left : Text) : List Text :=
  (Reading.run {} left).1

/-- What stands between a place and the comma that ends the argument there. -/
def ended (left right : Text) : Text :=
  Reading.ahead { (Reading.run {} left).2 with current := [] } right

/-- No string is open behind the text. -/
def IsOutside (left : Text) : Prop :=
  (Reading.run {} left).2.inString = false

instance : DecidablePred IsOutside := fun left =>
  inferInstanceAs (Decidable ((Reading.run {} left).2.inString = false))

/-- White space at a place outside of strings belongs to one argument, and the other
arguments do not depend on it. -/
theorem split_around {left right gap : Text} {arguments : List Text}
    (outside : IsOutside left) (blank : IsGap gap)
    (read : split (left ++ gap ++ right) = .ok arguments) :
    (∀ fresh, IsGap fresh → split (left ++ fresh ++ right) = .ok arguments) ∨
    ∃ after, ∀ fresh, IsGap fresh → split (left ++ fresh ++ right) =
      .ok (complete left ++ trim (begun left ++ fresh ++ ended left right) :: after) := by
  let reading : Reading := { (Reading.run {} left).2 with current := [] }
  let row (fresh : Text) := trim (begun left ++ fresh ++ ended left right)
  have parted : ∀ fresh, IsGap fresh → splitFrom {} (left ++ fresh ++ right) =
      (splitFrom (reading.behind (begun left ++ fresh).reverse) right).map
        (complete left ++ ·) := by
    intro fresh blank
    rw [List.append_assoc, Reading.splitFrom_append, Reading.splitFrom_gap outside blank]
    simp [Reading.behind, begun, complete, reading]
  have argument : ∀ fresh : Text, trim ((begun left ++ fresh).reverse.reverse ++
      (reading.current.reverse ++ reading.ahead right)) = row fresh := by
    simp [reading, ended, row]
  have settled : reading.inString = true → reading.current ≠ [] := fun inString =>
    absurd (outside.symm.trans inString) Bool.false_ne_true
  rw [split, parted gap blank] at read
  rcases Reading.splitFrom_behind settled right with none | ⟨after, behind⟩ | last
  · rw [none] at read
    cases read
  · refine Or.inr ⟨after, fun fresh blank => ?_⟩
    rw [split, parted fresh blank, behind]
    dsimp only
    rw [argument]
    rfl
  · have whole : ∀ fresh, IsGap fresh → split (left ++ fresh ++ right) =
        .ok (complete left ++ Reading.lastRow (row fresh)) := by
      intro fresh blank
      rw [split, parted fresh blank, last]
      dsimp only
      rw [argument]
      rfl
    by_cases empty : row [] = []
    · -- All that stands around the place is white space, and no argument comes of it.
      have around : IsGap (begun left) ∧ IsGap (ended left right) := by
        simpa [row, trim_eq_nil_iff, isGap_append] using empty
      have none : ∀ fresh, IsGap fresh → row fresh = [] := fun fresh blank =>
        trim_eq_nil_iff.mpr
          (isGap_append.mpr ⟨isGap_append.mpr ⟨around.1, blank⟩, around.2⟩)
      refine Or.inl fun fresh blank' => ?_
      rw [whole fresh blank', none fresh blank', ← none gap blank, ← whole gap blank, split,
        parted gap blank]
      exact read
    · have some : ∀ fresh, IsGap fresh → row fresh ≠ [] := by
        intro fresh blank none
        have around := trim_eq_nil_iff.mp none
        rw [isGap_append, isGap_append] at around
        refine empty (trim_eq_nil_iff.mpr ?_)
        simpa [isGap_append] using And.intro around.1.1 around.2
      refine Or.inr ⟨[], fun fresh blank => ?_⟩
      rw [whole fresh blank, Reading.lastRow, if_neg (some fresh blank)]

/-- White space behind a text adds nothing to its arguments. -/
theorem Reading.splitFrom_of_gap (reading : Reading) (blank : IsGap gap) :
    splitFrom reading gap = splitFrom reading [] := by
  cases inString : reading.inString with
  | false =>
      have whole := splitFrom_gap inString blank []
      rw [List.append_nil] at whole
      rw [whole, splitFrom, splitFrom, List.reverse_append, List.reverse_reverse,
        trim_append_gap _ blank]
  | true =>
      rw [splitFrom, inString, Bool.or_true, if_pos rfl]
      induction gap generalizing reading with
      | nil => rw [splitFrom, inString, Bool.or_true, if_pos rfl]
      | cons c gap ih =>
          rw [IsGap, List.forall_mem_cons] at blank
          have noQuote : c ≠ '"' := by
            rintro rfl
            exact absurd blank.1 (by decide)
          have still : (reading.take c).inString = true := by
            simp [take, inString, noQuote]
          rw [splitFrom_cons_of_not_separates (by simp [separates, inString])]
          exact ih _ blank.2 still

/-- White space around the arguments does not matter. -/
theorem split_trim (text : Text) : split (trim text) = split text := by
  obtain ⟨lead, trail, whole, blankLead, blankTrail⟩ := exists_trim_append text
  have front : splitFrom {} (lead ++ trim text) = splitFrom {} (trim text) := by
    have own : splitFrom {} (lead ++ trim text) =
        splitFrom (Reading.behind {} lead.reverse) (trim text) := by
      rw [Reading.splitFrom_gap rfl blankLead]
      simp [Reading.behind]
    have bare : splitFrom {} (trim text) = splitFrom (Reading.behind {} []) (trim text) := rfl
    have argument : ∀ further : Text, trim (lead.reverse.reverse ++ further) =
        trim (([] : Text).reverse ++ further) := by
      intro further
      rw [List.reverse_reverse, trim_gap_append blankLead]
      rfl
    rw [own, bare]
    rcases @Reading.splitFrom_behind {} (by simp) (trim text) with
      none | ⟨after, behind⟩ | last
    · rw [none, none]
    · rw [behind, behind]
      dsimp only
      rw [argument]
    · rw [last, last]
      dsimp only
      rw [argument]
  have back : splitFrom {} (lead ++ trim text ++ trail) = splitFrom {} (lead ++ trim text) := by
    conv_rhs => rw [← List.append_nil (lead ++ trim text)]
    rw [Reading.splitFrom_append, Reading.splitFrom_append,
      Reading.splitFrom_of_gap _ blankTrail]
  rw [split, split, ← front, ← back, ← whole]

/-! ## What an argument says -/

/-- The key of an argument and its value, if it has a key. -/
def entry (argument : Text) : Text × Option Text :=
  (trim (cutAt ':' argument).1, (cutAt ':' argument).2.map trim)

/-- What an argument says under a key. -/
def under (key argument : Text) : Option Text :=
  if (entry argument).1 = key then (entry argument).2.map unquote else none

variable {key value argument front back gap fresh : Text}

theorem entry_of_plain (plain : ':' ∉ argument) : entry argument = (trim argument, none) := by
  rw [entry, cutAt_of_not_mem plain]
  rfl

theorem entry_colon (plain : ':' ∉ key) (value : Text) :
    entry (key ++ ':' :: value) = (trim key, some (trim value)) := by
  rw [entry, cutAt_append plain]
  rfl

/-- White space around an argument does not matter for what it says. -/
theorem entry_trim (argument : Text) : entry (trim argument) = entry argument := by
  by_cases colon : ':' ∈ argument
  · obtain ⟨key, value, rfl, plain⟩ := List.eq_append_cons_of_mem colon
    have start : ':' ∉ trimStart key :=
      fun member => plain ((List.dropWhile_suffix isBlank).subset member)
    rw [exists_trim_around (by decide), entry_colon start, entry_colon plain, trim_trimStart,
      trim_trimEnd]
  · have inside : ':' ∉ trim argument := fun member => colon (trim_subset argument member)
    rw [entry_of_plain inside, entry_of_plain colon, trim_trim]

theorem named?_eq_findSome? (key : Text) (arguments : List Text) :
    named? key arguments = arguments.findSome? (under key) := by
  rw [named?]
  congr 1
  funext argument
  rw [under, entry]
  cases cutAt ':' argument with
  | mk found value =>
      cases value with
      | none => simp
      | some value => simp [unquote_trim]

theorem named?_around (key : Text) (before after : List Text) (argument : Text) :
    named? key (before ++ argument :: after) =
      (named? key before).or ((under key argument).or (named? key after)) := by
  simp only [named?_eq_findSome?, List.findSome?_append, List.findSome?_cons]
  cases under key argument <;> rfl

/-- An argument without the key that its first reader knows. -/
def unkeyed (argument : Text) : Text :=
  if startsWith "name:" argument || startsWith "fields:" argument then
    trim ((cutAt ':' argument).2.getD [])
  else argument

theorem cutAt_append_of_mem {mark : Char} {left : Text} (member : mark ∈ left) (right : Text) :
    (cutAt mark (left ++ right)).1 = (cutAt mark left).1 := by
  obtain ⟨before, behind, rfl, plain⟩ := List.eq_append_cons_of_mem member
  rw [List.append_assoc, List.cons_append, cutAt_append plain, cutAt_append plain]

/-- What stands in front of a mark does not depend on white space at the edges. -/
theorem trim_cutAt_trim {mark : Char} (visible : isBlank mark = false) (text : Text) :
    trim (cutAt mark (trim text)).1 = trim (cutAt mark text).1 := by
  by_cases member : mark ∈ text
  · obtain ⟨before, behind, rfl, plain⟩ := List.eq_append_cons_of_mem member
    have start : mark ∉ trimStart before :=
      fun member => plain ((List.dropWhile_suffix isBlank).subset member)
    rw [exists_trim_around visible, cutAt_append start, cutAt_append plain, trim_trimStart]
  · have inside : mark ∉ trim text := fun member' => member (trim_subset text member')
    rw [cutAt_of_not_mem inside, cutAt_of_not_mem member, trim_trim]

/-! ## White space in a list -/

/-- The items between the brackets of a list, each without its modifiers. -/
def itemsOf (inner : Text) : Except Fault (List Text) :=
  (split inner).map (·.map fun item => trim (cutAt '(' item).1)

theorem listOf_listed {lead inner trail : Text} (blankLead : IsGap lead)
    (blankTrail : IsGap trail) :
    listOf (lead ++ '[' :: (inner ++ ']' :: trail)) = itemsOf inner := by
  have regroup : lead ++ '[' :: (inner ++ ']' :: trail) =
      lead ++ (('[' :: inner ++ [']']) ++ trail) := by
    simp
  have trimmed : trim ('[' :: inner ++ [']']) = '[' :: inner ++ [']'] :=
    (show IsTrimmed ['['] by decide).around (by simp) (show IsTrimmed [']'] by decide)
      (by simp) inner
  rw [listOf, regroup, trim_gap_append blankLead, trim_append_gap _ blankTrail, trimmed]
  simp only [List.cons_append, List.getLast?_concat, if_true, List.dropLast_concat]
  rw [itemsOf]
  cases split inner <;> rfl

theorem listOf_bare {value : Text} (bare : (trimStart value).head? ≠ some '[') :
    listOf value = itemsOf value := by
  have start : (trim value).head? ≠ some '[' := by
    intro bracket
    obtain ⟨rest, opened⟩ := List.head?_eq_some_iff.mp bracket
    obtain ⟨trail, whole⟩ := prefix_trimEnd (trimStart value)
    rw [show trimEnd (trimStart value) = '[' :: rest from opened] at whole
    exact bare (by rw [← whole]; rfl)
  simp only [listOf]
  split
  · rename_i rest opened
    rw [opened] at start
    exact absurd rfl start
  · rw [split_trim, itemsOf]
    cases split value <;> rfl

/-- White space at the place is outside of strings, and it is at the edge of an item of the
list or in what modifies one. -/
@[mk_iff]
structure IsIdleItem (inside further : Text) : Prop where
  outside : IsOutside inside
  idle : IsGap (begun inside) ∨ IsGap (ended inside further) ∨ '(' ∈ begun inside

instance (inside further : Text) : Decidable (IsIdleItem inside further) :=
  decidable_of_iff' _ (isIdleItem_iff inside further)

theorem itemsOf_around {inside further : Text} {items : List Text}
    (idle : IsIdleItem inside further) (blank : IsGap gap) (blank' : IsGap fresh)
    (read : itemsOf (inside ++ gap ++ further) = .ok items) :
    itemsOf (inside ++ fresh ++ further) = .ok items := by
  obtain ⟨whole, splits, rfl⟩ := Reading.map_eq_ok.mp read
  rcases split_around idle.outside blank splits with same | ⟨after, around⟩
  · rw [itemsOf, same fresh blank']
    rfl
  · have item : ∀ space, IsGap space →
        trim (cutAt '(' (trim (begun inside ++ space ++ ended inside further))).1 =
          trim (cutAt '(' (begun inside ++ ended inside further)).1 := by
      intro space blank
      rcases idle.idle with front | back | modified
      · rw [trim_around_of_edge (Or.inl front) blank, trim_cutAt_trim (by decide)]
      · rw [trim_around_of_edge (Or.inr back) blank, trim_cutAt_trim (by decide)]
      · rw [trim_cutAt_trim (by decide), List.append_assoc, cutAt_append_of_mem modified,
          cutAt_append_of_mem modified]
    obtain rfl := Except.ok.inj (splits.symm.trans (around gap blank))
    rw [itemsOf, around fresh blank', Except.map, List.map_append, List.map_append,
      List.map_cons, List.map_cons, item gap blank, item fresh blank']

/-- White space in the list between two texts changes none of its items. -/
inductive IsIdleList (front back : Text) : Prop
  | listed {lead inside further trail : Text} (opened : front = lead ++ '[' :: inside)
      (closed : back = further ++ ']' :: trail) (blankLead : IsGap lead)
      (blankTrail : IsGap trail) (idle : IsIdleItem inside further)
  | bare {c : Char} {others : Text} (start : trimStart front = c :: others)
      (plain : c ≠ '[' ∧ c ≠ '"') (idle : IsIdleItem front back)

theorem listOf_around {items : List Text} (idle : IsIdleList front back)
    (blank : IsGap gap) (blank' : IsGap fresh)
    (read : listOf (front ++ gap ++ back) = .ok items) :
    listOf (front ++ fresh ++ back) = .ok items := by
  cases idle with
  | @listed lead inside further trail opened closed blankLead blankTrail idle =>
      subst opened closed
      have regroup : ∀ space : Text, lead ++ '[' :: inside ++ space ++ (further ++ ']' :: trail) =
          lead ++ '[' :: (inside ++ space ++ further ++ ']' :: trail) := by
        simp
      rw [regroup, listOf_listed blankLead blankTrail] at read ⊢
      exact itemsOf_around idle blank blank' read
  | @bare c others start plain idle =>
      have bare : ∀ space : Text, (trimStart (front ++ space ++ back)).head? ≠ some '[' := by
        intro space
        rw [List.append_assoc, trimStart_append_of_visible (by rw [start]; simp), start]
        simpa using plain.1
      rw [listOf_bare (bare _)] at read ⊢
      exact itemsOf_around idle blank blank' read

end Arguments

end SchemaCompose
