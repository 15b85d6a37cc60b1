import SchemaCompose.Proofs.Disk.Order
import SchemaCompose.Proofs.Disk.Tree

/-!
# Where found texts lead

A search puts texts behind one another, and a path is read from the text that comes of
it.  Reading gives the same as appending the paths that the texts write
(`Path.ofText_behind`), so that what is found in a directory leads to a place in that
directory (`reached_of_listed`).
-/

namespace SchemaCompose

/-! ## Reading what was put together -/

/-- Where a text starts is told by its first characters. -/
theorem Anchor.ofText_append {text more : Text} (filled : text ≠ [])
    (apart : text.getLast? = some '/' → more.head? ≠ some '/') :
    Anchor.ofText (text ++ more) = Anchor.ofText text := by
  match text, filled with
  | [first], _ =>
      cases more with
      | nil => simp
      | cons next more =>
          by_cases slash : first = '/'
          · subst slash
            have relative : next ≠ '/' := by simpa using apart
            simp [Anchor.ofText, relative]
          · simp [Anchor.ofText, slash]
  | [first, second], _ =>
      cases more with
      | nil => simp
      | cons next more =>
          by_cases slash : first = '/' <;> by_cases slash' : second = '/'
          · have relative : next ≠ '/' := by simpa [slash'] using apart
            simp [Anchor.ofText, slash, slash', relative]
          all_goals simp [Anchor.ofText, slash, slash']
  | first :: second :: third :: text, _ =>
      by_cases slash : first = '/' <;> by_cases slash' : second = '/' <;>
        by_cases slash'' : third = '/' <;> simp [Anchor.ofText, slash, slash', slash'']

theorem inside_ne_nil {directory : Text} (filled : directory ≠ []) (text : Text) :
    inside directory text ≠ [] := by
  rw [inside, if_neg filled]
  split_ifs with none
  · exact filled
  · rw [behind]
    split_ifs
    · exact none
    · simp [none]
    · simp

namespace Path

theorem ofText_text {path : Path} (proper : path.IsProper) : ofText path.text = path := by
  obtain ⟨anchored, -, lead, pieces, unnamed, -⟩ := proper.text_eq
  have names : path.parts.filter isName = path.parts :=
    List.filter_eq_self.mpr fun part member => (proper part member).1
  have none : lead.filter isName = [] :=
    List.filter_eq_nil_iff.mpr fun piece member => by simp [unnamed piece member]
  rw [ofText, anchored, pieces, List.filter_append, names, none, List.nil_append]

theorem isAbsolute_ofText (text : Text) :
    (ofText text).isAbsolute = true ↔ text.head? = some '/' := by
  cases text with
  | nil => simp [ofText, isAbsolute, Anchor.ofText]
  | cons first text =>
      by_cases slash : first = '/'
      · subst slash
        have start : Anchor.ofText ('/' :: text) ≠ .here := by
          rw [Anchor.ofText.eq_def]
          split <;> simp_all
        simp [isAbsolute, ofText, start]
      · simp [ofText, isAbsolute, Anchor.ofText, slash]

theorem append_assoc (first second third : Path) :
    first.append (second.append third) = (first.append second).append third := by
  by_cases absolute : third.isAbsolute = true
  · rw [append_of_isAbsolute second absolute, append_of_isAbsolute first absolute,
      append_of_isAbsolute _ absolute]
  · have same : (second.append third).isAbsolute = second.isAbsolute := by
      rw [append, if_neg absolute]
      rfl
    rw [append, same, append, append, append]
    split_ifs <;> simp

/-- A text that was put behind another one is read behind it. -/
theorem ofText_behind (directory text : Text) :
    ofText (behind directory text) = (ofText directory).append (ofText text) := by
  by_cases absolute : text.head? = some '/'
  · rw [behind, if_pos absolute,
      append_of_isAbsolute _ ((isAbsolute_ofText text).mpr absolute)]
  have relative : (ofText text).isAbsolute = false := by
    simpa using mt (isAbsolute_ofText text).mp absolute
  rw [behind, if_neg absolute, append, relative, if_neg Bool.false_ne_true]
  rcases directory.eq_nil_or_concat with rfl | ⟨front, last, rfl⟩
  · have start : (ofText text).anchor = .here := by
      simpa [isAbsolute] using relative
    show ofText text = ⟨.here, [] ++ (ofText text).parts⟩
    rw [List.nil_append, ← start]
  · rw [List.concat_eq_append]
    by_cases slash : last = '/'
    · subst slash
      have anchor : Anchor.ofText (front ++ ['/'] ++ text) = Anchor.ofText (front ++ ['/']) :=
        Anchor.ofText_append (by simp) fun _ => absolute
      rw [if_pos (by simp), ofText, ofText, ofText, anchor, List.append_assoc,
        List.singleton_append, Text.pieces_append_mark, Text.pieces_append_mark]
      simp [Text.pieces, isName]
    · have anchor : Anchor.ofText (front ++ [last] ++ '/' :: text) =
          Anchor.ofText (front ++ [last]) :=
        Anchor.ofText_append (by simp) (by simp [slash])
      rw [if_neg (by simp [slash]), ofText, ofText, ofText, anchor,
        Text.pieces_append_mark, List.filter_append]

theorem ofText_inside {base : Path} (proper : base.IsProper) (text : Text) :
    ofText (inside base.text text) = base.append (ofText text) := by
  rw [inside, if_neg proper.text_eq.2.1]
  split_ifs with none
  · subst none
    rw [ofText_text proper]
    simp [append, isAbsolute, ofText, Text.pieces, isName, Anchor.ofText]
  · rw [ofText_behind, ofText_text proper]

/-- Putting a text inside a directory that was found is reading what was found. -/
theorem ofText_inside_inside {base : Path} (proper : base.IsProper) {text : Text}
    (filled : text ≠ []) (directory : Text) :
    ofText (inside (inside base.text directory) text) =
      base.append (ofText (behind directory text)) := by
  rw [inside, if_neg (inside_ne_nil proper.text_eq.2.1 directory), if_neg filled,
    ofText_behind, ofText_inside proper, ofText_behind, append_assoc]

/-- A path of names that starts nowhere is written by joining them. -/
theorem ofText_join {names : List Text} (filled : names ≠ [])
    (proper : ∀ name ∈ names, isName name = true ∧ '/' ∉ name) :
    ofText (Text.join ['/'] names) = ⟨.here, names⟩ := by
  have written : (Path.mk .here names).text = Text.join ['/'] names :=
    text_of_parts_ne_nil filled
  rw [← written]
  exact ofText_text proper

end Path

namespace Disk

variable {disk : Disk}

/-! ## Places that are reached -/

/-- The place that the names of a path lead to, however long its text is. -/
def reached (disk : Disk) (path : Path) : Except Refusal Location :=
  disk.walk (disk.start path.anchor) path.parts

/-- Pieces that name nothing may be left out. -/
theorem walk_filter_isName {place location : Location} {pieces : List Text}
    (leads : disk.walk place pieces = .ok location) :
    disk.walk place (pieces.filter isName) = .ok location := by
  induction pieces generalizing place with
  | nil => exact leads
  | cons piece pieces ih =>
      rw [walk] at leads
      split_ifs at leads with outside unnamed up wide absent
      · rw [List.filter_cons_of_neg (by simpa using unnamed)]
        exact ih leads
      all_goals
        rw [List.filter_cons_of_pos (by simpa using unnamed), walk, if_neg outside,
          if_neg unnamed]
      · rw [if_pos up]
        exact ih leads
      · rw [if_neg up, if_neg wide, if_neg absent]
        exact ih leads

theorem reached_of_locate {text : Text} {location : Location}
    (leads : disk.locate text = .ok location) :
    disk.reached (Path.ofText text) = .ok location := by
  rw [locate] at leads
  split_ifs at leads
  exact walk_filter_isName leads

/-- A name is followed in the directory that the text before it leads to. -/
theorem locate_of_behind {text name : Text} {location : Location} (filled : text ≠ [])
    (single : '/' ∉ name) (leads : disk.locate (behind text name) = .ok location) :
    ∃ place, disk.locate text = .ok place ∧ disk.isDirectoryAt place = true := by
  have relative : name.head? ≠ some '/' := fun first =>
    single (List.mem_of_mem_head? first)
  have last : Text.pieces '/' name = [name] := Text.pieces_of_not_mem single
  have directory : ∀ place, disk.walk place [name] = .ok location →
      disk.isDirectoryAt place = true := by
    intro place led
    rw [walk] at led
    split_ifs at led with outside <;> simpa using outside
  rw [behind, if_neg relative] at leads
  obtain ⟨front, mark, rfl⟩ := (text.eq_nil_or_concat).resolve_left filled
  rw [List.concat_eq_append] at filled leads ⊢
  by_cases slash : mark = '/'
  · subst slash
    have pieces : Text.pieces '/' (front ++ ['/'] ++ name) =
        Text.pieces '/' front ++ [name] := by
      rw [List.append_assoc, List.singleton_append, Text.pieces_append_mark, last]
    rw [if_pos (by simp), locate, Anchor.ofText_append filled fun _ => relative,
      pieces, walk_append] at leads
    split_ifs at leads with long empty
    obtain ⟨place, led, further⟩ := Reading.bind_eq_ok.mp leads
    refine ⟨place, ?_, directory place further⟩
    rw [locate, if_neg (by simpa using isTooLong_of_append (by simpa using long)),
      if_neg filled, Text.pieces_append_mark, walk_append, led]
    simp [Except.bind, Text.pieces, walk, directory place further, isName]
  · rw [if_neg (by simp [slash]), locate, Anchor.ofText_append filled (by simp [slash]),
      Text.pieces_append_mark, last, walk_append] at leads
    split_ifs at leads with long empty
    obtain ⟨place, led, further⟩ := Reading.bind_eq_ok.mp leads
    refine ⟨place, ?_, directory place further⟩
    rw [locate, if_neg (by simpa using isTooLong_of_append (Bool.eq_false_iff.mpr long)),
      if_neg filled, led]

theorem reached_of_inside {base : Path} (proper : base.IsProper) {text : Text}
    {location : Location} (leads : disk.locate (inside base.text text) = .ok location) :
    disk.reached (base.append (Path.ofText text)) = .ok location := by
  rw [← Path.ofText_inside proper]
  exact reached_of_locate leads

theorem reached_of_locate_text {path : Path} (proper : path.IsProper) {location : Location}
    (leads : disk.locate path.text = .ok location) : disk.reached path = .ok location :=
  (walk_of_locate proper leads).2

/-! ## File systems -/

/-- A tree on which every place stands once and under names that can be asked for. -/
structure IsFileSystem (disk : Disk) : Prop extends disk.IsTree where
  distinct : (disk.entries.map Prod.fst).Nodup
  plain : ∀ entry ∈ disk.entries, (Path.mk .root entry.1).IsPlain
  short : ∀ entry ∈ disk.entries, ∀ name ∈ entry.1,
    (Utf8.encode name).length ≤ nameLimit

/-- In a tree, names lead down to whatever stands under them. -/
theorem IsTree.walk_down (tree : disk.IsTree) {place : Location} {names : List Text}
    (plain : ∀ name ∈ names, isName name = true ∧ name ≠ upward)
    (short : ∀ name ∈ names, (Utf8.encode name).length ≤ nameLimit)
    (present : disk.entryAt (place ++ names) ≠ none) :
    disk.walk place names = .ok (place ++ names) := by
  induction names generalizing place with
  | nil => simp [walk]
  | cons name names ih =>
      rw [List.forall_mem_cons] at plain short
      have regroup : place ++ name :: names = place ++ [name] ++ names := by simp
      rw [regroup] at present ⊢
      have here : disk.entryAt (place ++ [name]) ≠ none := fun free =>
        present (tree.entryAt_append_of_none free names)
      have directory := tree.above place name (Option.isSome_iff_ne_none.mpr here)
      rw [← ih plain.2 short.2 present]
      simp [walk, directory, plain.1, Nat.not_lt.mpr short.1, here]

theorem IsFileSystem.entryAt_of_mem (system : disk.IsFileSystem) {location : Location}
    {entry : Entry} (inside : location ≠ []) (member : (location, entry) ∈ disk.entries) :
    disk.entryAt location = some entry := by
  rw [entryAt, if_neg inside, Registry.find?_of_mem system.distinct member]

theorem mem_below {location : Location} {names : Location} {entry : Entry} :
    (names, entry) ∈ disk.below location ↔
      names ≠ [] ∧ (location ++ names, entry) ∈ disk.entries := by
  simp only [below, List.mem_filterMap, Option.ite_none_right_eq_some, Option.some.injEq,
    Prod.mk.injEq, Bool.and_eq_true, List.isPrefixOf_iff_prefix, decide_eq_true_eq]
  constructor
  · rintro ⟨⟨place, present⟩, member, ⟨⟨rest, rfl⟩, longer⟩, rfl, rfl⟩
    rw [List.drop_left]
    refine ⟨?_, member⟩
    rintro rfl
    simp at longer
  · rintro ⟨filled, member⟩
    refine ⟨(location ++ names, entry), member, ⟨List.prefix_append _ _, ?_⟩, ?_, rfl⟩
    · simpa using filled
    · simp

/-- What is found below a directory stands at the place that its names lead to. -/
theorem IsFileSystem.reached_of_below (system : disk.IsFileSystem) {base : Path}
    (proper : base.IsProper) {directory : Text} {location names : Location} {entry : Entry}
    (leads : disk.locate (inside base.text directory) = .ok location)
    (listed : (names, entry) ∈ disk.below location) :
    disk.reached (base.append (Path.ofText (behind directory (Text.join ['/'] names)))) =
      .ok (location ++ names) := by
  obtain ⟨filled, member⟩ := mem_below.mp listed
  have plain := system.plain _ member
  have written := Path.ofText_join filled fun name inNames =>
    plain.proper name (List.mem_append_right _ inNames)
  have start := reached_of_inside proper leads
  have present := system.entryAt_of_mem (by simp [filled]) member
  have down : disk.walk location names = .ok (location ++ names) := system.walk_down
    (fun name inNames => plain.forall_mem name (List.mem_append_right _ inNames))
    (fun name inNames => system.short _ member name (List.mem_append_right _ inNames))
    (by simp [present])
  rw [Path.ofText_behind, written, Path.append_assoc]
  have further : ∀ path : Path, disk.reached path = .ok location →
      disk.reached (path.append ⟨.here, names⟩) = .ok (location ++ names) := by
    intro path led
    show disk.walk (disk.start path.anchor) (path.parts ++ names) = _
    rw [walk_append]
    rw [reached] at led
    rw [led]
    exact down
  exact further _ start

end Disk

end SchemaCompose
