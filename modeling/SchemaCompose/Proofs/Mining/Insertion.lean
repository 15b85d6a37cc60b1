import SchemaCompose.Proofs.Mining.Ownership
import SchemaCompose.Proofs.Reading.Insertion

/-!
# A line more for what is recovered

The cuts of a document take in a row that is put between two lines, where it belongs
to one of them (`exists_cuts_insert`).  A comment that marks no stub leaves what is
recovered as it was, and so does a blank row, so that neither changes anything in
the document (`Schema.ofDocument_insert`).
-/

namespace SchemaCompose

namespace Mining

open Text

variable {before row after : Text}

/-! ## Cuts -/

theorem head?_append_of_opened
    {left right : Text} (opened : left.head? ≠ some '}')
    (other : right.head? ≠ some '}') : (left ++ right).head? ≠ some '}' := by
  cases left with
  | nil => exact other
  | cons c left => exact opened

/-- Where no closing brace starts the second text, two texts share one cut. -/
theorem cuts_append_of_opened
    {left right : Text} (opened : right.head? ≠ some '}') {above below : List Text}
    {last first : Text} (upper : cuts left = above ++ [last])
    (lower : cuts right = first :: below) :
    cuts (left ++ right) = above ++ (last ++ first) :: below := by
  induction left using cuts.induct generalizing above last with
  | case1 =>
      obtain ⟨rfl, rfl⟩ : above = [] ∧ last = [] := by
        cases above with
        | nil => exact ⟨rfl, by simpa [cuts, eq_comm] using upper⟩
        | cons cut above => simp [cuts] at upper
      exact lower
  | case2 rest ih =>
      rw [cuts] at upper
      cases above with
      | nil => exact absurd (List.cons.inj upper).2 (cuts_ne_nil rest)
      | cons cut above =>
          obtain ⟨rfl, others⟩ := List.cons.inj upper
          rw [List.cons_append, List.cons_append, cuts, ih others]
          rfl
  | case3 c rest _ none => exact absurd none (cuts_ne_nil rest)
  | case4 c rest open_ cut others own ih =>
      have closed : c ≠ '\n' ∨ rest.head? ≠ some '}' := by
        rw [← not_and_or]
        rintro ⟨rfl, brace⟩
        obtain ⟨behind, rfl⟩ := List.head?_eq_some_iff.mp brace
        exact open_ behind rfl rfl
      have closed' := closed.imp_right fun start => head?_append_of_opened start opened
      rw [cuts_cons closed own] at upper
      cases above with
      | nil =>
          obtain ⟨rfl, rfl⟩ := List.cons.inj upper
          have further := @ih [] cut own
          exact cuts_cons closed' further
      | cons _ above =>
          obtain ⟨rfl, rfl⟩ := List.cons.inj upper
          have further := @ih (cut :: above) last own
          exact cuts_cons closed' further

/-- The lines of a cut in front of a line feed and behind it. -/
theorem linesOf_append_feed (left right : Text) :
    linesOf (left ++ '\n' :: right) = linesOf left ++ linesOf right := by
  obtain ⟨tail, whole, blank⟩ := exists_lines_feed left
  rw [linesOf, lines_append_break, whole, List.map_append, List.map_append,
    List.filter_append, List.filter_append, filter_trim_tail blank, List.append_nil]
  rfl

/-- A row that is put behind a line feed, in front of a closing brace, ends the cut
that the brace ends. -/
theorem cuts_insert_of_closing
    (single : IsLine row) (opened : row.head? ≠ some '}') {text : Text}
    {above : List Text} {last : Text} (upper : cuts text = above ++ [last])
    (rest : Text) :
    cuts (text ++ '\n' :: (row ++ '\n' :: '}' :: rest)) =
      above ++ (last ++ '\n' :: row) :: cuts rest := by
  have alone : cuts row = [row] := by
    simpa using cuts_line single (show cuts [] = [[]] from rfl)
  have own : cuts ('\n' :: row) = ['\n' :: row] := cuts_cons (Or.inr opened) alone
  have lead := cuts_append_of_opened (show ('\n' :: row).head? ≠ some '}' by simp)
    upper own
  rw [← List.cons_append, ← List.append_assoc, cuts_append, lead]
  simp

/-- A row that is put between two lines stands in one of the cuts, and the others
stay as they are. -/
theorem exists_cuts_insert
    (fed : IsFed before) (single : IsLine row) (opened : row.head? ≠ some '}')
    (first : before = [] → after.head? ≠ some '}') :
    ∃ above left right below,
      (cuts (before ++ after)).map linesOf = above ++ (left ++ right) :: below ∧
      (cuts (before ++ row ++ '\n' :: after)).map linesOf =
        above ++ (left ++ (linesOf row ++ right)) :: below := by
  obtain ⟨cut, others, own⟩ := List.exists_cons_of_ne_nil (cuts_ne_nil after)
  have behind (open_ : after.head? ≠ some '}') :
      cuts ('\n' :: after) = ('\n' :: cut) :: others := cuts_cons (Or.inr open_) own
  rcases fed with rfl | feed
  · -- Nothing stands in front of the row, so that the first cut takes it in.
    have whole := cuts_line single (behind (first rfl))
    refine ⟨[], [], linesOf cut, others.map linesOf, by simp [own], ?_⟩
    rw [List.nil_append, whole, List.map_cons, linesOf_append_feed]
    rfl
  · obtain ⟨text, rfl⟩ := List.getLast?_eq_some_iff.mp feed
    rcases List.eq_nil_or_concat (cuts text) with none | ⟨above, last, upper⟩
    · exact absurd none (cuts_ne_nil text)
    rw [List.concat_eq_append] at upper
    have start : text ++ ['\n'] ++ row ++ '\n' :: after =
        text ++ '\n' :: (row ++ '\n' :: after) := by simp
    rw [start, List.append_assoc, List.singleton_append]
    by_cases brace : after.head? = some '}'
    · obtain ⟨rest, rfl⟩ := List.head?_eq_some_iff.mp brace
      refine ⟨above.map linesOf, linesOf last, [], (cuts rest).map linesOf, ?_, ?_⟩
      · rw [cuts_append, upper]
        simp
      · rw [cuts_insert_of_closing single opened upper]
        simp [linesOf_append_feed]
    · have further : cuts ('\n' :: (row ++ '\n' :: after)) =
          ('\n' :: (row ++ '\n' :: cut)) :: others :=
        cuts_cons (Or.inr (head?_append_of_opened opened (by simp)))
          (cuts_line single (behind brace))
      refine ⟨above.map linesOf, linesOf last, linesOf cut, others.map linesOf,
        ?_, ?_⟩
      · rw [cuts_append_of_opened (by simp) upper (behind brace)]
        simp [linesOf_append_feed]
      · rw [cuts_append_of_opened (by simp) upper further]
        simp [linesOf_append_feed]

/-! ## Rows that leave nothing -/

theorem headerName?_append (left right : List Text) :
    headerName? (left ++ right) = (headerName? left).or (headerName? right) := by
  rw [headerName?, List.filter_append, List.findSome?_append]
  rfl

theorem record_insert_of_isRemark
    {remarks : List Text} (each : ∀ row ∈ remarks, IsRemark row) (mined : Mined)
    (left right : List Text) :
    record mined (left ++ (remarks ++ right)) = record mined (left ++ right) := by
  rw [record, record, headerName?_append, headerName?_append_of_isRemark each,
    ← headerName?_append, ofLines, ofLines, List.foldl_append, List.foldl_append,
    foldl_keepLine_of_isRemark each, ← List.foldl_append]

theorem linesOf_of_isLine (single : IsLine row) :
    linesOf row = [trim row].filter (!·.isEmpty) := by
  cases row with
  | nil => rfl
  | cons c row => rw [linesOf, lines_of_isLine single (by simp), List.map_singleton]

/-- What a row leaves that says nothing, blank or not. -/
theorem trim_of_isIdleBehind (idle : IsIdleBehind before row) :
    trim row = [] ∨ IsRemark (trim row) := by
  cases idle with
  | comment plain => exact Or.inr ⟨plain.comment, plain.unmarked⟩
  | blank empty _ => exact Or.inl empty

theorem opened_of_isIdleBehind (idle : IsIdleBehind before row) :
    row.head? ≠ some '}' := by
  intro brace
  obtain ⟨rest, rfl⟩ := List.head?_eq_some_iff.mp brace
  have silent : IsSilent (trim ('}' :: rest)) :=
    (trim_of_isIdleBehind idle).imp_right And.left
  apply opened_of_isSilent silent
  rw [trim_cons_of_not_blank (by decide)]
  rfl

/-- What is recovered from a document does not depend on a row that says nothing. -/
theorem ofText_insert
    (fed : IsFed before) (single : IsLine row) (idle : IsIdleBehind before row)
    (first : before = [] → after.head? ≠ some '}') :
    ofText (before ++ row ++ '\n' :: after) = ofText (before ++ after) := by
  have remarks : ∀ remark ∈ linesOf row, IsRemark remark := by
    rw [linesOf_of_isLine single]
    intro remark member
    obtain ⟨here, filled⟩ := List.mem_filter.mp member
    rw [List.mem_singleton.mp here] at filled ⊢
    exact (trim_of_isIdleBehind idle).resolve_left (by simpa using filled)
  obtain ⟨above, left, right, below, without, within⟩ :=
    exists_cuts_insert fed single (opened_of_isIdleBehind idle) first
  rw [ofText_eq, ofText_eq, without, within, List.foldl_append, List.foldl_append,
    List.foldl_cons, List.foldl_cons, record_insert_of_isRemark remarks]

end Mining

/-- No closing brace stands in front of the first block. -/
theorem Laid.opened_of_head
    {lines : List Line} {blocks : List Block} (laid : Laid lines blocks) {first : Line}
    (start : lines.head? = some first) : first.text.head? ≠ some '}' := by
  cases laid with
  | nil => contradiction
  | gap empty _ =>
      obtain rfl := Option.some.inj start
      intro closing
      obtain ⟨_, code⟩ := Line.code_of_closing closing
      rw [empty] at code
      contradiction
  | block opens _ _ _ =>
      obtain rfl := Option.some.inj start
      exact opens.opened

namespace Schema

open Text

/-- No document that is accepted starts with a closing brace. -/
theorem head?_of_parse {text : Text} {schema : Schema}
    (read : parse text = .ok schema) : text.head? ≠ some '}' := by
  intro brace
  obtain ⟨rest, rfl⟩ := List.head?_eq_some_iff.mp brace
  obtain ⟨line, others, rows⟩ :=
    exists_lines_cons (show isLineEnd '}' = false by decide) rest
  obtain ⟨blocks, split, _⟩ := Reading.bind_eq_ok.mp read
  have start : (Line.ofText ('}' :: rest)).head? = some ⟨1, trim ('}' :: line)⟩ := by
    rw [Line.ofText_eq, rows]
    rfl
  apply (Block.laid_of_split split).opened_of_head start
  rw [trim_cons_of_not_blank (by decide)]
  rfl

/-- A comment between two lines of a document, or a blank row inside a block, changes
nothing in what is read from the document and recovered from it.  A document that is
refused is still refused for the same reason, at the same line of its own. -/
theorem ofDocument_insert
    {before row : Text} (fed : IsFed before) (single : IsLine row)
    (idle : IsIdleBehind before row) (after : Text) :
    ofDocument (before ++ row ++ '\n' :: after) =
      (ofDocument (before ++ after)).mapError
        (ParseError.moved (shiftedBehind (lines before).length)) := by
  rw [ofDocument, ofDocument, parse_insert fed single idle]
  cases read : parse (before ++ after) with
  | error error => rfl
  | ok schema =>
      have first : before = [] → after.head? ≠ some '}' := by
        rintro rfl
        exact head?_of_parse read
      rw [Mining.ofText_insert fed single idle first]
      rfl

/-- A comment moves the line of an unknown type, and a blank row between the fields
leaves a column name where it is. -/
theorem ofDocument_insert_user :
    ofDocument ("model U \x7b\n".toList ++ "  // all".toList ++
        '\n' :: "  i Int\n  r R\n\x7d".toList) =
          .error ⟨.unknownType "R", 4⟩ ∧
      ofDocument ("model U \x7b\n".toList ++ [] ++
        '\n' :: "  i Int @map(\"k\")\n\x7d".toList) =
          .ok { models :=
            [{ name := "U"
               fields :=
                [{ name := "i", type := "Int", extras := { columnName := "k" } }] }] } := by
  have plain : IsPlainComment "  // all".toList :=
    ⟨by decide, by decide, by decide⟩
  have inside : Block.IsOpenBehind (Line.ofText "model U \x7b\n".toList) :=
    ⟨[], { kind := .model, name := "U", line := 1, documentation := none, body := [] },
      by decide +kernel⟩
  constructor
  · rw [ofDocument_insert (by decide) (by decide) (.comment plain)]
    decide +kernel
  · rw [ofDocument_insert (by decide) (by decide) (.blank rfl inside)]
    decide +kernel

end Schema

end SchemaCompose
