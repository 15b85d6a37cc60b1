import SchemaCompose.Proofs.Mining.Bodies

/-!
# Lines and cuts

The lines of a cut are lines of the document, apart from what stands behind a closing
brace (`mem_lines_of_mem_cuts`).  In an accepted document that rest is a comment, so
that no cut is kept under a name that none of its headers has
(`headerName?_ne_of_mem_cuts`).
-/

namespace SchemaCompose

/-! ## Comments -/

namespace Text

/-- The row is blank or nothing but a comment. -/
def IsSilent (row : Text) : Prop :=
  row = [] ∨ Mining.isComment row = true

theorem isSilent_of_slashes (rest : Text) : IsSilent ('/' :: '/' :: rest) :=
  Or.inr rfl

/-- Where no code comes before a comment, only white space does. -/
theorem trimStart_of_no_code
    {text : Text} (empty : code text = []) :
    trimStart text = [] ∨ ∃ rest, trimStart text = '/' :: '/' :: rest := by
  rw [code, trimEnd_eq_nil_iff] at empty
  induction text with
  | nil => exact Or.inl rfl
  | cons c text ih =>
      rw [beforeComment] at empty
      split_ifs at empty with starts
      · obtain ⟨_, rfl, next⟩ := starts
        obtain ⟨rest, rfl⟩ := List.head?_eq_some_iff.mp next
        exact Or.inr ⟨rest, rfl⟩
      · rw [List.forall_mem_cons] at empty
        have outside : LiteralState.next .outside c = .outside := by
          rw [LiteralState.next, if_neg]
          rintro rfl
          have visible := empty.1
          contradiction
        rw [outside] at empty
        rw [trimStart_cons_of_blank empty.1]
        exact ih empty.2

theorem opened_of_isSilent {row : Text} (silent : IsSilent row) :
    row.head? ≠ some '}' := by
  rcases silent with rfl | comment
  · simp
  · intro closing
    rw [Mining.isComment, startsWith, after?_of_head? (c := '/') rfl
      (by rw [closing]; decide)] at comment
    contradiction

theorem isSilent_of_code
    {row : Text} (trimmed : IsTrimmed row) (empty : code row = []) :
    IsSilent row := by
  rcases trimStart_of_no_code empty with none | ⟨rest, comment⟩
  · exact Or.inl (trimmed.trimStart_eq.symm.trans none)
  · rw [trimmed.trimStart_eq] at comment
    rw [comment]
    exact isSilent_of_slashes rest

/-- Behind a brace that closes a block stands nothing but a comment. -/
theorem isSilent_behind_brace
    {rest : Text} (closes : code (trim ('}' :: rest)) = ['}']) :
    IsSilent (trim rest) := by
  rw [trim_cons_of_not_blank (by decide)] at closes
  have split : code ('}' :: trimEnd rest) = ['}'] ++ code (trimEnd rest) :=
    code_append (show '/' ∉ ['}'] by decide) (by decide) (by decide) _
  rw [split] at closes
  obtain ⟨tail, whole, blank⟩ := exists_trimEnd_append rest
  rcases trimStart_of_no_code (by simpa using closes) with none | ⟨further, comment⟩
  · refine Or.inl ?_
    have empty : ∀ c ∈ rest, isBlank c = true := by
      rw [whole, List.forall_mem_append]
      exact ⟨List.dropWhile_eq_nil_iff.mp none, blank⟩
    rw [trim, trimStart, List.dropWhile_eq_nil_iff.mpr empty]
    rfl
  · have start : trimStart rest = '/' :: '/' :: (further ++ tail) := by
      have lead := List.takeWhile_append_dropWhile (p := isBlank) (l := trimEnd rest)
      rw [← trimStart, comment] at lead
      rw [whole, ← lead, List.append_assoc, trimStart_append_of_blank
        fun c member => List.mem_takeWhile_imp member]
      rfl
    rw [trim, start, trimEnd_cons_of_not_blank (by decide),
      trimEnd_cons_of_not_blank (by decide)]
    exact isSilent_of_slashes _

end Text

namespace Mining

open Text

/-! ## Cuts of an appended text -/

theorem cuts_ne_nil (text : Text) : cuts text ≠ [] := by
  rw [cuts.eq_def]
  split
  · simp
  · simp
  · split
    · simp
    · simp

theorem cuts_append (left right : Text) :
    cuts (left ++ '\n' :: '}' :: right) = cuts left ++ cuts right := by
  induction left with
  | nil =>
      rw [List.nil_append, cuts, cuts]
      rfl
  | cons c left ih =>
      obtain ⟨cut, others, own⟩ := List.exists_cons_of_ne_nil (cuts_ne_nil left)
      rw [own] at ih
      by_cases token : c = '\n' ∧ left.head? = some '}'
      · -- The brace opens a further cut, of which the induction knows the rest.
        obtain ⟨rfl, brace⟩ := token
        obtain ⟨rest, rfl⟩ := List.head?_eq_some_iff.mp brace
        obtain ⟨first, more, whole⟩ :=
          List.exists_cons_of_ne_nil (cuts_ne_nil (rest ++ '\n' :: '}' :: right))
        obtain ⟨start, further, short⟩ :=
          List.exists_cons_of_ne_nil (cuts_ne_nil rest)
        have inside : '}' ≠ '\n' := by decide
        rw [List.cons_append, cuts_cons (Or.inl inside) whole, ← own,
          cuts_cons (Or.inl inside) short] at ih
        obtain ⟨same, sameFurther⟩ := List.cons.inj ih
        rw [List.cons_append, List.cons_append, cuts, cuts, whole, short,
          (List.cons.inj same).2, sameFurther]
        rfl
      · have closed : c ≠ '\n' ∨ left.head? ≠ some '}' := by
          rwa [← not_and_or]
        have closed' : c ≠ '\n' ∨ (left ++ '\n' :: '}' :: right).head? ≠ some '}' := by
          refine closed.imp_right fun open_ => ?_
          cases left with
          | nil => simp
          | cons d left => exact open_
        rw [List.cons_append, cuts_cons closed' ih, cuts_cons closed own]
        rfl

/-- A text without a closing brace at the start of a line is one cut. -/
theorem cuts_eq_singleton {text : Text} (whole : ¬ ['\n', '}'] <:+: text) :
    cuts text = [text] := by
  induction text with
  | nil => rfl
  | cons c text ih =>
      have closed : c ≠ '\n' ∨ text.head? ≠ some '}' := by
        by_contra token
        rw [not_or, not_not, not_not] at token
        obtain ⟨rfl, brace⟩ := token
        obtain ⟨rest, rfl⟩ := List.head?_eq_some_iff.mp brace
        exact whole ⟨[], rest, rfl⟩
      exact cuts_cons closed (ih fun inside => whole (List.infix_cons inside))

/-- A line of a cut is a line of the text, or what a line says behind the brace that
it starts with. -/
theorem mem_lines_of_mem_cuts
    {text cut line : Text} (member : cut ∈ cuts text) (inCut : line ∈ lines cut) :
    line ∈ lines text ∨ '}' :: line ∈ (lines text).tail := by
  induction length : text.length using Nat.strong_induction_on generalizing text with
  | _ n ih =>
      by_cases whole : ['\n', '}'] <:+: text
      · obtain ⟨left, right, rfl⟩ := whole
        have split : left ++ ['\n', '}'] ++ right = left ++ '\n' :: '}' :: right := by
          simp
        have feed : lines (left ++ ['\n']) ≠ [] := lines_ne_nil (by simp)
        obtain ⟨first, above, upper⟩ := List.exists_cons_of_ne_nil feed
        rw [split] at member length ⊢
        rw [cuts_append, List.mem_append] at member
        rw [lines_append_break, upper]
        rw [List.length_append, List.length_cons, List.length_cons] at length
        rcases member with inLeft | inRight
        · have starts := prefix_lines_feed left
          rw [upper] at starts
          rcases ih left.length (by omega) inLeft rfl with own | behind
          · exact Or.inl (List.mem_append_left _ (starts.subset own))
          · cases lower : lines left with
            | nil => simp [lower] at behind
            | cons next others =>
                rw [lower, List.cons_prefix_cons] at starts
                rw [lower] at behind
                exact Or.inr (List.mem_append_left _ (starts.2.subset behind))
        · have brace := lines_cons_of_not_end (show isLineEnd '}' = false by decide) right
          rcases ih right.length (by omega) inRight rfl with own | behind
          · cases lower : lines right with
            | nil => simp [lower] at own
            | cons next others =>
                rw [lower] at own brace
                rw [brace]
                rcases List.mem_cons.mp own with rfl | further
                · exact Or.inr (List.mem_append_right _ List.mem_cons_self)
                · exact Or.inl (List.mem_append_right _
                    (List.mem_cons_of_mem _ further))
          · cases lower : lines right with
            | nil => simp [lower] at behind
            | cons next others =>
                rw [lower] at behind brace
                rw [brace]
                exact Or.inr (List.mem_append_right _
                  (List.mem_cons_of_mem _ behind))
      · rw [cuts_eq_singleton whole, List.mem_singleton] at member
        exact Or.inl (member ▸ inCut)

/-- A row of a cut is a row of the text, or nothing stands in it but a comment. -/
theorem mem_linesOf_cases
    {text cut row : Text}
    (closed : ∀ row ∈ (lines text).map trim, row.head? = some '}' → code row = ['}'])
    (member : cut ∈ cuts text) (inCut : row ∈ linesOf cut) :
    row ∈ (lines text).map trim ∨ IsSilent row := by
  obtain ⟨line, inLines, rfl⟩ := List.mem_map.mp (List.mem_of_mem_filter inCut)
  rcases mem_lines_of_mem_cuts member inLines with own | behind
  · exact Or.inl (List.mem_map_of_mem own)
  · have code := closed _ (List.mem_map_of_mem (List.mem_of_mem_tail behind))
    rw [trim_cons_of_not_blank (by decide)] at code
    apply Or.inr
    apply isSilent_behind_brace
    rw [trim_cons_of_not_blank (by decide)]
    exact code rfl

/-! ## Cuts that hold nothing of a name -/

/-- The row does not show a header of the model of a name, and where it starts with
a closing brace, only a comment stands behind the brace. -/
structure IsForeign (name row : Text) : Prop where
  unheaded : isComment row = true ∨ modelName? row ≠ some name
  closed : row.head? = some '}' → code row = ['}']

theorem modelName?_of_isSilent
    {row : Text} (isSilent : IsSilent row) (name : Text) :
    isComment row = true ∨ modelName? row ≠ some name := by
  rcases isSilent with rfl | comment
  · refine Or.inr fun found => ?_
    obtain ⟨_, _, _, same, _⟩ := exists_of_modelName? found
    simp at same
  · exact Or.inl comment

/-- A cut of rows that show no header is not kept under the name. -/
theorem headerName?_ne_of_unheaded
    {name : Text} {rows : List Text}
    (unheaded : ∀ row ∈ rows, isComment row = true ∨ modelName? row ≠ some name) :
    headerName? rows ≠ some name := by
  intro found
  obtain ⟨row, member, named⟩ := List.exists_of_findSome?_eq_some found
  rw [List.mem_filter] at member
  rcases unheaded row member.1 with comment | other
  · simp [comment] at member
  · exact other named

theorem headerName?_ne_of_mem_cuts
    {name text : Text} (foreign : ∀ line ∈ lines text, IsForeign name (trim line)) :
    ∀ cut ∈ cuts text, headerName? (linesOf cut) ≠ some name := by
  intro cut member
  apply headerName?_ne_of_unheaded
  intro row inCut
  have closed : ∀ row ∈ (lines text).map trim, row.head? = some '}' → code row = ['}'] :=
    List.forall_mem_map.mpr fun line own => (foreign line own).closed
  rcases mem_linesOf_cases closed member inCut with inText | silent
  · obtain ⟨line, own, rfl⟩ := List.mem_map.mp inText
    exact (foreign line own).unheaded
  · exact modelName?_of_isSilent silent name

/-- What stands behind a brace is foreign where the whole row is. -/
theorem foreign_behind_brace
    {name text : Text}
    (foreign : ∀ line ∈ lines ('}' :: text), IsForeign name (trim line)) :
    ∀ line ∈ lines text, IsForeign name (trim line) := by
  have brace := lines_cons_of_not_end (show isLineEnd '}' = false by decide) text
  cases rows : lines text with
  | nil => simp
  | cons first others =>
      rw [rows] at brace
      rw [brace, List.forall_mem_cons] at foreign
      rw [List.forall_mem_cons]
      refine ⟨?_, foreign.2⟩
      have closes : code (trim ('}' :: first)) = ['}'] := by
        apply foreign.1.closed
        rw [trim_cons_of_not_blank (by decide)]
        rfl
      have silent := isSilent_behind_brace closes
      refine ⟨modelName?_of_isSilent silent name, ?_⟩
      exact fun closing => absurd closing (opened_of_isSilent silent)

end Mining

/-! ## Lines of an accepted document -/

namespace Block

open Mining

theorem not_isAlpha_of_isBlank {c : Char} (blank : Text.isBlank c = true) :
    c.isAlpha = false := by
  by_contra letter
  rw [Bool.not_eq_false] at letter
  have word : Text.isWord c = true :=
    Text.isWord_of_isNameStart (by rw [Text.isNameStart, letter]; rfl)
  rw [Text.not_isWord_of_isBlank blank] at word
  contradiction

/-- Both readers of headers agree on the name of a model. -/
theorem header?_of_isHeaderOf
    {name code : Text} (isName : Text.IsName name)
    (isHeader : Text.IsHeaderOf name code) {found : Text × Text}
    (read : header? code = some found) :
    found = ("model".toList, name) := by
  obtain ⟨behind, between, tail, rfl, blank, start, _, word⟩ := isHeader.parts isName
  have letters : ∀ c ∈ "model".toList, c.isAlpha = true := by decide
  have ends : ∀ c ∈ behind.head?, c.isAlpha = false := by
    intro c head
    rw [head] at blank
    exact not_isAlpha_of_isBlank blank
  obtain ⟨taken, dropped⟩ := Text.takeWhile_append_of_head letters ends
  rw [header?, taken, dropped] at read
  simp only [start, word] at read
  split_ifs at read
  exact (Option.some.inj read).symm

theorem Opens.opened {block : Block} {header : Line} (opens : block.Opens header) :
    header.text.head? ≠ some '}' := by
  intro closing
  obtain ⟨_, found, _⟩ := opens.named
  obtain ⟨rest, code⟩ := Line.code_of_closing closing
  rw [code] at found
  contradiction

theorem Opens.isForeign
    {block : Block} {header : Line} (opens : block.Opens header) {name : Text}
    (isName : Text.IsName name)
    (other : block.kind = .model → block.name ≠ name) :
    IsForeign name header.text := by
  obtain ⟨keyword, found, known⟩ := opens.named
  constructor
  · refine Or.inr fun named => ?_
    have isHeader := (Text.isHeaderOf_of_modelName? named).code isName
    have same := header?_of_isHeaderOf isName isHeader found
    rw [(Prod.mk.inj same).1] at known
    have kind : some .model = some block.kind := known
    exact other (Option.some.inj kind).symm (Prod.mk.inj same).2
  · exact fun closing => absurd closing opens.opened

end Block

end SchemaCompose
