import SchemaCompose.Proofs.Disk.Contents

/-!
# Writing into a tree

On a tree everything stands in a directory.  What keeps a plain path from being made is
then decided by the files that stand on its way and by the lengths of its names
(`Disk.obstacle`), and not by how far its directories are there already.  Making
directories on the way to another place therefore does not change how an attempt to
write ends (`writeWithDirectories_alike`), except that a name that is too long may be
noticed at another directory.
-/

namespace SchemaCompose

/-! ## Plain paths -/

/-- A path that never goes upward. -/
structure Path.IsPlain (path : Path) : Prop where
  proper : path.IsProper
  direct : upward ∉ path.parts

/-- The other path leads to the same place or to a directory above it. -/
def Path.IsAbove (upper path : Path) : Prop :=
  upper.anchor = path.anchor ∧ upper.parts <+: path.parts

namespace Path

theorem IsAbove.refl (path : Path) : path.IsAbove path :=
  ⟨rfl, List.prefix_refl _⟩

theorem isAbove_parent (path : Path) : path.parent.IsAbove path :=
  ⟨rfl, List.dropLast_prefix _⟩

theorem IsAbove.trans {upper middle path : Path} (first : upper.IsAbove middle)
    (second : middle.IsAbove path) : upper.IsAbove path :=
  ⟨first.1.trans second.1, first.2.trans second.2⟩

theorem IsAbove.prefix_append {upper path : Path} (above : upper.IsAbove path)
    (place : Location) : place ++ upper.parts <+: place ++ path.parts :=
  (List.prefix_append_right_inj _).mpr above.2

theorem IsPlain.of_isAbove {upper path : Path} (plain : path.IsPlain)
    (above : upper.IsAbove path) : upper.IsPlain :=
  ⟨fun part member => plain.proper part (above.2.subset member),
    fun member => plain.direct (above.2.subset member)⟩

theorem IsPlain.parent {path : Path} (plain : path.IsPlain) : path.parent.IsPlain :=
  plain.of_isAbove path.isAbove_parent

/-- Each name of a plain path leads one directory further down. -/
theorem IsPlain.forall_mem {path : Path} (plain : path.IsPlain) :
    ∀ part ∈ path.parts, isName part = true ∧ part ≠ upward := by
  refine fun part member => ⟨(plain.proper part member).1, ?_⟩
  rintro rfl
  exact plain.direct member

theorem hasNul_parent {path : Path} (noNul : path.hasNul = false) :
    path.parent.hasNul = false := by
  rw [hasNul, List.any_eq_false] at noNul ⊢
  exact fun part member => noNul part (List.dropLast_subset _ member)

theorem parts_eq_concat {path : Path} (filled : path.parts ≠ []) :
    path.parts = path.parent.parts ++ [path.parts.getLast filled] :=
  (List.dropLast_append_getLast filled).symm

theorem text_of_parts_ne_nil {path : Path} (filled : path.parts ≠ []) :
    path.text = path.anchor.text ++ Text.join ['/'] path.parts := by
  obtain ⟨anchor, parts⟩ := path
  cases parts with
  | nil => contradiction
  | cons part parts => cases anchor <;> rfl

theorem withoutUpward_of_direct {parts : List Text} (direct : upward ∉ parts)
    (taken : List Text) : withoutUpward taken parts = taken ++ parts := by
  induction parts generalizing taken with
  | nil => simp [withoutUpward]
  | cons part parts ih =>
      rw [List.mem_cons, not_or] at direct
      rw [withoutUpward, if_neg (Ne.symm direct.1), ih direct.2, List.append_assoc,
        List.singleton_append]

end Path

namespace Disk

/-- A text with another one behind it is longer. -/
theorem isTooLong_of_append {text more : Text}
    (short : isTooLong (text ++ more) = false) : isTooLong text = false := by
  rw [isTooLong, decide_eq_false_iff_not] at short ⊢
  rw [Utf8.encode, List.flatMap_append, List.length_append] at short
  exact fun long => short (Nat.le_trans long (Nat.le_add_right _ _))

theorem isTooLong_parent {path : Path} (short : isTooLong path.text = false) :
    isTooLong path.parent.text = false := by
  obtain ⟨anchor, parts⟩ := path
  rcases parts.eq_nil_or_concat with rfl | ⟨lead, name, rfl⟩
  · exact short
  rw [List.concat_eq_append] at short ⊢
  rw [Path.parent, List.dropLast_concat]
  cases lead with
  | nil =>
      cases anchor with
      | here => rfl
      | root => rfl
      | doubleRoot => rfl
  | cons first lead =>
      rw [Path.text_of_parts_ne_nil (by simp), Text.join_concat (by simp),
        List.append_assoc, ← List.append_assoc] at short
      rw [Path.text_of_parts_ne_nil (by simp)]
      exact isTooLong_of_append short

/-! ## Trees -/

variable {disk further : Disk}

/-- Everything stands in a directory, and the working directory is one. -/
structure IsTree (disk : Disk) : Prop where
  above : ∀ place name, (disk.entryAt (place ++ [name])).isSome →
    disk.isDirectoryAt place = true
  home : disk.isDirectoryAt disk.workingDirectory = true

/-- Of a tree it is enough to know its entries. -/
theorem isTree_of_entries
    (above : ∀ entry ∈ disk.entries, disk.isDirectoryAt entry.1.dropLast = true)
    (home : disk.isDirectoryAt disk.workingDirectory = true) : disk.IsTree := by
  refine ⟨fun place name present => ?_, home⟩
  rw [entryAt, if_neg (by simp)] at present
  obtain ⟨entry, found⟩ := Option.isSome_iff_exists.mp present
  simpa using above _ (Registry.mem_of_find? found)

theorem isDirectoryAt_put_of_ne {location other : Location}
    (different : other ≠ location) (entry : Entry) :
    (disk.put location entry).isDirectoryAt other = disk.isDirectoryAt other := by
  rw [isDirectoryAt, isDirectoryAt, entryAt_put_of_ne different]

namespace IsTree

theorem start (tree : disk.IsTree) (anchor : Anchor) :
    disk.isDirectoryAt (disk.start anchor) = true := by
  cases anchor with
  | here => exact tree.home
  | root => rfl
  | doubleRoot => rfl

theorem isDirectoryAt_dropLast (tree : disk.IsTree) {place : Location}
    (directory : disk.isDirectoryAt place = true) :
    disk.isDirectoryAt place.dropLast = true := by
  rcases place.eq_nil_or_concat with rfl | ⟨front, name, rfl⟩
  · exact directory
  · rw [List.concat_eq_append] at directory ⊢
    rw [List.dropLast_concat]
    exact tree.above front name (by simp [isDirectoryAt_iff.mp directory])

/-- Something new in a directory, and a file in the place of a file, keep the tree. -/
theorem put (tree : disk.IsTree) {place : Location} {name : Text}
    (directory : disk.isDirectoryAt place = true)
    (noDirectory : disk.isDirectoryAt (place ++ [name]) = false) (entry : Entry) :
    (disk.put (place ++ [name]) entry).IsTree := by
  have kept : ∀ other, disk.isDirectoryAt other = true →
      (disk.put (place ++ [name]) entry).isDirectoryAt other = true := by
    intro other there
    rw [isDirectoryAt_put_of_ne _ entry, there]
    rintro rfl
    simp [noDirectory] at there
  refine ⟨fun other inner present => ?_, kept _ tree.home⟩
  by_cases here : other ++ [inner] = place ++ [name]
  · rw [(List.append_inj' here rfl).1]
    exact kept _ directory
  · rw [entryAt_put_of_ne here] at present
    exact kept _ (tree.above other inner present)

/-- Nothing stands below what is no directory. -/
theorem entryAt_append (tree : disk.IsTree) {place : Location}
    (noDirectory : disk.isDirectoryAt place = false) {names : List Text}
    (filled : names ≠ []) : disk.entryAt (place ++ names) = none := by
  induction names generalizing place with
  | nil => contradiction
  | cons name names ih =>
      have free : disk.entryAt (place ++ [name]) = none := by
        rw [← Option.not_isSome_iff_eq_none]
        intro present
        exact absurd (tree.above place name present) (by simp [noDirectory])
      cases names with
      | nil => exact free
      | cons next names =>
          have below : disk.entryAt (place ++ [name] ++ next :: names) = none :=
            ih (by simp [Disk.isDirectoryAt, free]) (List.cons_ne_nil next names)
          simpa using below

theorem entryAt_append_of_none (tree : disk.IsTree) {place : Location}
    (free : disk.entryAt place = none) (names : List Text) :
    disk.entryAt (place ++ names) = none := by
  cases names with
  | nil => simpa using free
  | cons name names =>
      exact tree.entryAt_append (by simp [Disk.isDirectoryAt, free])
        (List.cons_ne_nil name names)

end IsTree

/-! ## Following a plain path -/

/-- The first thing on the way down from a place that keeps directories from being made
for the names: a name that is too long, or a file. -/
def obstacle (disk : Disk) : Location → List Text → Option Refusal
  | _, [] => none
  | place, name :: names =>
    if nameLimit < (Utf8.encode name).length then some .nameTooLong
    else if (disk.contentAt (place ++ [name])).isSome then
      some (if names = [] then .occupied else .notDirectory)
    else disk.obstacle (place ++ [name]) names

/-- An obstacle depends on the files on the way alone. -/
theorem obstacle_congr {disk other : Disk} {place : Location} {names : List Text}
    (same : ∀ lead, lead <+: names →
      other.contentAt (place ++ lead) = disk.contentAt (place ++ lead)) :
    other.obstacle place names = disk.obstacle place names := by
  induction names generalizing place with
  | nil => rfl
  | cons name names ih =>
      have first := same [name] (by simp)
      have rest : other.obstacle (place ++ [name]) names =
          disk.obstacle (place ++ [name]) names := ih fun lead behind => by
        simpa using same (name :: lead) (by simpa using behind)
      rw [obstacle, obstacle, first, rest]

theorem exists_long_of_obstacle {place : Location} {names : List Text}
    (found : disk.obstacle place names = some .nameTooLong) :
    ∃ name ∈ names, nameLimit < (Utf8.encode name).length := by
  induction names generalizing place with
  | nil => cases found
  | cons name names ih =>
      rw [obstacle] at found
      split_ifs at found with long file last
      · exact ⟨name, List.mem_cons_self, long⟩
      · cases found
      · cases found
      · obtain ⟨other, member, wide⟩ := ih found
        exact ⟨other, List.mem_cons_of_mem name member, wide⟩

/-- One more name is an obstacle if there is none before it. -/
theorem obstacle_concat {place : Location} {names : List Text} {name : Text} :
    disk.obstacle place (names ++ [name]) =
      match disk.obstacle place names with
      | some .occupied => some .notDirectory
      | some refusal => some refusal
      | none => disk.obstacle (place ++ names) [name] := by
  induction names generalizing place with
  | nil => simp [obstacle]
  | cons first names ih =>
      rw [List.cons_append, obstacle, obstacle, ih]
      split_ifs with long file last none
      · rfl
      · simp at last
      · simp at last
      · rfl
      · rfl
      · simp

/-- Where the names of a plain path lead. -/
theorem eq_of_walk {place location : Location} {names : List Text}
    (plain : ∀ name ∈ names, isName name = true ∧ name ≠ upward)
    (leads : disk.walk place names = .ok location) : location = place ++ names := by
  induction names generalizing place with
  | nil => simpa using (Except.ok.inj leads).symm
  | cons name names ih =>
      rw [List.forall_mem_cons] at plain
      rw [walk] at leads
      split_ifs at leads with outside unnamed up wide absent
      · simp [plain.1.1] at unnamed
      · exact absurd up plain.1.2
      · rw [ih plain.2 leads, List.append_assoc, List.singleton_append]

/-- Below a place where nothing stands, only names can be obstacles. -/
theorem IsTree.obstacle_of_none (tree : disk.IsTree) {place : Location}
    (free : disk.entryAt place = none) (names : List Text) :
    disk.obstacle place names = none ∨ disk.obstacle place names = some .nameTooLong := by
  induction names generalizing place with
  | nil => exact Or.inl rfl
  | cons name names ih =>
      have below := tree.entryAt_append_of_none free [name]
      have noFile : disk.contentAt (place ++ [name]) = none := by rw [contentAt, below]
      rw [obstacle, noFile, if_neg (by simp : ¬ (none : Option (List UInt8)).isSome = true)]
      split_ifs with long
      · exact Or.inr rfl
      · exact ih below

/-- Following the names of a plain path ends in a place where a directory or a file
stands, with nothing there yet, or at the obstacle on the way. -/
theorem IsTree.walk_cases (tree : disk.IsTree) {place : Location} {names : List Text}
    (plain : ∀ name ∈ names, isName name = true ∧ name ≠ upward)
    (directory : disk.isDirectoryAt place = true) :
    (disk.walk place names = .ok (place ++ names) ∧
      disk.isDirectoryAt (place ++ names) = true ∧ disk.obstacle place names = none) ∨
    (disk.walk place names = .ok (place ++ names) ∧
      disk.isDirectoryAt (place ++ names) = false ∧
      disk.obstacle place names = some .occupied) ∨
    (disk.walk place names = .error .missing ∧ disk.entryAt (place ++ names) = none ∧
      (disk.obstacle place names = none ∨
        disk.obstacle place names = some .nameTooLong)) ∨
    ∃ refusal, disk.walk place names = .error refusal ∧
      (refusal = .notDirectory ∨ refusal = .nameTooLong) ∧
      disk.obstacle place names = some refusal := by
  induction names generalizing place with
  | nil => exact Or.inl ⟨by simp [walk], by simpa using directory, rfl⟩
  | cons name names ih =>
      rw [List.forall_mem_cons] at plain
      by_cases long : nameLimit < (Utf8.encode name).length
      · exact Or.inr (Or.inr (Or.inr ⟨.nameTooLong, by simp [walk, directory, plain.1, long],
          Or.inr rfl, by simp [obstacle, long]⟩))
      have regroup : place ++ name :: names = place ++ [name] ++ names := by simp
      rw [walk, obstacle, regroup]
      simp only [directory, plain.1, long, Bool.not_true, Bool.false_eq_true, if_false]
      cases present : disk.entryAt (place ++ [name]) with
      | none =>
          have noFile : disk.contentAt (place ++ [name]) = none := by
            rw [contentAt, present]
          refine Or.inr (Or.inr (Or.inl ⟨by simp, tree.entryAt_append_of_none present names,
            ?_⟩))
          simpa [noFile] using tree.obstacle_of_none present names
      | some entry =>
          cases entry with
          | directory =>
              have below := isDirectoryAt_iff.mpr present
              simpa [contentAt_of_isDirectoryAt below] using ih plain.2 below
          | file octets =>
              have noDirectory : disk.isDirectoryAt (place ++ [name]) = false := by
                simp [Disk.isDirectoryAt, present]
              have file : (disk.contentAt (place ++ [name])).isSome = true := by
                simp [contentAt_eq_some.mpr present]
              cases names with
              | nil => exact Or.inr (Or.inl (by simp [walk, noDirectory, file]))
              | cons next names =>
                  exact Or.inr (Or.inr (Or.inr ⟨.notDirectory, by simp [walk, noDirectory],
                    Or.inl rfl, by simp [file]⟩))

/-! ## Making the directories of a plain path -/

/-- What a path leads to in a tree is at the place that its names lead to. -/
theorem IsTree.isDirectory_iff (tree : disk.IsTree) {path : Path} (plain : path.IsPlain)
    (noNul : path.hasNul = false) (short : isTooLong path.text = false) :
    disk.isDirectory path = true ↔
      disk.walk (disk.start path.anchor) path.parts =
        .ok (disk.start path.anchor ++ path.parts) ∧
      disk.isDirectoryAt (disk.start path.anchor ++ path.parts) = true := by
  rw [Disk.isDirectory_iff]
  constructor
  · rintro ⟨-, location, leads, present⟩
    have walked := (walk_of_locate plain.proper leads).2
    rw [← eq_of_walk plain.forall_mem walked]
    exact ⟨walked, isDirectoryAt_iff.mpr present⟩
  · rintro ⟨walked, directory⟩
    obtain ⟨anchored, filled, lead, pieces, unnamed, -⟩ := plain.proper.text_eq
    refine ⟨noNul, _, ?_, isDirectoryAt_iff.mp directory⟩
    rw [locate, short, if_neg Bool.false_ne_true, if_neg filled, anchored, pieces,
      walk_append, walk_lead unnamed (tree.start path.anchor)]
    exact walked

theorem slot_of_concat {settled : Refusal} {path : Path} {lead : List Text} {name : Text}
    (parts : path.parts = lead ++ [name]) (direct : name ≠ upward)
    (short : isTooLong path.text = false) :
    disk.slot settled path =
      (disk.walk (disk.start path.anchor) lead).bind fun place =>
        if !disk.isDirectoryAt place then .error .notDirectory
        else if nameLimit < (Utf8.encode name).length then .error .nameTooLong
        else .ok (place ++ [name]) := by
  simp [slot, parts, short, direct, bind]

theorem walk_singleton {place : Location} {name : Text} (named : isName name = true)
    (direct : name ≠ upward) :
    disk.walk place [name] =
      if !disk.isDirectoryAt place then .error .notDirectory
      else if nameLimit < (Utf8.encode name).length then .error .nameTooLong
      else if (disk.entryAt (place ++ [name])).isNone then .error .missing
      else .ok (place ++ [name]) := by
  simp [walk, named, direct]

theorem ensureDirectory_of_slot {path : Path} (noNul : path.hasNul = false)
    {refusal : Refusal} (refused : disk.slot .occupied path = .error refusal) :
    disk.ensureDirectory path =
      if refusal ≠ .missing ∧ disk.isDirectory path = true then .ok disk
      else .error (.refused refusal path) := by
  have unmade : disk.makeDirectory path = .error (.refused refusal path) := by
    simp [makeDirectory, onPath, noNul, refused, bind, Except.bind, Except.mapError]
  simp [ensureDirectory, unmade]

theorem ensureDirectory_of_present {path : Path} (noNul : path.hasNul = false)
    {location : Location} (leads : disk.slot .occupied path = .ok location)
    (present : (disk.entryAt location).isSome = true) :
    disk.ensureDirectory path =
      if disk.isDirectory path = true then .ok disk
      else .error (.refused .occupied path) := by
  have unmade : disk.makeDirectory path = .error (.refused .occupied path) := by
    simp [makeDirectory, onPath, noNul, leads, present, bind, Except.bind,
      Except.mapError]
  simp [ensureDirectory, unmade]

/-- Where the directory above a path is there, the last name decides. -/
theorem ensureDirectory_below {path : Path} {place : Location} {name : Text}
    (noNul : path.hasNul = false)
    (slot : disk.slot .occupied path =
      if nameLimit < (Utf8.encode name).length then .error .nameTooLong
      else .ok (place ++ [name]))
    (isDirectory : disk.isDirectory path = true ↔
      ¬ nameLimit < (Utf8.encode name).length ∧
        disk.isDirectoryAt (place ++ [name]) = true)
    (answers : disk.Answers (disk.ensureDirectory path)) :
    (disk.obstacle place [name] = none ∧ ∃ made, disk.ensureDirectory path = .ok made) ∨
    ∃ refusal, refusal ≠ .missing ∧ disk.obstacle place [name] = some refusal ∧
      disk.ensureDirectory path = .error (.refused refusal path) := by
  simp only [obstacle, if_true]
  by_cases long : nameLimit < (Utf8.encode name).length
  · rw [if_pos long] at slot
    refine Or.inr ⟨.nameTooLong, by simp, if_pos long, ?_⟩
    rw [ensureDirectory_of_slot noNul slot, if_neg (by simp [isDirectory, long])]
  rw [if_neg long] at slot ⊢
  cases present : disk.entryAt (place ++ [name]) with
  | none =>
      have absent : disk.isDirectory path = false := by
        simp [← Bool.not_eq_true, isDirectory, Disk.isDirectoryAt, present]
      cases answer : disk.device.making disk.entries (place ++ [name]) with
      | none =>
          refine Or.inl ⟨by simp [contentAt, present],
            disk.put (place ++ [name]) .directory, ?_⟩
          simp [ensureDirectory, makeDirectory, onPath, noNul, slot, present, answer, bind,
            Except.bind, Except.mapError]
      | some refusal =>
          have failed : disk.ensureDirectory path = .error (.refused refusal path) := by
            simp [ensureDirectory, makeDirectory, onPath, noNul, slot, present, answer, absent,
              bind, Except.bind, Except.mapError]
          have open' := answers _ failed
          simp [refusal?, slot, present] at open'
  | some entry =>
      have ensured := ensureDirectory_of_present noNul slot (by simp [present])
      cases entry with
      | directory =>
          refine Or.inl ⟨by simp [contentAt, present], disk, ?_⟩
          rw [ensured, if_pos]
          simp [isDirectory, long, present, Disk.isDirectoryAt]
      | file octets =>
          refine Or.inr ⟨.occupied, by simp, by simp [contentAt, present], ?_⟩
          rw [ensured, if_neg]
          simp [isDirectory, present, Disk.isDirectoryAt]

/-- A directory is made unless there is an obstacle, or the directory above it is
missing. -/
theorem IsTree.ensureDirectory_cases (tree : disk.IsTree) {path : Path}
    (plain : path.IsPlain) (noNul : path.hasNul = false)
    (short : isTooLong path.text = false)
    (answers : disk.Answers (disk.ensureDirectory path)) :
    (disk.obstacle (disk.start path.anchor) path.parts = none ∧
      ∃ made, disk.ensureDirectory path = .ok made) ∨
    (disk.ensureDirectory path = .error (.refused .missing path) ∧ path.parts ≠ [] ∧
      disk.entryAt (disk.start path.anchor ++ path.parent.parts) = none ∧
      (disk.obstacle (disk.start path.anchor) path.parent.parts = none ∨
        disk.obstacle (disk.start path.anchor) path.parent.parts = some .nameTooLong)) ∨
    ∃ refusal, refusal ≠ .missing ∧
      disk.obstacle (disk.start path.anchor) path.parts = some refusal ∧
      disk.ensureDirectory path = .error (.refused refusal path) := by
  have isDirectory := tree.isDirectory_iff plain noNul short
  have start := tree.start path.anchor
  rcases path.parts.eq_nil_or_concat with none | ⟨lead, name, parts⟩
  · -- the start is a directory
    refine Or.inl ⟨by rw [none, obstacle], disk, ?_⟩
    refine ensureDirectory_of_isDirectory plain.proper (isDirectory.mpr ?_)
    simp [none, walk, start]
  rw [List.concat_eq_append] at parts
  have parent : path.parent.parts = lead := by simp [Path.parent, parts]
  have all := plain.forall_mem
  rw [parts, List.forall_mem_append, List.forall_mem_singleton] at all
  obtain ⟨names, named, direct⟩ := all
  have slot := @slot_of_concat disk .occupied path _ _ parts direct short
  rw [parts, walk_append] at isDirectory
  rw [parts, obstacle_concat, parent]
  rcases tree.walk_cases names start with ⟨walked, directory, clear⟩ |
    ⟨walked, file, blocked⟩ | ⟨walked, free, others⟩ | ⟨refusal, walked, kind, blocked⟩
  · -- the directory above is there
    rw [walked] at slot isDirectory
    simp only [Except.bind, directory, walk_singleton named direct, Bool.not_true,
      Bool.false_eq_true, if_false, ← List.append_assoc] at slot isDirectory
    have last : disk.isDirectory path = true ↔ ¬ nameLimit < (Utf8.encode name).length ∧
        disk.isDirectoryAt (disk.start path.anchor ++ lead ++ [name]) = true := by
      rw [isDirectory]
      split_ifs with long absent
      · simp [long]
      · have free := Option.isNone_iff_eq_none.mp absent
        simp only [Disk.isDirectoryAt, free, Bool.false_eq_true, and_false]
      · simp [long]
    rw [clear]
    rcases ensureDirectory_below noNul slot last answers with made | refused
    · exact Or.inl made
    · exact Or.inr (Or.inr refused)
  · -- a file stands where the directory above should be
    rw [walked] at slot isDirectory
    simp only [Except.bind, file, walk_singleton named direct, Bool.not_false,
      if_true] at slot isDirectory
    refine Or.inr (Or.inr ⟨.notDirectory, by simp, by simp [blocked], ?_⟩)
    rw [ensureDirectory_of_slot noNul slot, if_neg (by simp [isDirectory])]
  · rw [walked] at slot
    refine Or.inr (Or.inl ⟨?_, by simp, free, others⟩)
    rw [ensureDirectory_of_slot noNul slot, if_neg (by simp)]
  · rw [walked] at slot isDirectory
    refine Or.inr (Or.inr ⟨refusal, ?_, ?_, ?_⟩)
    · rcases kind with rfl | rfl <;> simp
    · rw [blocked]
      rcases kind with rfl | rfl <;> rfl
    · rw [ensureDirectory_of_slot noNul slot, if_neg (by simp [isDirectory, Except.bind])]

/-- Where the directory above a path is missing, only a name can be an obstacle on the
way to that directory. -/
theorem IsTree.missing_above (tree : disk.IsTree) {path : Path} (plain : path.IsPlain)
    (noNul : path.hasNul = false) (short : isTooLong path.text = false)
    (answers : disk.Answers (disk.ensureDirectory path))
    (missing : disk.ensureDirectory path = .error (.refused .missing path)) :
    disk.entryAt (disk.start path.anchor ++ path.parent.parts) = none ∧
      (disk.obstacle (disk.start path.anchor) path.parent.parts = none ∨
        disk.obstacle (disk.start path.anchor) path.parent.parts = some .nameTooLong) := by
  rcases tree.ensureDirectory_cases plain noNul short answers with
    ⟨-, made, ensured⟩ | ⟨-, -, above⟩ | ⟨refusal, different, -, failed⟩
  · simp [missing] at ensured
  · exact above
  · simp [missing, Ne.symm different] at failed

/-- Something was made at a place or on the way to it, and nothing elsewhere. -/
structure Paved (disk : Disk) (place : Location) (further : Disk) : Prop where
  tree : further.IsTree
  workingDirectory : further.workingDirectory = disk.workingDirectory
  apart : ∀ other, ¬ other <+: place → further.entryAt other = disk.entryAt other

namespace Paved

theorem refl (tree : disk.IsTree) (place : Location) : disk.Paved place disk :=
  ⟨tree, rfl, fun _ _ => rfl⟩

theorem start {place : Location} (paved : disk.Paved place further) (anchor : Anchor) :
    further.start anchor = disk.start anchor :=
  start_congr paved.workingDirectory anchor

/-- One more thing is made where a path leads. -/
theorem put {path upper : Path} (plain : path.IsPlain) (above : upper.IsAbove path)
    (paved : disk.Paved (disk.start path.anchor ++ path.parts) further)
    {settled : Refusal} {location : Location}
    (leads : further.slot settled upper = .ok location)
    (noDirectory : further.isDirectoryAt location = false) (entry : Entry) :
    disk.Paved (disk.start path.anchor ++ path.parts) (further.put location entry) := by
  obtain ⟨lead, name, place, parts, -, toPlace, directory, -, -, rfl⟩ :=
    slot_eq_ok.mp leads
  have names := (plain.of_isAbove above).forall_mem
  rw [parts, List.forall_mem_append] at names
  rw [paved.start, above.1] at toPlace
  have onWay : place ++ [name] <+: disk.start path.anchor ++ path.parts := by
    rw [eq_of_walk names.1 toPlace, List.append_assoc, ← parts]
    exact above.prefix_append _
  refine ⟨paved.tree.put directory noDirectory entry, paved.workingDirectory, ?_⟩
  intro other apart
  rw [entryAt_put_of_ne (by rintro rfl; exact apart onWay), paved.apart other apart]

end Paved

theorem IsTree.paved_ensureDirectories (tree : disk.IsTree) {path : Path}
    (plain : path.IsPlain) :
    disk.Paved (disk.start path.anchor ++ path.parts) (disk.ensureDirectories path).1 :=
  ensureDirectories_keeps (disk.Paved _)
    (fun _ _ _ anchor parts leads free paved =>
      paved.put plain ⟨anchor, parts⟩ leads (by simp [isDirectoryAt, free]) .directory)
    (Paved.refl tree _)

/-- How making the directories of a path ends, by the obstacle on the way. A name that is
too long is noticed at the first directory that is not there before it, or at the path
itself. -/
def EndsAt (path : Path) : Option Refusal → Except DiskError Unit → Prop
  | none, result => result = .ok ()
  | some .nameTooLong, result =>
    ∃ upper : Path, upper.IsAbove path ∧ result = .error (.refused .nameTooLong upper)
  | some refusal, result => result = .error (.refused refusal path)

theorem endsAt_error {path : Path} {refusal : Refusal} :
    EndsAt path (some refusal) (.error (.refused refusal path)) := by
  cases refusal with
  | nameTooLong => exact ⟨path, Path.IsAbove.refl path, rfl⟩
  | _ => rfl

theorem eq_of_endsAt {path : Path} {refusal : Refusal} {result : Except DiskError Unit}
    (short : refusal ≠ .nameTooLong) (ends : EndsAt path (some refusal) result) :
    result = .error (.refused refusal path) := by
  cases refusal with
  | nameTooLong => contradiction
  | _ => exact ends

/-- Where nothing is missing above a path, one attempt decides. -/
theorem IsTree.endsAt_ensureDirectory (tree : disk.IsTree) {path : Path}
    (plain : path.IsPlain) (noNul : path.hasNul = false)
    (short : isTooLong path.text = false)
    (answers : disk.Answers (disk.ensureDirectory path))
    (complete : disk.ensureDirectory path ≠ .error (.refused .missing path)) :
    EndsAt path (disk.obstacle (disk.start path.anchor) path.parts)
      ((disk.ensureDirectory path).map fun _ => ()) := by
  rcases tree.ensureDirectory_cases plain noNul short answers with
    ⟨clear, made, ensured⟩ | ⟨failed, -⟩ | ⟨refusal, -, blocked, failed⟩
  · rw [clear, ensured]
    rfl
  · exact absurd failed complete
  · rw [blocked, failed]
    exact endsAt_error

/-- Directories that were made leave the obstacles as they are. -/
theorem obstacle_ensureDirectories (disk : Disk) (path : Path) (place : Location)
    (names : List Text) :
    (disk.ensureDirectories path).1.obstacle place names = disk.obstacle place names :=
  obstacle_congr fun _ _ => (furnished_ensureDirectories disk path).content _

/-- Once the directory above a path is made, one more attempt decides. -/
theorem IsTree.endsAt_second (tree : disk.IsTree) {path : Path} (plain : path.IsPlain)
    (noNul : path.hasNul = false) (short : isTooLong path.text = false)
    (done : disk.ensureDirectories path.parent = (further, .ok ()))
    (answers : further.Answers (further.ensureDirectory path)) :
    EndsAt path (disk.obstacle (disk.start path.anchor) path.parts)
      ((further.ensureDirectory path).map fun _ => ()) := by
  obtain ⟨-, there⟩ := within_of_ensureDirectories plain.proper.parent done
  have paved := tree.paved_ensureDirectories plain.parent
  have same := disk.obstacle_ensureDirectories path.parent (disk.start path.anchor) path.parts
  rw [done] at paved same
  have directory := ((paved.tree.isDirectory_iff plain.parent (Path.hasNul_parent noNul)
    (isTooLong_parent short)).mp there).2
  rw [← same, ← paved.start]
  refine paved.tree.endsAt_ensureDirectory plain noNul short answers fun missing => ?_
  have free := (paved.tree.missing_above plain noNul short answers missing).1
  have present := isDirectoryAt_iff.mp directory
  simp only [Path.parent] at free present
  simp [free] at present

/-- Where the directory above a path cannot be made, the device is not asked for the one
at the path. -/
theorem IsTree.refusal?_of_unmade (tree : disk.IsTree) {path : Path} (plain : path.IsPlain)
    (noNul : path.hasNul = false) (short : isTooLong path.text = false)
    {error : DiskError} (unmade : (disk.ensureDirectories path.parent).2 = .error error)
    (refusal : Refusal) : disk.refusal? (.refused refusal path) = none := by
  cases leads : disk.slot .occupied path with
  | error other => simp [refusal?, leads]
  | ok location =>
      obtain ⟨lead, name, place, parts, -, toPlace, directory, -⟩ := slot_eq_ok.mp leads
      have above : path.parent.parts = lead := by simp [Path.parent, parts]
      have led := eq_of_walk (above ▸ plain.parent.forall_mem) toPlace
      have there := (tree.isDirectory_iff plain.parent (Path.hasNul_parent noNul)
        (isTooLong_parent short)).mpr (above ▸ led ▸ ⟨toPlace, directory⟩)
      simp [ensureDirectories_of_isDirectory plain.proper.parent there] at unmade

/-- Where the directory above a path is missing and cannot be made, that is how making the
path ends. -/
theorem IsTree.endsAt_of_unmade (tree : disk.IsTree) {path : Path} (plain : path.IsPlain)
    (noNul : path.hasNul = false) (short : isTooLong path.text = false)
    (filled : path.parts ≠ [])
    (missing : disk.ensureDirectory path = .error (.refused .missing path))
    {error : DiskError} (unmade : (disk.ensureDirectories path.parent).2 = .error error)
    (above : EndsAt path.parent (disk.obstacle (disk.start path.anchor) path.parent.parts)
      (.error error)) :
    EndsAt path (disk.obstacle (disk.start path.anchor) path.parts) (.error error) := by
  have answers : disk.Answers (disk.ensureDirectory path) := by
    intro other met
    rw [missing, Except.error.injEq] at met
    rw [← met]
    exact tree.refusal?_of_unmade plain noNul short unmade _
  rcases (tree.missing_above plain noNul short answers missing).2 with clear | long
  · rw [clear] at above
    cases above
  · rw [long] at above
    obtain ⟨upper, onWay, found⟩ := above
    rw [Path.parts_eq_concat filled, obstacle_concat, long]
    exact ⟨upper, onWay.trans path.isAbove_parent, found⟩

/-- Making directories ends as the first obstacle on the way says, however far the
directories are there, unless the device refuses one. -/
theorem IsTree.endsAt_obstacle (tree : disk.IsTree) {path : Path} (plain : path.IsPlain)
    (noNul : path.hasNul = false) (short : isTooLong path.text = false)
    (answers : (disk.ensureDirectories path).1.Answers (disk.ensureDirectories path).2) :
    EndsAt path (disk.obstacle (disk.start path.anchor) path.parts)
      (disk.ensureDirectories path).2 := by
  induction path using ensureDirectories.induct disk with
  | case1 path made ensured =>
      have once := tree.endsAt_ensureDirectory plain noNul short
        (by simp [ensured, Answers]) (by simp [ensured])
      rw [ensureDirectories, ensured]
      rwa [ensured] at once
  | case2 path error absent missing changed refused failed ih =>
      rw [ensureDirectories, absent] at answers ⊢
      simp only [missing, ne_eq, not_false_eq_true, and_self, dite_true, failed] at answers ⊢
      have above : EndsAt path.parent
          (disk.obstacle (disk.start path.anchor) path.parent.parts)
          (disk.ensureDirectories path.parent).2 :=
        ih plain.parent (Path.hasNul_parent noNul) (isTooLong_parent short)
          (by rwa [failed])
      rw [failed] at above
      exact tree.endsAt_of_unmade plain noNul short missing.2 (missing.1 ▸ absent)
        (congrArg Prod.snd failed) above
  | case3 path error absent missing changed done complete made ih =>
      have twice := tree.endsAt_second plain noNul short done (by simp [made, Answers])
      rw [ensureDirectories, absent]
      simp only [missing, ne_eq, not_false_eq_true, and_self, dite_true, done, made]
      rwa [made] at twice
  | case4 path error absent missing changed done refused failed ih =>
      rw [ensureDirectories, absent] at answers ⊢
      simp only [missing, ne_eq, not_false_eq_true, and_self, dite_true, done, failed]
        at answers ⊢
      have twice := tree.endsAt_second plain noNul short done
        (by simpa [failed, Answers] using answers)
      rwa [failed] at twice
  | case5 path error absent present =>
      rw [ensureDirectories, absent] at answers ⊢
      simp only [present, dite_false] at answers ⊢
      have answered : disk.Answers (disk.ensureDirectory path) := by
        simpa [absent, Answers] using answers
      have once := tree.endsAt_ensureDirectory plain noNul short answered fun missing => by
        rcases tree.ensureDirectory_cases plain noNul short answered with
          ⟨-, made, ensured⟩ | ⟨-, filled, -⟩ | ⟨refusal, different, -, failed⟩
        · simp [absent] at ensured
        · rw [absent, Except.error.injEq] at missing
          exact present ⟨missing, filled⟩
        · simp [missing, Ne.symm different] at failed
      rwa [absent] at once

/-! ## Writing a text -/

/-- Two attempts to write end in the same way, or a directory on the way has a name that
is too long and they notice it at different directories. -/
def EndAlike (path : Path) (first second : Except DiskError Unit) : Prop :=
  first = second ∨
    (∃ name ∈ path.parent.parts, nameLimit < (Utf8.encode name).length) ∧
    ∃ upper lower : Path, upper.IsAbove path.parent ∧ lower.IsAbove path.parent ∧
      first = .error (.refused .nameTooLong upper) ∧
      second = .error (.refused .nameTooLong lower)

theorem IsTree.paved_writeWithDirectories (tree : disk.IsTree) {path : Path}
    (plain : path.IsPlain) (text : Text) :
    disk.Paved (disk.start path.anchor ++ path.parts)
      (disk.writeWithDirectories path text).1 := by
  have made := tree.paved_ensureDirectories plain.parent
  have onWay := path.isAbove_parent.prefix_append (disk.start path.anchor)
  have paved : disk.Paved (disk.start path.anchor ++ path.parts)
      (disk.ensureDirectories path.parent).1 :=
    ⟨made.tree, made.workingDirectory,
      fun other apart => made.apart other fun above => apart (above.trans onWay)⟩
  rcases disk.writeWithDirectories_cases path text with
    ⟨error, left⟩ | ⟨location, -, output, put⟩
  · rw [left]
    exact paved
  · obtain ⟨-, leads, noDirectory⟩ := outputAt_eq_ok.mp output
    have further := paved.put plain (Path.IsAbove.refl path) leads noDirectory
    rcases put with left | ⟨refusal, count, left⟩ <;> rw [left] <;> exact further _

/-- A text is written at the place that the names of its path lead to. -/
theorem location_eq_of_slot {settled : Refusal} {path : Path} (plain : path.IsPlain)
    {location : Location} (leads : disk.slot settled path = .ok location) :
    location = disk.start path.anchor ++ path.parts := by
  obtain ⟨lead, name, place, parts, -, toPlace, -, -, -, rfl⟩ := slot_eq_ok.mp leads
  have names := plain.forall_mem
  rw [parts, List.forall_mem_append] at names
  rw [eq_of_walk names.1 toPlace, parts, List.append_assoc]

theorem ensureDirectories_of_hasNul {path : Path} (nul : path.hasNul = true) :
    disk.ensureDirectories path = (disk, .error .embeddedNul) := by
  have refused : disk.ensureDirectory path = .error .embeddedNul := by
    simp [ensureDirectory, makeDirectory, onPath, nul, isDirectory, status]
  rw [ensureDirectories, refused]
  simp

theorem ensureDirectories_of_isTooLong {path : Path} (noNul : path.hasNul = false)
    (long : isTooLong path.text = true) :
    disk.ensureDirectories path = (disk, .error (.refused .nameTooLong path)) := by
  have refused : disk.ensureDirectory path = .error (.refused .nameTooLong path) := by
    simp [ensureDirectory, makeDirectory, onPath, noNul, slot, long, isDirectory, status,
      find, locate, bind, Except.bind, Except.mapError]
  rw [ensureDirectories, refused]
  simp

/-- Directories were made for a path whose names are possible and which is short enough. -/
theorem possible_of_made {path : Path} (made : (disk.ensureDirectories path).2 = .ok ()) :
    path.hasNul = false ∧ isTooLong path.text = false := by
  have noNul : path.hasNul = false := by
    rw [Bool.eq_false_iff]
    intro nul
    simp [ensureDirectories_of_hasNul nul] at made
  refine ⟨noNul, ?_⟩
  rw [Bool.eq_false_iff]
  intro long
  simp [ensureDirectories_of_isTooLong noNul long] at made

/-- What is left at the place of an output when writing a text ends in the given way;
nothing if the place is left as it is. -/
def leftover (text : Text) :
    Except DiskError Unit → Option (Path × Trouble) → Option (List UInt8)
  | .ok (), _ => some (Utf8.encode text)
  | .error _, some (_, .brokenOff _ count) => some ((Utf8.encode text).take count)
  | .error _, _ => none

/-- Ends that are alike leave the same. -/
theorem leftover_of_endAlike {path : Path} {text : Text} {first second : Except DiskError Unit}
    (alike : EndAlike path first second) (trouble : Option (Path × Trouble)) :
    leftover text first trouble = leftover text second trouble := by
  rcases alike with rfl | ⟨-, upper, lower, -, -, rfl, rfl⟩
  · rfl
  · rcases trouble with none | ⟨upper, refusal | ⟨refusal, count⟩⟩ <;> rfl

/-- Where a directory is refused, nothing is left. -/
theorem leftover_of_refusal? {text : Text} {error other : DiskError} :
    leftover text (.error other) (disk.refusal? error) = none := by
  unfold refusal?
  split
  · split
    · split_ifs <;> rfl
    · rfl
  · rfl

/-- Writing a text changes the file at the place of a plain path alone. -/
theorem IsTree.contentAt_writeWithDirectories (tree : disk.IsTree) {path : Path}
    (plain : path.IsPlain) (text : Text) (location : Location) :
    (disk.writeWithDirectories path text).1.contentAt location =
      if location = disk.start path.anchor ++ path.parts then
        (leftover text (disk.writeWithDirectories path text).2
          (disk.trouble? path text)).or (disk.contentAt location)
      else disk.contentAt location := by
  have furnished := furnished_ensureDirectories disk path.parent
  have paved := tree.paved_ensureDirectories plain.parent
  rw [writeWithDirectories, trouble?]
  rcases ensured : disk.ensureDirectories path.parent with ⟨made, error | done⟩ <;>
    rw [ensured] at furnished paved
  · simpa [leftover_of_refusal?] using furnished.content location
  simp only [writeText, write]
  cases output : made.outputAt path with
  | error error => simpa [leftover, output] using furnished.content location
  | ok place =>
      obtain ⟨-, leads, noDirectory⟩ := outputAt_eq_ok.mp output
      obtain rfl : place = disk.start path.anchor ++ path.parts :=
        paved.start path.anchor ▸ location_eq_of_slot plain leads
      dsimp only
      rcases made.device.writing made.entries _ (Utf8.encode text) with
        none | ⟨refusal⟩ | ⟨refusal, count⟩
      · simp [leftover, contentAt_put_file noDirectory, furnished.content]
      · simp [leftover, furnished.content]
      · simp [leftover, contentAt_put_file noDirectory, furnished.content]

/-- A text is written after the directories above it are made. -/
theorem writeWithDirectories_result (disk : Disk) (path : Path) (text : Text) :
    (disk.writeWithDirectories path text).2 =
      (disk.ensureDirectories path.parent).2.bind fun _ =>
        ((disk.ensureDirectories path.parent).1.writeText path text).2 := by
  rw [writeWithDirectories]
  rcases disk.ensureDirectories path.parent with ⟨made, error | done⟩ <;> rfl

/-- The place of the last name depends on the directory that the names before it lead
to. -/
theorem slot_congr {other : Disk} {settled : Refusal} {path : Path} {place : Location}
    (leads : disk.walk (disk.start path.anchor) path.parent.parts = .ok place)
    (leads' : other.walk (other.start path.anchor) path.parent.parts = .ok place)
    (directory : disk.isDirectoryAt place = true)
    (directory' : other.isDirectoryAt place = true) :
    other.slot settled path = disk.slot settled path := by
  simp only [Path.parent] at leads leads'
  simp only [slot, leads, leads', bind, Except.bind, directory, directory']

theorem outputAt_congr {other : Disk} {path : Path}
    (slots : other.slot .isDirectory path = disk.slot .isDirectory path)
    (directory : ∀ location, disk.slot .isDirectory path = .ok location →
      other.isDirectoryAt location = disk.isDirectoryAt location) :
    other.outputAt path = disk.outputAt path := by
  rw [outputAt, outputAt, slots]
  cases leads : disk.slot .isDirectory path with
  | error refusal => rfl
  | ok location => simp only [bind, Except.bind, directory location leads]

/-- Where nothing goes wrong with the device, how writing a text in a directory ends
depends on the place of the output alone. -/
theorem writeText_of_taken {path : Path} {text : Text}
    (taken : ∀ location, disk.outputAt path = .ok location →
      disk.device.writing disk.entries location (Utf8.encode text) = none) :
    (disk.writeText path text).2 = (disk.outputAt path).map fun _ => () := by
  rw [writeText, write]
  cases output : disk.outputAt path with
  | error error => rfl
  | ok location => simp [taken location output, Except.map]

/-- The directories above a path are made, and what the path itself leads to is as it
was. -/
theorem IsTree.made_above (tree : disk.IsTree) {path : Path} (plain : path.IsPlain)
    (done : (disk.ensureDirectories path.parent).2 = .ok ()) :
    let made := (disk.ensureDirectories path.parent).1
    made.walk (made.start path.anchor) path.parent.parts =
        .ok (disk.start path.anchor ++ path.parent.parts) ∧
      made.isDirectoryAt (disk.start path.anchor ++ path.parent.parts) = true ∧
      ∀ location, disk.start path.anchor ++ path.parent.parts <+: location →
        location ≠ disk.start path.anchor ++ path.parent.parts →
        made.isDirectoryAt location = disk.isDirectoryAt location := by
  intro made
  obtain ⟨noNul, short⟩ := possible_of_made done
  have paved : disk.Paved (disk.start path.anchor ++ path.parent.parts) made :=
    tree.paved_ensureDirectories plain.parent
  obtain ⟨-, there⟩ := within_of_ensureDirectories plain.proper.parent
    (Prod.ext rfl done : disk.ensureDirectories path.parent = (made, .ok ()))
  have leads := (paved.tree.isDirectory_iff plain.parent noNul short).mp there
  have start := paved.start path.anchor
  refine ⟨start ▸ leads.1, start ▸ leads.2, fun location below different => ?_⟩
  rw [isDirectoryAt, isDirectoryAt, paved.apart location]
  exact fun above => different (above.eq_of_length_le below.length_le)

/-- Once the directories above a path are made on two disks, the place of its output is
the same on both. -/
theorem IsTree.outputAt_alike {other : Disk} (tree : disk.IsTree) (tree' : other.IsTree)
    {path : Path} (plain : path.IsPlain)
    (start : other.start path.anchor = disk.start path.anchor)
    (done : (disk.ensureDirectories path.parent).2 = .ok ())
    (done' : (other.ensureDirectories path.parent).2 = .ok ())
    (directory : other.isDirectoryAt (disk.start path.anchor ++ path.parts) =
      disk.isDirectoryAt (disk.start path.anchor ++ path.parts)) :
    (disk.ensureDirectories path.parent).1.outputAt path =
      (other.ensureDirectories path.parent).1.outputAt path := by
  obtain ⟨walked, there, kept⟩ := tree.made_above plain done
  obtain ⟨walked', there', kept'⟩ := tree'.made_above plain done'
  rw [start] at walked' there' kept'
  refine outputAt_congr (slot_congr walked' walked there' there) fun location leads => ?_
  obtain ⟨lead, name, -, parts, -⟩ := slot_eq_ok.mp leads
  have place := location_eq_of_slot plain leads
  rw [(tree'.paved_ensureDirectories plain.parent).start, start] at place
  subst place
  have below := path.isAbove_parent.prefix_append (disk.start path.anchor)
  have different : disk.start path.anchor ++ path.parts ≠
      disk.start path.anchor ++ path.parent.parts := by
    rw [Ne, List.append_cancel_left_eq]
    simp [Path.parent, parts]
  rw [kept _ below different, kept' _ below different, directory]

/-- The same files on the way to a path, and directories that the device does not refuse:
then making them for an output ends alike. -/
theorem IsTree.ensureDirectories_alike {other : Disk} (tree : disk.IsTree)
    (tree' : other.IsTree) {path : Path} (plain : path.IsPlain)
    (home : other.workingDirectory = disk.workingDirectory)
    (files : ∀ location, location <+: disk.start path.anchor ++ path.parent.parts →
      other.contentAt location = disk.contentAt location)
    (answers : (disk.ensureDirectories path.parent).1.Answers
      (disk.ensureDirectories path.parent).2)
    (answers' : (other.ensureDirectories path.parent).1.Answers
      (other.ensureDirectories path.parent).2) :
    EndAlike path (disk.ensureDirectories path.parent).2
      (other.ensureDirectories path.parent).2 := by
  cases noNul : path.parent.hasNul with
  | true =>
      rw [ensureDirectories_of_hasNul noNul, ensureDirectories_of_hasNul noNul]
      exact Or.inl rfl
  | false =>
  cases short : isTooLong path.parent.text with
  | true =>
      rw [ensureDirectories_of_isTooLong noNul short,
        ensureDirectories_of_isTooLong noNul short]
      exact Or.inl rfl
  | false =>
  have first : EndsAt path.parent
      (disk.obstacle (disk.start path.anchor) path.parent.parts)
      (disk.ensureDirectories path.parent).2 :=
    tree.endsAt_obstacle plain.parent noNul short answers
  have second : EndsAt path.parent
      (other.obstacle (other.start path.anchor) path.parent.parts)
      (other.ensureDirectories path.parent).2 :=
    tree'.endsAt_obstacle plain.parent noNul short answers'
  have same : other.obstacle (disk.start path.anchor) path.parent.parts =
      disk.obstacle (disk.start path.anchor) path.parent.parts :=
    obstacle_congr fun lead onWay =>
      files _ ((List.prefix_append_right_inj _).mpr onWay)
  rw [start_congr home, same] at second
  cases blocked : disk.obstacle (disk.start path.anchor) path.parent.parts with
  | none =>
      rw [blocked] at first second
      exact Or.inl (first.trans second.symm)
  | some refusal =>
      rw [blocked] at first second
      by_cases long : refusal = .nameTooLong
      · obtain ⟨upper, above, ended⟩ := long ▸ first
        obtain ⟨lower, below, ended'⟩ := long ▸ second
        exact Or.inr ⟨exists_long_of_obstacle (long ▸ blocked), upper, lower, above, below,
          ended, ended'⟩
      · exact Or.inl ((eq_of_endsAt long first).trans (eq_of_endsAt long second).symm)

/-- The same files on the way to a path, a directory at its place or not, and the same
trouble with the device: then writing there ends alike. -/
theorem IsTree.writeWithDirectories_alike {other : Disk} (tree : disk.IsTree)
    (tree' : other.IsTree) {path : Path} (plain : path.IsPlain)
    (home : other.workingDirectory = disk.workingDirectory)
    (files : ∀ location, location <+: disk.start path.anchor ++ path.parent.parts →
      other.contentAt location = disk.contentAt location)
    (directory : other.isDirectoryAt (disk.start path.anchor ++ path.parts) =
      disk.isDirectoryAt (disk.start path.anchor ++ path.parts)) {text : Text}
    (device : other.trouble? path text = disk.trouble? path text) :
    EndAlike path (disk.writeWithDirectories path text).2
      (other.writeWithDirectories path text).2 := by
  cases met : disk.trouble? path text with
  | some trouble =>
      rw [error_of_trouble? met, error_of_trouble? (device.trans met)]
      exact Or.inl rfl
  | none =>
      rw [met] at device
      rw [writeWithDirectories_result, writeWithDirectories_result]
      rcases tree.ensureDirectories_alike tree' plain home files (answers_of_trouble? met)
        (answers_of_trouble? device) with same | ⟨long, upper, lower, above, below, ended, ended'⟩
      · cases made : (disk.ensureDirectories path.parent).2 with
        | error error =>
            rw [← same, made]
            exact Or.inl rfl
        | ok done =>
            have made' := same.symm.trans made
            have outputs := tree.outputAt_alike tree' plain (start_congr home _) made made'
              directory
            rw [made']
            refine Or.inl ?_
            simp only [Except.bind]
            rw [writeText_of_taken (taken_of_trouble? made met),
              writeText_of_taken (taken_of_trouble? made' device), outputs]
      · rw [ended, ended']
        exact Or.inr ⟨long, upper, lower, above, below, rfl, rfl⟩

end Disk

end SchemaCompose
