import SchemaCompose.Proofs.Disk.Removal
import SchemaCompose.Proofs.Mix.Outcomes

/-!
# What is loaded for a job

As long as no path that was matched is refused, loading goes through every match of every
pattern: each file among them is loaded or fails, once for each match, in the order of the
patterns and then of the texts, and a pattern without files is reported
(`Loading.ofPatterns_accounts`).  What becomes of a file depends on that file alone, so
that failing files and unmatched patterns may as well be left out, and the order in which
the disk lists its entries does not matter.
-/

namespace SchemaCompose

/-- The octets are UTF-8 and declare a schema. -/
def DeclareSchema (octets : List UInt8) : Prop :=
  ∃ text schema, Utf8.decode octets = .ok text ∧
    Schema.parse (Utf8.normalizeNewlines text) = .ok schema

/-! ## One file -/

namespace Document

/-- A file gives a document. -/
def loads (disk : Disk) (path : Path) : Bool :=
  (load disk path).toOption.isSome

/-- A file gives a document if it can be read, is UTF-8 and declares a schema. -/
theorem loads_iff {disk : Disk} {path : Path} :
    loads disk path = true ↔
      ∃ octets, disk.read path = .ok octets ∧ DeclareSchema octets := by
  rw [loads, load, Disk.readText]
  cases disk.read path with
  | error error => simp [Except.mapError, Except.toOption, bind, Except.bind]
  | ok octets =>
      cases decoded : Utf8.decode octets with
      | error error =>
          simp [DeclareSchema, decoded, Except.mapError, Except.toOption, bind, Except.bind]
      | ok text =>
          cases parsed : Schema.parse (Utf8.normalizeNewlines text) <;>
            simp [DeclareSchema, Schema.ofDocument, decoded, parsed, Except.mapError,
              Except.map, Except.toOption, bind, Except.bind, pure, Except.pure]

theorem path_of_load {disk : Disk} {path : Path} {document : Document}
    (loaded : load disk path = .ok document) : document.path = path := by
  obtain ⟨text, -, rest⟩ := Reading.bind_eq_ok.mp loaded
  obtain ⟨schema, -, made⟩ := Reading.bind_eq_ok.mp rest
  rw [← Reading.pure_eq_ok.mp made]

theorem load_congr {disk other : Disk} {path : Path}
    (same : other.read path = disk.read path) : load other path = load disk path := by
  rw [load, load, Disk.readText, Disk.readText, same]

end Document

namespace Attempt

/-- What comes of the files that a pattern names. -/
theorem filterMap_document?_ofPaths (disk : Disk) (pattern : Text) (paths : List Path) :
    (ofPaths disk pattern paths).filterMap document? =
      paths.filterMap fun path => (Document.load disk path).toOption := by
  have each : ∀ path, document? (ofFile disk path) = (Document.load disk path).toOption := by
    intro path
    rw [ofFile]
    cases Document.load disk path <;> rfl
  cases paths with
  | nil => rfl
  | cons path paths =>
      rw [ofPaths, List.filterMap_map]
      · exact List.filterMap_congr fun path _ => each path
      · simp

theorem filterMap_failed?_ofPaths (disk : Disk) (pattern : Text) (paths : List Path) :
    (ofPaths disk pattern paths).filterMap failed? =
      paths.filter fun path => !Document.loads disk path := by
  have each : ∀ path, failed? (ofFile disk path) =
      if !Document.loads disk path then some path else none := by
    intro path
    rw [ofFile, Document.loads]
    cases Document.load disk path <;> rfl
  cases paths with
  | nil => rfl
  | cons path paths =>
      rw [ofPaths, List.filterMap_map]
      · rw [← List.filterMap_eq_filter]
        refine List.filterMap_congr fun path _ => ?_
        simp [each, Option.guard]
      · simp

theorem filterMap_unmatched?_ofPaths (disk : Disk) (pattern : Text) (paths : List Path) :
    (ofPaths disk pattern paths).filterMap unmatched? =
      if paths.isEmpty then [pattern] else [] := by
  have each : ∀ path, unmatched? (ofFile disk path) = none := by
    intro path
    rw [ofFile]
    cases Document.load disk path <;> rfl
  cases paths with
  | nil => rfl
  | cons path paths =>
      rw [ofPaths, List.filterMap_map]
      · simp [each]
      · simp

end Attempt

namespace Loading

variable {disk other : Disk} {base : Path} {patterns : List Text}

/-! ## Given matches -/

/-- Each row is a pattern with what it matches, in any order. -/
def AreMatches (disk : Disk) (base : Path) (patterns : List Text)
    (rows : List (Text × List Text)) : Prop :=
  List.Forall₂ (fun pattern row => row.1 = pattern ∧
    ∃ texts, disk.matching base.text pattern = .ok texts ∧ row.2.Perm texts) patterns rows

/-- Load the files among the matches that are given for each pattern. -/
def ofMatches (disk : Disk) (base : Path) : List (Text × List Text) → Loading
  | [] => {}
  | (pattern, texts) :: rows =>
    match disk.filesAmong base texts with
    | .error error => { stopped := some error }
    | .ok paths =>
      let rest := ofMatches disk base rows
      { rest with attempts := Attempt.ofPaths disk pattern paths ++ rest.attempts }

theorem ofMatches_eq {rows : List (Text × List Text)}
    (given : AreMatches disk base patterns rows) :
    ofMatches disk base rows = ofPatterns disk base patterns := by
  induction given with
  | nil => rfl
  | cons first _ ih =>
      obtain ⟨rfl, texts, found, perm⟩ := first
      rw [ofMatches, ofPatterns, Disk.expand_eq, found, ih, Disk.filesAmong_of_perm perm]
      rfl

/-! ## Going through all inputs -/

theorem stopped_eq_none :
    (ofPatterns disk base patterns).stopped = none ↔
      ∀ pattern ∈ patterns, ∃ paths, disk.expand base pattern = .ok paths := by
  induction patterns with
  | nil => simp [ofPatterns]
  | cons pattern patterns ih =>
      rw [List.forall_mem_cons, ← ih, ofPatterns]
      cases disk.expand base pattern <;> simp

theorem attempts_of_finished (finished : (ofPatterns disk base patterns).stopped = none) :
    (ofPatterns disk base patterns).attempts =
      patterns.flatMap fun pattern =>
        Attempt.ofPaths disk pattern (disk.named base pattern) := by
  induction patterns with
  | nil => rfl
  | cons pattern patterns ih =>
      obtain ⟨⟨paths, expanded⟩, rest⟩ :=
        List.forall_mem_cons.mp (stopped_eq_none.mp finished)
      rw [List.flatMap_cons, Disk.named_of_expand expanded,
        ← ih (stopped_eq_none.mpr rest), ofPatterns, expanded]

theorem documents_of_finished (finished : (ofPatterns disk base patterns).stopped = none) :
    (ofPatterns disk base patterns).documents =
      (patterns.flatMap (disk.named base)).filterMap fun path =>
        (Document.load disk path).toOption := by
  rw [documents, attempts_of_finished finished, List.filterMap_flatMap,
    List.filterMap_flatMap]
  exact List.flatMap_congr fun pattern _ => Attempt.filterMap_document?_ofPaths _ _ _

theorem failed_of_finished (finished : (ofPatterns disk base patterns).stopped = none) :
    (ofPatterns disk base patterns).failed =
      (patterns.flatMap (disk.named base)).filter fun path =>
        !Document.loads disk path := by
  rw [failed, attempts_of_finished finished, List.filterMap_flatMap, List.filter_flatMap]
  exact List.flatMap_congr fun pattern _ => Attempt.filterMap_failed?_ofPaths _ _ _

theorem unmatched_of_finished (finished : (ofPatterns disk base patterns).stopped = none) :
    (ofPatterns disk base patterns).unmatched =
      patterns.filter fun pattern => (disk.named base pattern).isEmpty := by
  rw [unmatched, attempts_of_finished finished, List.filterMap_flatMap]
  simp only [Attempt.filterMap_unmatched?_ofPaths]
  clear finished
  induction patterns with
  | nil => rfl
  | cons pattern patterns ih =>
      rw [List.flatMap_cons, ih, List.filter_cons]
      split_ifs <;> rfl

/-- Each document is what its file gives alone. -/
theorem load_of_mem_documents {document : Document}
    (finished : (ofPatterns disk base patterns).stopped = none)
    (member : document ∈ (ofPatterns disk base patterns).documents) :
    Document.load disk document.path = .ok document := by
  rw [documents_of_finished finished] at member
  obtain ⟨path, -, some⟩ := List.mem_filterMap.mp member
  cases loaded : Document.load disk path with
  | error failure => simp [loaded, Except.toOption] at some
  | ok found =>
      simp only [loaded, Except.toOption, Option.some.injEq] at some
      rw [← some, Document.path_of_load loaded, loaded]

/-- The files that are loaded are those that give a document. -/
theorem map_path_documents (finished : (ofPatterns disk base patterns).stopped = none) :
    (ofPatterns disk base patterns).documents.map (·.path) =
      (patterns.flatMap (disk.named base)).filter (Document.loads disk) := by
  rw [documents_of_finished finished, List.map_filterMap, ← List.filterMap_eq_filter]
  refine List.filterMap_congr fun path _ => ?_
  cases loaded : Document.load disk path with
  | error failure => simp [Document.loads, loaded, Except.toOption, Option.guard]
  | ok document =>
      simp [Document.loads, loaded, Except.toOption, Option.guard,
        Document.path_of_load loaded]

/-! ## The account of a loading -/

/-- The files among the matches of a pattern. -/
def filesOf (disk : Disk) (base : Path) (row : Text × List Text) : List Path :=
  (row.2.map fun text => base.append (Path.ofText text)).filter disk.isFile

/-- What a loading reports, where the matches of each pattern are given in the order of
their texts: each file among them is either loaded, to the document that it gives alone,
or fails, and the patterns without files are unmatched. -/
structure IsAccount (disk : Disk) (base : Path) (rows : List (Text × List Text))
    (loading : Loading) : Prop where
  unmatched : loading.unmatched =
    (rows.filter fun row => (filesOf disk base row).isEmpty).map Prod.fst
  loaded : loading.documents.map (·.path) =
    (rows.flatMap (filesOf disk base)).filter (Document.loads disk)
  failed : loading.failed =
    (rows.flatMap (filesOf disk base)).filter fun path => !Document.loads disk path
  alone : ∀ document ∈ loading.documents,
    Document.load disk document.path = .ok document

/-- Of matches in the order of their texts, the files are those that the pattern names. -/
theorem named_eq_filesOf {row : Text × List Text} {paths : List Path} {texts : List Text}
    (expanded : disk.expand base row.1 = .ok paths)
    (found : disk.matching base.text row.1 = .ok texts) (perm : row.2.Perm texts)
    (ordered : Disk.AreSorted row.2) : disk.named base row.1 = filesOf disk base row := by
  rw [Disk.named_of_expand expanded]
  rw [Disk.expand_eq, found] at expanded
  rw [filesOf, Disk.eq_mergeSort_of_perm perm ordered]
  exact (Disk.files_eq_ok.mp expanded).2

theorem forall₂_named {rows : List (Text × List Text)}
    (finished : (ofPatterns disk base patterns).stopped = none)
    (given : AreMatches disk base patterns rows)
    (ordered : ∀ row ∈ rows, Disk.AreSorted row.2) :
    List.Forall₂ (fun pattern row => row.1 = pattern ∧
      disk.named base pattern = filesOf disk base row) patterns rows := by
  rw [stopped_eq_none] at finished
  induction given with
  | nil => exact .nil
  | cons first _ ih =>
      obtain ⟨rfl, texts, found, perm⟩ := first
      rw [List.forall_mem_cons] at finished ordered
      obtain ⟨⟨paths, expanded⟩, rest⟩ := finished
      exact .cons ⟨rfl, named_eq_filesOf expanded found perm ordered.1⟩ (ih rest ordered.2)

theorem isAccount {rows : List (Text × List Text)}
    (finished : (ofPatterns disk base patterns).stopped = none)
    (given : AreMatches disk base patterns rows)
    (ordered : ∀ row ∈ rows, Disk.AreSorted row.2) :
    IsAccount disk base rows (ofPatterns disk base patterns) := by
  have named := forall₂_named finished given ordered
  have files : patterns.flatMap (disk.named base) = rows.flatMap (filesOf disk base) := by
    clear finished given ordered
    induction named with
    | nil => rfl
    | cons first _ ih => rw [List.flatMap_cons, List.flatMap_cons, ih, first.2]
  refine ⟨?_, files ▸ map_path_documents finished, files ▸ failed_of_finished finished,
    fun _ => load_of_mem_documents finished⟩
  rw [unmatched_of_finished finished]
  clear finished given ordered files
  induction named with
  | nil => rfl
  | cons first _ ih =>
      obtain ⟨rfl, same⟩ := first
      rw [List.filter_cons, List.filter_cons, same, ih]
      split_ifs <;> rfl

/-! ## Leaving files and patterns out -/

/-- Whether loading ends depends on the paths of what is matched. -/
theorem exists_expand_iff {pattern : Text} :
    (∃ paths, disk.expand base pattern = .ok paths) ↔
      ∃ texts, disk.matching base.text pattern = .ok texts ∧
        ∀ text ∈ texts, ∃ entry, disk.status (base.append (Path.ofText text)) = .ok entry := by
  constructor
  · rintro ⟨paths, expanded⟩
    rw [Disk.expand_eq] at expanded
    obtain ⟨texts, found, among⟩ := Reading.bind_eq_ok.mp expanded
    refine ⟨texts, found, fun text member => ?_⟩
    exact (Disk.files_eq_ok.mp among).1 _
      (List.mem_map_of_mem ((List.mergeSort_perm _ _).mem_iff.mpr member))
  · rintro ⟨texts, found, known⟩
    refine ⟨_, Reading.bind_eq_ok.mpr ⟨texts, found, Disk.files_eq_ok.mpr ⟨?_, rfl⟩⟩⟩
    intro path member
    obtain ⟨text, among, rfl⟩ := List.mem_map.mp member
    exact known text ((List.mergeSort_perm _ _).mem_iff.mp among)

/-- The file at a place gives no document: the device does not give what is in it, or
that declares no schema. -/
def IsFaulty (disk : Disk) (location : Location) : Prop :=
  disk.device.reading location = none → ∀ octets,
    disk.entryAt location = some (.file octets) → ¬ DeclareSchema octets

/-- A faulty file that is removed gives no document. -/
theorem toOption_load_of_removed {removed : List Location}
    (faulty : ∀ location ∈ removed, IsFaulty disk location)
    {path : Path} (proper : path.IsProper) (gone : ¬ disk.spares removed path = true) :
    (Document.load disk path).toOption = none := by
  rw [← Option.not_isSome_iff_eq_none]
  intro loads
  obtain ⟨octets, held, declares⟩ := Document.loads_iff.mp loads
  obtain ⟨location, found, given⟩ := Disk.read_eq_ok.mp held
  obtain ⟨-, leads, present⟩ := Disk.fileAt_eq_ok.mp found
  rw [Disk.spares_of_reached (Disk.reached_of_locate_text proper leads), not_not] at gone
  exact faulty location gone given octets present declares

/-- A pattern without files is one that is unmatched. -/
theorem named_of_mem_unmatched {pattern : Text}
    (finished : (ofPatterns disk base patterns).stopped = none)
    (unmatched : pattern ∈ (ofPatterns disk base patterns).unmatched) :
    disk.named base pattern = [] := by
  rw [unmatched_of_finished finished, List.mem_filter] at unmatched
  exact List.isEmpty_iff.mp unmatched.2

/-- Without some files that give no document, and without some patterns that name no file,
the same is loaded. -/
theorem documents_of_lacks (proper : base.IsProper) (system : disk.IsFileSystem)
    {removed : List Location} (lacks : disk.Lacks removed other)
    (faulty : ∀ location ∈ removed, IsFaulty disk location)
    {kept : Text → Bool} (finished : (ofPatterns disk base patterns).stopped = none)
    (idle : ∀ pattern ∈ patterns, kept pattern = false →
      pattern ∈ (ofPatterns disk base patterns).unmatched) :
    (ofPatterns other base (patterns.filter kept)).stopped = none ∧
      (ofPatterns other base (patterns.filter kept)).documents =
        (ofPatterns disk base patterns).documents := by
  have expands := stopped_eq_none.mp finished
  have named : ∀ pattern ∈ patterns, other.named base pattern =
      (disk.named base pattern).filter (disk.spares removed) := by
    intro pattern member
    obtain ⟨paths, expanded⟩ := expands pattern member
    rw [Disk.named_of_expand expanded,
      Disk.named_of_expand (lacks.expand_of_ok system proper expanded)]
  have finished' : (ofPatterns other base (patterns.filter kept)).stopped = none := by
    refine stopped_eq_none.mpr fun pattern member => ?_
    obtain ⟨paths, expanded⟩ := expands pattern (List.mem_of_mem_filter member)
    exact ⟨_, lacks.expand_of_ok system proper expanded⟩
  refine ⟨finished', ?_⟩
  rw [documents_of_finished finished, documents_of_finished finished',
    List.filterMap_flatMap, List.filterMap_flatMap, Disk.flatMap_filter]
  · refine List.flatMap_congr fun pattern member => ?_
    rw [named pattern member, List.filterMap_filter]
    refine List.filterMap_congr fun path listed => ?_
    obtain ⟨file, text, rfl⟩ := Disk.mem_named listed
    have properPath := proper.append (Path.isProper_ofText text)
    split_ifs with spared
    · rw [Document.load_congr (lacks.read_of_spares system properPath file spared)]
    · exact (toOption_load_of_removed faulty properPath spared).symm
  · intro pattern member dropped
    rw [named pattern member, named_of_mem_unmatched finished (idle pattern member dropped)]
    rfl

/-- The order in which the disk lists its entries does not matter. -/
theorem ofPatterns_of_perm (proper : base.IsProper) (system : disk.IsFileSystem)
    (home : other.workingDirectory = disk.workingDirectory)
    (device : other.device = disk.device) (perm : other.entries.Perm disk.entries)
    (patterns : List Text) :
    ofPatterns other base patterns = ofPatterns disk base patterns := by
  have lacks := Disk.Lacks.of_perm home device perm
  refine ofPatterns_congr (fun pattern _ => lacks.expand_of_nothing system proper pattern) ?_
  intro pattern _ path listed
  obtain ⟨file, text, rfl⟩ := Disk.mem_named listed
  exact lacks.read_of_spares system (proper.append (Path.isProper_ofText text)) file
    (Disk.Lacks.spares_nil _)

/--
Loading ends with an account of all inputs exactly if no path that is matched is refused.
In whatever order the matches of the patterns are given, the outcome is the same; in the
order of their texts, each file among them is loaded or fails.  It is loaded if it can be
read, is UTF-8 and declares a schema.  The order in which the disk lists its entries does
not matter, and without failing files and unmatched patterns the same documents are loaded
and composed.
-/
theorem ofPatterns_accounts (proper : base.IsProper) (system : disk.IsFileSystem)
    (patterns : List Text) :
    let loading := ofPatterns disk base patterns
    (loading.stopped = none ↔ ∀ pattern ∈ patterns,
      ∃ texts, disk.matching base.text pattern = .ok texts ∧
        ∀ text ∈ texts, ∃ entry, disk.status (base.append (Path.ofText text)) = .ok entry) ∧
    (∀ rows, AreMatches disk base patterns rows →
      ofMatches disk base rows = loading ∧
      (loading.stopped = none → (∀ row ∈ rows, Disk.AreSorted row.2) →
        IsAccount disk base rows loading)) ∧
    (∀ path, Document.loads disk path = true ↔
      ∃ octets, disk.read path = .ok octets ∧ DeclareSchema octets) ∧
    (∀ other : Disk, other.workingDirectory = disk.workingDirectory →
      other.device = disk.device → other.entries.Perm disk.entries →
      ofPatterns other base patterns = loading) ∧
    ∀ (other : Disk) (removed : List Location) (kept : Text → Bool),
      disk.Lacks removed other → (∀ location ∈ removed, IsFaulty disk location) →
      (∀ pattern ∈ patterns, kept pattern = false → pattern ∈ loading.unmatched) →
      loading.stopped = none →
      let rest := ofPatterns other base (patterns.filter kept)
      rest.stopped = none ∧ rest.documents = loading.documents ∧
        Schema.compose (rest.documents.map (·.schema)) =
          Schema.compose (loading.documents.map (·.schema)) := by
  refine ⟨?_, fun rows given => ⟨ofMatches_eq given, fun finished ordered =>
    isAccount finished given ordered⟩, fun path => Document.loads_iff,
    fun other home device perm => ofPatterns_of_perm proper system home device perm patterns,
    ?_⟩
  · rw [stopped_eq_none]
    exact forall₂_congr fun pattern _ => exists_expand_iff
  · intro other removed kept lacks faulty idle finished
    obtain ⟨ends, same⟩ := documents_of_lacks proper system lacks faulty finished idle
    exact ⟨ends, same, by rw [same]⟩

/-- Two schemas, one of which is closed to the reader, a file that is not UTF-8, and a
directory. -/
def assorted : Disk where
  entries := [
    (["a"], .file (Utf8.encode "model A \x7b\n\x7d")),
    (["b"], .file [0xFF]),
    (["c"], .file (Utf8.encode "model C \x7b\n\x7d")),
    (["d"], .directory)]
  device := { reading := fun location =>
    if location = ["c"] then some (.refused .denied) else none }

/-- The disk with the first schema and the directory only, listed the other way around. -/
def tidied : Disk where
  entries := [
    (["d"], .directory),
    (["a"], .file (Utf8.encode "model A \x7b\n\x7d"))]
  device := assorted.device

theorem isFileSystem_assorted : assorted.IsFileSystem where
  toIsTree := Disk.isTree_of_entries (by decide) (by decide)
  distinct := by decide
  plain := by
    have plain : ∀ entry ∈ assorted.entries,
        (∀ part ∈ entry.1, isName part = true ∧ '/' ∉ part) ∧ upward ∉ entry.1 := by
      decide
    exact fun entry member => ⟨(plain entry member).1, (plain entry member).2⟩
  short := by decide

/-- The open schema is loaded once for each match, and again when all else is left out. -/
theorem ofPatterns_accounts_assorted :
    let base := Path.ofText ""
    let loading := ofPatterns assorted base ["a", "x", "b", "c", "d", "a"]
    IsAccount assorted base [("a", ["a"]), ("x", []), ("b", ["b"]), ("c", ["c"]),
        ("d", ["d"]), ("a", ["a"])] loading ∧
      loading.documents.length = 2 ∧
      loading.failed = [Path.ofText "b", Path.ofText "c"] ∧
      loading.unmatched = ["x", "d"] ∧
      (ofPatterns tidied base ["a", "b", "c", "a"]).documents = loading.documents := by
  have proper := Path.isProper_ofText ""
  obtain ⟨-, orders, -, -, leaves⟩ := ofPatterns_accounts proper isFileSystem_assorted
    ["a", "x", "b", "c", "d", "a"]
  have finished : (ofPatterns assorted (Path.ofText "")
      ["a", "x", "b", "c", "d", "a"]).stopped = none := by decide +kernel
  have lacks : assorted.Lacks [["b"], ["c"]] tidied :=
    ⟨rfl, rfl, by decide, by
      simp only [List.forall_mem_cons, List.not_mem_nil, false_imp_iff, implies_true, and_true]
      exact ⟨⟨[0xFF], by decide⟩, Utf8.encode "model C \x7b\n\x7d", by decide⟩⟩
  have given : AreMatches assorted (Path.ofText "") ["a", "x", "b", "c", "d", "a"]
      [("a", ["a"]), ("x", []), ("b", ["b"]), ("c", ["c"]), ("d", ["d"]), ("a", ["a"])] := by
    refine .cons ⟨rfl, _, ?_, .refl _⟩ (.cons ⟨rfl, _, ?_, .refl _⟩ (.cons ⟨rfl, _, ?_, .refl _⟩
      (.cons ⟨rfl, _, ?_, .refl _⟩ (.cons ⟨rfl, _, ?_, .refl _⟩ (.cons ⟨rfl, _, ?_, .refl _⟩
        .nil))))) <;> decide +kernel
  refine ⟨(orders _ given).2 finished (by decide), by decide +kernel, by decide +kernel,
    by decide +kernel, ?_⟩
  have left := leaves tidied [["b"], ["c"]] (fun pattern => pattern ∉ [("x" : Text), "d"])
    lacks ?_ (by decide +kernel) finished
  · exact left.2.1
  · simp only [List.forall_mem_cons, List.not_mem_nil, false_imp_iff, implies_true, and_true]
    refine ⟨?_, fun given => ?_⟩
    · rintro - octets present ⟨text, schema, decoded, -⟩
      obtain rfl : octets = [0xFF] := by
        have file : assorted.entryAt ["b"] = some (.file [0xFF]) := by decide
        have same := file.symm.trans present
        simpa using same.symm
      cases decoded
    · cases given

end Loading

end SchemaCompose
