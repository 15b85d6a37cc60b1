import SchemaCompose.Proofs.Disk.Contents

/-!
# What a job leaves

What a job loads depends on what its patterns name and on what stands there
(`Loading.ofPatterns_congr`).  A job that succeeds has written the composition of what
it loaded to its output and has changed no other file (`content_of_succeeded`); a job
that fails leaves directories at most, unless the device gave up in the middle of its
output (`content_of_failed`).
-/

namespace SchemaCompose

/-! ## Reading the same again -/

namespace Disk

/-- The files that a pattern names; none if no disk takes the pattern. -/
def named (disk : Disk) (base : Path) (pattern : Text) : List Path :=
  match disk.expand base pattern with
  | .ok paths => paths
  | .error _ => []

theorem named_of_expand {disk : Disk} {base : Path} {pattern : Text} {paths : List Path}
    (expanded : disk.expand base pattern = .ok paths) : disk.named base pattern = paths := by
  rw [named, expanded]

theorem mem_named {disk : Disk} {base : Path} {pattern : Text} {path : Path}
    (member : path ∈ disk.named base pattern) :
    disk.isFile path = true ∧ ∃ text, path = base.append (Path.ofText text) := by
  rw [named] at member
  split at member
  · rename_i paths expanded
    obtain ⟨texts, -, rest⟩ := Reading.bind_eq_ok.mp expanded
    obtain ⟨-, rfl⟩ := files_eq_ok.mp rest
    obtain ⟨among, file⟩ := List.mem_filter.mp member
    obtain ⟨text, -, rfl⟩ := List.mem_map.mp among
    exact ⟨file, text, rfl⟩
  · simp at member

end Disk

namespace Attempt

theorem ofFile_congr {disk other : Disk} {path : Path}
    (same : other.read path = disk.read path) :
    ofFile other path = ofFile disk path := by
  rw [ofFile, ofFile, Document.load, Document.load, Disk.readText, Disk.readText, same]

theorem ofPaths_congr {disk other : Disk} {paths : List Path}
    (same : ∀ path ∈ paths, other.read path = disk.read path)
    (pattern : Text) : ofPaths other pattern paths = ofPaths disk pattern paths := by
  cases paths with
  | nil => rfl
  | cons path paths =>
      exact List.map_congr_left fun other member => ofFile_congr (same other member)

end Attempt

namespace Loading

/-- Inputs are loaded the same from two disks on which their patterns name the same
files, with the same in them. -/
theorem ofPatterns_congr {disk other : Disk} {base : Path} {patterns : List Text}
    (expands : ∀ pattern ∈ patterns,
      other.expand base pattern = disk.expand base pattern)
    (same : ∀ pattern ∈ patterns, ∀ path ∈ disk.named base pattern,
      other.read path = disk.read path) :
    ofPatterns other base patterns = ofPatterns disk base patterns := by
  induction patterns with
  | nil => rfl
  | cons pattern patterns ih =>
      rw [List.forall_mem_cons] at expands same
      rw [ofPatterns, ofPatterns, expands.1, ih expands.2 same.2]
      cases expanded : disk.expand base pattern with
      | error error => rfl
      | ok paths =>
          have first := same.1
          simp only [Disk.named, expanded] at first
          simp only [Attempt.ofPaths_congr first]

end Loading

namespace Job

variable {base : Path}

/-! ## One job -/

/-- The text that a job writes after loading its inputs. -/
def composedText (loading : Loading) : Text :=
  (Schema.compose (loading.documents.map (·.schema))).generatedFile

/-- What a job reports after loading its inputs and trying to write its output. -/
def reported (path : Path) (loading : Loading) : Except DiskError Unit → Outcome
  | .ok () => {
      outputPath := path
      documentsLoaded := loading.documents.length
      modelsWritten :=
        (Schema.compose (loading.documents.map (·.schema))).models.length
      unmatchedPatterns := loading.unmatched
      failedDocuments := loading.failed }
  | .error .embeddedNul => { outputPath := path, error := some .embeddedNul }
  | .error error => {
      outputPath := path
      documentsLoaded := loading.documents.length
      unmatchedPatterns := loading.unmatched
      failedDocuments := loading.failed
      error := some error }

theorem succeeded_reported {path : Path} {loading : Loading} {result : Except DiskError Unit} :
    (reported path loading result).succeeded = true ↔ result = .ok () := by
  rcases result with error | done
  · cases error <;> simp [reported, Outcome.succeeded]
  · simp [reported, Outcome.succeeded]

/-- A job whose inputs are loaded leaves what the attempt to write leaves. -/
theorem run_of_finished {disk : Disk} {job : Job}
    (finished : (Loading.ofPatterns disk base job.inputs).stopped = none) :
    (job.run base disk).disk =
        (disk.writeWithDirectories (job.outputPath base)
          (composedText (Loading.ofPatterns disk base job.inputs))).1 ∧
      (job.run base disk).result =
        reported (job.outputPath base) (Loading.ofPatterns disk base job.inputs)
          (disk.writeWithDirectories (job.outputPath base)
            (composedText (Loading.ofPatterns disk base job.inputs))).2 := by
  rcases written : disk.writeWithDirectories (job.outputPath base)
    (composedText (Loading.ofPatterns disk base job.inputs)) with ⟨changed, error | done⟩
  · rw [composedText] at written
    cases error <;> simp [run, finished, written, abandon, reported]
  · rw [composedText] at written
    simp [run, finished, written, reported]

/-- A job whose inputs cannot all be looked for leaves the disk as it is. -/
theorem run_of_stopped {disk : Disk} {job : Job} {error : DiskError}
    (stopped : (Loading.ofPatterns disk base job.inputs).stopped = some error) :
    (job.run base disk).disk = disk ∧
      (job.run base disk).result =
        { outputPath := job.outputPath base, error := some error } := by
  simp [run, stopped, abandon]

theorem outputPath_run (disk : Disk) (job : Job) :
    (job.run base disk).result.outputPath = job.outputPath base := by
  cases finished : (Loading.ofPatterns disk base job.inputs).stopped with
  | some error => rw [(run_of_stopped finished).2]
  | none =>
      rw [(run_of_finished finished).2]
      rcases (disk.writeWithDirectories (job.outputPath base) _).2 with error | done
      · cases error <;> rfl
      · rfl

/-- A job that succeeds has loaded its inputs and written its output. -/
theorem written_of_succeeded {disk : Disk} {job : Job}
    (succeeded : (job.run base disk).result.succeeded = true) :
    (Loading.ofPatterns disk base job.inputs).stopped = none ∧
      disk.writeWithDirectories (job.outputPath base)
        (composedText (Loading.ofPatterns disk base job.inputs)) =
          ((job.run base disk).disk, .ok ()) := by
  cases finished : (Loading.ofPatterns disk base job.inputs).stopped with
  | some error => simp [(run_of_stopped finished).2, Outcome.succeeded] at succeeded
  | none =>
      obtain ⟨left, result⟩ := run_of_finished finished
      rw [result, succeeded_reported] at succeeded
      rw [left]
      exact ⟨rfl, Prod.ext rfl succeeded⟩

/-- The output of a job that succeeds stands in its place, and no other file is
changed. -/
theorem content_of_succeeded (proper : base.IsProper) {disk : Disk} {job : Job}
    (succeeded : (job.run base disk).result.succeeded = true) :
    ∃ location,
      disk.Wrote (job.outputPath base)
        (Utf8.encode (composedText (Loading.ofPatterns disk base job.inputs))) location
        (job.run base disk).disk ∧
      ∀ other, other ≠ location →
        (job.run base disk).disk.contentAt other = disk.contentAt other :=
  Disk.content_of_writeWithDirectories (proper.append (Path.isProper_ofText _))
    (written_of_succeeded succeeded).2

/-- A job that fails leaves directories at most; or the device gave up, and a beginning of
its output stands in its place. -/
theorem content_of_failed (proper : base.IsProper) {disk : Disk} {job : Job}
    (failed : (job.run base disk).result.succeeded = false) :
    disk.Furnished (job.run base disk).disk ∨
      ∃ refusal count location,
        (job.run base disk).result.error = some (.brokenOff refusal) ∧
        disk.Wrote (job.outputPath base)
          ((Utf8.encode (composedText (Loading.ofPatterns disk base job.inputs))).take count)
          location (job.run base disk).disk ∧
        ∀ other, other ≠ location →
          (job.run base disk).disk.contentAt other = disk.contentAt other := by
  cases finished : (Loading.ofPatterns disk base job.inputs).stopped with
  | some error =>
      rw [(run_of_stopped finished).1]
      exact Or.inl (Disk.Furnished.refl disk)
  | none =>
      obtain ⟨left, result⟩ := run_of_finished finished
      rw [left, result]
      rcases written : disk.writeWithDirectories (job.outputPath base)
        (composedText (Loading.ofPatterns disk base job.inputs)) with
        ⟨changed, error | done⟩
      · refine (Disk.content_of_unwritten (proper.append (Path.isProper_ofText _))
          written).imp_right ?_
        rintro ⟨refusal, count, location, rfl, wrote, others⟩
        exact ⟨refusal, count, location, rfl, wrote, others⟩
      · rw [result, written, succeeded_reported.mpr rfl] at failed
        contradiction

/-- A job adds to the disk. -/
theorem extends_run (proper : base.IsProper) (disk : Disk) (job : Job) :
    disk.Extends (job.run base disk).disk := by
  cases succeeded : (job.run base disk).result.succeeded with
  | true =>
      obtain ⟨location, wrote, -⟩ := content_of_succeeded proper succeeded
      exact wrote.grown
  | false =>
      rcases content_of_failed proper succeeded with
        furnished | ⟨_, _, location, -, wrote, -⟩
      · exact furnished.within.grown
      · exact wrote.grown

/-- What goes wrong with the device when a job writes its output, and the path that it
goes wrong with. -/
def trouble? (base : Path) (disk : Disk) (job : Job) : Option (Path × Trouble) :=
  let loading := Loading.ofPatterns disk base job.inputs
  match loading.stopped with
  | some _ => none
  | none => disk.trouble? (job.outputPath base) (composedText loading)

theorem trouble?_of_finished {disk : Disk} {job : Job}
    (finished : (Loading.ofPatterns disk base job.inputs).stopped = none) :
    job.trouble? base disk = disk.trouble? (job.outputPath base)
      (composedText (Loading.ofPatterns disk base job.inputs)) := by
  simp only [trouble?, finished]

/-! ## A run of jobs -/

/-- A run adds to the disk. -/
theorem extends_runAll (proper : base.IsProper) (disk : Disk) (jobs : List Job) :
    disk.Extends (runAll base disk jobs).disk := by
  induction jobs generalizing disk with
  | nil => exact Disk.Extends.refl disk
  | cons job jobs ih => exact (extends_run proper disk job).trans (ih _)

/-- Jobs run after other ones on the disk that those leave. -/
theorem runAll_append (disk : Disk) (earlier later : List Job) :
    (runAll base disk (earlier ++ later)).disk =
        (runAll base (runAll base disk earlier).disk later).disk ∧
      (runAll base disk (earlier ++ later)).result =
        (runAll base disk earlier).result ++
          (runAll base (runAll base disk earlier).disk later).result := by
  induction earlier generalizing disk with
  | nil => exact ⟨rfl, rfl⟩
  | cons job earlier ih =>
      obtain ⟨left, results⟩ := ih (job.run base disk).disk
      exact ⟨left, congrArg (List.cons _) results⟩

theorem outputPaths_runAll (disk : Disk) (jobs : List Job) :
    (runAll base disk jobs).result.map (·.outputPath) = jobs.map (outputPath base) := by
  induction jobs generalizing disk with
  | nil => rfl
  | cons job jobs ih => exact congrArg₂ List.cons (outputPath_run disk job) (ih _)

end Job

end SchemaCompose
