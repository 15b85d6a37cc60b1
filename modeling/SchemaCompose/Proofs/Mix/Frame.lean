import SchemaCompose.Proofs.Merge.Models
import SchemaCompose.Proofs.Mix.Outcomes

/-!
# What a run of jobs changes

Whatever becomes of the jobs of a run, a file is changed only if an outcome names it whose
output was begun.  What such a file holds is the composition of what the last job has
loaded that wrote to it, from the disk as it was when that job started; or a beginning of
that, if the device gave up (`runAll_frame`).
-/

namespace SchemaCompose

/-- The output was opened and written to, whether to its end or until the device gave
up. -/
def Outcome.isBegun (outcome : Outcome) : Bool :=
  match outcome.error with
  | none | some (.brokenOff _) => true
  | some _ => false

theorem Outcome.isBegun_of_succeeded {outcome : Outcome}
    (succeeded : outcome.succeeded = true) : outcome.isBegun = true := by
  rw [isBegun, Option.isNone_iff_eq_none.mp succeeded]

namespace Job

variable {base : Path}

/-- An outcome whose output was begun names the place on a disk. -/
def IsTouched (final : Disk) (outcomes : List Outcome) (location : Location) : Prop :=
  ∃ outcome ∈ outcomes, outcome.isBegun = true ∧
    final.locate outcome.outputPath.text = .ok location

theorem isTouched_cons {final : Disk} {outcome : Outcome} {outcomes : List Outcome}
    {location : Location} :
    IsTouched final (outcome :: outcomes) location ↔
      (outcome.isBegun = true ∧
        final.locate outcome.outputPath.text = .ok location) ∨
      IsTouched final outcomes location := by
  simp [IsTouched]

/-- The path of an outcome leads to what its job has written for the rest of the run. -/
theorem locate_of_wrote (proper : base.IsProper) {disk : Disk} {job : Job}
    {octets : List UInt8} {location : Location}
    (wrote : disk.Wrote (job.outputPath base) octets location (job.run base disk).disk)
    (later : List Job) :
    (runAll base (job.run base disk).disk later).disk.locate
      (job.run base disk).result.outputPath.text = .ok location := by
  rw [outputPath_run]
  exact (extends_runAll proper _ later).locate
    (wrote.locate (proper.append (Path.isProper_ofText _)))

/-- A job changes no file; or its output was begun, and no other file than that is
changed. -/
theorem contentAt_run_cases (proper : base.IsProper) (disk : Disk) (job : Job)
    (later : List Job) :
    (∀ location, (job.run base disk).disk.contentAt location = disk.contentAt location) ∨
      (job.run base disk).result.isBegun = true ∧
      ∃ location,
        (runAll base (job.run base disk).disk later).disk.locate
          (job.run base disk).result.outputPath.text = .ok location ∧
        ∀ other, other ≠ location →
          (job.run base disk).disk.contentAt other = disk.contentAt other := by
  cases succeeded : (job.run base disk).result.succeeded with
  | true =>
      obtain ⟨location, wrote, others⟩ := content_of_succeeded proper succeeded
      exact Or.inr ⟨Outcome.isBegun_of_succeeded succeeded, location,
        locate_of_wrote proper wrote later, others⟩
  | false =>
      rcases content_of_failed proper succeeded with
        furnished | ⟨refusal, count, location, failed, wrote, others⟩
      · exact Or.inl furnished.content
      · exact Or.inr ⟨by rw [Outcome.isBegun, failed], location,
          locate_of_wrote proper wrote later, others⟩

/-- A run changes a file only if an outcome names it whose output was begun. -/
theorem contentAt_runAll (proper : base.IsProper) (disk : Disk) (jobs : List Job)
    {location : Location}
    (apart : ¬ IsTouched (runAll base disk jobs).disk (runAll base disk jobs).result
      location) :
    (runAll base disk jobs).disk.contentAt location = disk.contentAt location := by
  induction jobs generalizing disk with
  | nil => rfl
  | cons job jobs ih =>
      simp only [runAll, isTouched_cons, not_or] at apart
      refine (ih _ apart.2).trans ?_
      rcases contentAt_run_cases proper disk job jobs with
        unchanged | ⟨begun, place, leads, others⟩
      · exact unchanged location
      · apply others
        rintro rfl
        exact apart.1 ⟨begun, leads⟩

/--
A run gives one outcome for each job in the order of the jobs, and changes only files
that an outcome names whose output was begun.  Where a job of the run has succeeded, it
reports the number of the names that its models have, and the file that its outcome names
holds the composition of what it loaded when it started, unless the output of a later job
was begun there.  A job that has not succeeded changes no file, unless the device gave up:
then a beginning of the composition stands in the file that its outcome names.
-/
theorem runAll_frame (proper : base.IsProper) (disk : Disk) (jobs : List Job) :
    let final := (runAll base disk jobs).disk
    let outcomes := (runAll base disk jobs).result
    outcomes.map (·.outputPath) = jobs.map (outputPath base) ∧
    (∀ location, final.contentAt location ≠ disk.contentAt location →
      IsTouched final outcomes location) ∧
    ∀ earlier job later, jobs = earlier ++ job :: later →
      let started := (runAll base disk earlier).disk
      let run := job.run base started
      let documents := (Loading.ofPatterns started base job.inputs).documents
      let octets := Utf8.encode (withBanner
        (Schema.compose (documents.map (·.schema))).render)
      let others := (runAll base run.disk later).result
      outcomes = (runAll base disk earlier).result ++ run.result :: others ∧
      (run.result.succeeded = true →
        run.result.modelsWritten =
          ((documents.flatMap (·.schema.models)).map (·.name)).eraseDups.length ∧
        ∃ location, final.locate run.result.outputPath.text = .ok location ∧
          (¬ IsTouched final others location →
            final.contentAt location = some octets)) ∧
      (run.result.succeeded = false →
        (∀ location, run.disk.contentAt location = started.contentAt location) ∨
        run.result.isBegun = true ∧ ∃ location count,
          final.locate run.result.outputPath.text = .ok location ∧
          run.disk.contentAt location = some (octets.take count) ∧
          ∀ other, other ≠ location →
            run.disk.contentAt other = started.contentAt other) := by
  refine ⟨outputPaths_runAll disk jobs, ?_, ?_⟩
  · intro location changed
    by_contra apart
    exact changed (contentAt_runAll proper disk jobs apart)
  rintro earlier job later rfl
  obtain ⟨left, results⟩ := @runAll_append base disk earlier (job :: later)
  refine ⟨results, fun succeeded => ⟨?_, ?_⟩, fun unfinished => ?_⟩
  · obtain ⟨finished, written⟩ := written_of_succeeded succeeded
    have counted := congrArg Outcome.modelsWritten (run_of_finished finished).2
    rw [written] at counted
    rw [counted, ← Model.names_mergeAll, List.length_map]
    simp [reported, Schema.compose, List.flatMap_map]
  · obtain ⟨location, wrote, -⟩ := content_of_succeeded proper succeeded
    refine ⟨location, left ▸ locate_of_wrote proper wrote later, fun apart => ?_⟩
    rw [left] at apart ⊢
    exact (contentAt_runAll proper _ later apart).trans
      (Disk.contentAt_eq_some.mpr wrote.written)
  · rcases content_of_failed proper unfinished with
      furnished | ⟨refusal, count, location, failed, wrote, others⟩
    · exact Or.inl furnished.content
    · exact Or.inr ⟨by rw [Outcome.isBegun, failed], location, count,
        left ▸ locate_of_wrote proper wrote later, Disk.contentAt_eq_some.mpr wrote.written,
        others⟩

/-- A disk with one indexed model in the file `a`. -/
def indexed : Disk where
  entries := [(["a"], .file (Utf8.encode "model A \x7b\n@@index(x)\n\x7d"))]

/-- Between two jobs with one output stands a job that looks for a directory where a
file is. -/
def aroundFailure : List Job := [⟨["a"], "d/b"⟩, ⟨["a"], "a/c"⟩, ⟨["d/b", "a"], "d/b"⟩]

/-- The last job puts the index of its own output in front of the one that it reads
again. -/
theorem runAll_frame_around_failure :
    let base := Path.ofText ""
    let run := runAll base indexed aroundFailure
    base.IsProper ∧ run.result.map (·.succeeded) = [true, false, true] ∧
      (run.result.map (·.modelsWritten)).getLast? = some 1 ∧
      run.disk.contentAt ["d", "b"] = some (Utf8.encode (Text.unlines
        [generatedBanner, "model A \x7b", "", "  @@index(x)", "  @@index(x)", "\x7d",
          ""])) := by
  have proper := Path.isProper_ofText ""
  obtain ⟨-, -, each⟩ := runAll_frame proper indexed aroundFailure
  obtain ⟨outcomes, done, -⟩ := each [⟨["a"], "d/b"⟩, ⟨["a"], "a/c"⟩] _ [] rfl
  obtain ⟨counted, location, leads, content⟩ := done (by decide +kernel)
  have place : location = (["d", "b"] : Location) :=
    Except.ok.inj (leads.symm.trans (by decide +kernel))
  refine ⟨proper, by decide +kernel, ?_, ?_⟩
  · rw [outcomes, List.map_append, List.map_cons, counted]
    decide +kernel
  · rw [← place, content (by simp [IsTouched, runAll])]
    decide +kernel

/-- A disk with a schema and another file, on a device that has no more room. -/
def crowded : Disk where
  entries := [(["a"], .file (Utf8.encode "model A \x7b\n\x7d")), (["b"], .file [0x78])]
  device := .withRoom 12

/-- A disk with two schemas and a directory. -/
def twice : Disk where
  entries := [
    (["a"], .file (Utf8.encode "model A \x7b\n\x7d")),
    (["c"], .file (Utf8.encode "model C \x7b\n\x7d")),
    (["d"], .directory)]

/-- A job that fails for want of room leaves the first octet of a comment in its output.
Where two outputs lead to one file, it does not hold what the only job with the first one
has composed. -/
theorem runAll_frame_ne_crowded :
    let base := Path.ofText ""
    let one : Job := ⟨["a"], "b"⟩
    let other : Job := ⟨["c"], "d/../b"⟩
    ((runAll base crowded [one]).result.map (·.succeeded) = [false] ∧
      crowded.contentAt ["b"] = some [0x78] ∧
      (runAll base crowded [one]).disk.contentAt ["b"] = some [0x2F]) ∧
    (runAll base twice [one, other]).result.map (·.succeeded) = [true, true] ∧
      one.outputPath base ≠ other.outputPath base ∧
      (runAll base twice [one, other]).disk.locate (one.outputPath base).text =
        .ok ["b"] ∧
      (runAll base twice [one, other]).disk.contentAt ["b"] ≠
        some (Utf8.encode (composedText (Loading.ofPatterns twice base one.inputs))) := by
  decide +kernel

end Job

end SchemaCompose
