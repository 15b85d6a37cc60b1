import Mathlib.Tactic.MkIffOfInductiveProp
import SchemaCompose.Proofs.Mix.Outcomes

/-!
# Running the same jobs again

A run of jobs whose outputs were all written is run once more on the disk that it left.
If every pattern names there what it named when its job ran, and no job reads its own
output or that of a later one, then each job reads and writes the same again: the
second run leaves the disk as it finds it, as long as the device takes what it writes
(`runAll_again`).

The argument goes through the jobs in order.  Ahead of a job, the disk of the second
run has the shape of the final disk and agrees with it wherever no remaining job
writes (`Redone`); what the job reads stands at such places, and was there already
when the job ran first.
-/

namespace SchemaCompose

namespace Job

variable {base : Path}

/-! ## A run of jobs -/

/-- The places that the outputs of jobs lead to on a disk. -/
def IsOutput (base : Path) (final : Disk) (jobs : List Job) (location : Location) :
    Prop :=
  ∃ job ∈ jobs, final.locate (job.outputPath base).text = .ok location

/-- All jobs of a run have succeeded. -/
def AllSucceed (base : Path) (disk : Disk) (jobs : List Job) : Prop :=
  ∀ outcome ∈ (runAll base disk jobs).result, outcome.succeeded = true

instance (base : Path) (disk : Disk) (jobs : List Job) :
    Decidable (AllSucceed base disk jobs) :=
  inferInstanceAs (Decidable (∀ outcome ∈ _, _))

theorem allSucceed_cons {disk : Disk} {job : Job} {jobs : List Job} :
    AllSucceed base disk (job :: jobs) ↔
      (job.run base disk).result.succeeded = true ∧
        AllSucceed base (job.run base disk).disk jobs :=
  List.forall_mem_cons

/-- A run changes what is there only where it writes. -/
theorem kept_of_allSucceed (proper : base.IsProper) {disk : Disk} {jobs : List Job}
    (succeed : AllSucceed base disk jobs) {location : Location} {entry : Entry}
    (present : disk.entryAt location = some entry)
    (apart : ¬ IsOutput base (runAll base disk jobs).disk jobs location) :
    (runAll base disk jobs).disk.entryAt location = some entry := by
  induction jobs generalizing disk with
  | nil => exact present
  | cons job jobs ih =>
      obtain ⟨first, others⟩ := allSucceed_cons.mp succeed
      obtain ⟨place, wrote, -⟩ := content_of_succeeded proper first
      have leads : (runAll base disk (job :: jobs)).disk.locate
          (job.outputPath base).text = .ok place :=
        (extends_runAll proper _ jobs).locate
          (wrote.locate (proper.append (Path.isProper_ofText _)))
      have different : location ≠ place := by
        rintro rfl
        exact apart ⟨job, List.mem_cons_self, leads⟩
      refine ih others (wrote.kept location entry different present) ?_
      rintro ⟨writer, member, here⟩
      exact apart ⟨writer, List.mem_cons_of_mem job member, here⟩

/-! ## Running it again -/

/-- What is written from a job on does not disturb it: its patterns name on the final
disk what they named when it ran, and none of that is an output of a writer. -/
@[mk_iff]
structure IsSettled (base : Path) (disk final : Disk) (job : Job)
    (writers : List Job) : Prop where
  expands : ∀ pattern ∈ job.inputs,
    final.expand base pattern = disk.expand base pattern
  apart : ∀ pattern ∈ job.inputs, ∀ path ∈ disk.named base pattern,
    ∀ writer ∈ writers,
      final.locate path.text ≠ final.locate (writer.outputPath base).text

instance (base : Path) (disk final : Disk) (job : Job) (writers : List Job) :
    Decidable (IsSettled base disk final job writers) :=
  decidable_of_iff' _ (isSettled_iff base disk final job writers)

/-- No job of a run is disturbed by its own output or by a later one. -/
def AreSettled (base : Path) (final : Disk) : Disk → List Job → Prop
  | _, [] => True
  | disk, job :: jobs =>
    job.IsSettled base disk final (job :: jobs) ∧
      AreSettled base final (job.run base disk).disk jobs

instance decidableAreSettled (base : Path) (final : Disk) :
    ∀ disk jobs, Decidable (AreSettled base final disk jobs)
  | _, [] => inferInstanceAs (Decidable True)
  | disk, job :: jobs =>
    have := decidableAreSettled base final (job.run base disk).disk jobs
    inferInstanceAs (Decidable (_ ∧ _))

/-- Nothing goes wrong with the device in a run. -/
def AreTaken (base : Path) : Disk → List Job → Prop
  | _, [] => True
  | disk, job :: jobs =>
    job.trouble? base disk = none ∧ AreTaken base (job.run base disk).disk jobs

instance decidableAreTaken (base : Path) : ∀ disk jobs, Decidable (AreTaken base disk jobs)
  | _, [] => inferInstanceAs (Decidable True)
  | disk, job :: jobs =>
    have := decidableAreTaken base (job.run base disk).disk jobs
    inferInstanceAs (Decidable (_ ∧ _))

/-- The disk of the second run ahead of some jobs: the shape of the final disk, and
what is on it except where these jobs write. -/
structure Redone (base : Path) (final : Disk) (jobs : List Job) (current : Disk) :
    Prop where
  shape : current.SameShape final
  same : ∀ location, ¬ IsOutput base final jobs location →
    current.entryAt location = final.entryAt location

/-- The second time, a job loads what it loaded the first time. -/
theorem Redone.ofPatterns_eq (proper : base.IsProper) {disk current : Disk} {job : Job}
    {jobs : List Job} {final : Disk} (run : final = (runAll base disk (job :: jobs)).disk)
    (succeed : AllSucceed base disk (job :: jobs))
    (settled : job.IsSettled base disk final (job :: jobs))
    (redone : Redone base final (job :: jobs) current) :
    Loading.ofPatterns current base job.inputs =
      Loading.ofPatterns disk base job.inputs := by
  apply Loading.ofPatterns_congr
  · intro pattern member
    rw [Disk.expand_of_sameShape redone.shape, settled.expands pattern member]
  · intro pattern member path listed
    obtain ⟨noNul, location, octets, leads, file⟩ :=
      Disk.isFile_iff.mp (Disk.mem_named listed).1
    have atLast : final.locate path.text = .ok location :=
      run ▸ (extends_runAll proper disk (job :: jobs)).locate leads
    have apart : ¬ IsOutput base final (job :: jobs) location := by
      rintro ⟨writer, writes, here⟩
      exact settled.apart pattern member path listed writer writes
        (atLast.trans here.symm)
    have kept : final.entryAt location = some (.file octets) :=
      run ▸ kept_of_allSucceed proper succeed file (run ▸ apart)
    have back : final.Extends current := Disk.Extends.of_sameShape (Eq.symm redone.shape)
    have device : current.device = disk.device :=
      back.device.trans (run ▸ (extends_runAll proper disk (job :: jobs)).device)
    rw [Disk.read_of_fileAt (Disk.fileAt_eq_ok.mpr ⟨noNul, leads, file⟩),
      Disk.read_of_fileAt (Disk.fileAt_eq_ok.mpr ⟨noNul, back.locate atLast,
        (redone.same location apart).trans kept⟩), device]

/-- The second time, a job reports the same and writes the same at the same place. -/
theorem Redone.step (proper : base.IsProper) {disk current : Disk} {job : Job}
    {jobs : List Job} {final : Disk} (run : final = (runAll base disk (job :: jobs)).disk)
    (succeed : AllSucceed base disk (job :: jobs))
    (settled : job.IsSettled base disk final (job :: jobs))
    (redone : Redone base final (job :: jobs) current)
    (taken : job.trouble? base current = none) :
    (job.run base current).result = (job.run base disk).result ∧
      Redone base final jobs (job.run base current).disk := by
  obtain ⟨first, others⟩ := allSucceed_cons.mp succeed
  obtain ⟨finished, written⟩ := written_of_succeeded first
  obtain ⟨place, wrote, -⟩ := content_of_succeeded proper first
  have properOutput : (job.outputPath base).IsProper :=
    proper.append (Path.isProper_ofText _)
  have growth : (job.run base disk).disk.Extends final :=
    run ▸ extends_runAll proper _ jobs
  have loading := redone.ofPatterns_eq proper run succeed settled
  have finished' : (Loading.ofPatterns current base job.inputs).stopped = none :=
    loading ▸ finished
  rw [trouble?_of_finished finished'] at taken
  have again := wrote.again properOutput
    (growth.trans (Disk.Extends.of_sameShape (Eq.symm redone.shape))) taken
  obtain ⟨left, reported⟩ := run_of_finished finished'
  rw [left, reported, (run_of_finished finished).2, again, written, loading]
  refine ⟨rfl, ?_, ?_⟩
  · obtain ⟨octets, file⟩ := growth.exists_file wrote.written
    exact Disk.sameShape_put redone.shape file _
  · intro location apart
    by_cases here : location = place
    · subst here
      rw [Disk.entryAt_put_self (Disk.ne_nil_of_file wrote.written), run]
      exact (kept_of_allSucceed proper others wrote.written (run ▸ apart)).symm
    · rw [Disk.entryAt_put_of_ne here]
      refine redone.same location ?_
      rintro ⟨writer, member, leads⟩
      rcases List.mem_cons.mp member with rfl | later
      · rw [growth.locate (wrote.locate properOutput)] at leads
        exact here (Except.ok.inj leads).symm
      · exact apart ⟨writer, later, leads⟩

/-- From some job on, the second run reports the same and ends on the final disk. -/
theorem Redone.runAll (proper : base.IsProper) {disk current : Disk}
    {jobs : List Job} {final : Disk} (run : final = (runAll base disk jobs).disk)
    (succeed : AllSucceed base disk jobs)
    (settled : AreSettled base final disk jobs)
    (redone : Redone base final jobs current) (taken : AreTaken base current jobs) :
    (Job.runAll base current jobs).result = (Job.runAll base disk jobs).result ∧
      ∀ location, (Job.runAll base current jobs).disk.entryAt location =
        final.entryAt location := by
  induction jobs generalizing disk current with
  | nil => exact ⟨rfl, fun location => redone.same location (by simp [IsOutput])⟩
  | cons job jobs ih =>
      obtain ⟨reported, next⟩ := redone.step proper run succeed settled.1 taken.1
      have rest : final = (Job.runAll base (job.run base disk).disk jobs).disk := run
      obtain ⟨results, entries⟩ :=
        ih rest (allSucceed_cons.mp succeed).2 settled.2 next taken.2
      exact ⟨congrArg₂ List.cons reported results, entries⟩

/-- Jobs that have all succeeded leave every file as it is when they run again on the
disk that they left, and report the same outcomes, if no job is disturbed by its own
output or by a later one and nothing goes wrong with the device meanwhile. -/
theorem runAll_again (proper : base.IsProper) (disk : Disk) (jobs : List Job)
    (succeed : AllSucceed base disk jobs)
    (settled : AreSettled base (runAll base disk jobs).disk disk jobs)
    (taken : AreTaken base (runAll base disk jobs).disk jobs) :
    let final := (runAll base disk jobs).disk
    (runAll base final jobs).result = (runAll base disk jobs).result ∧
      ∀ location, (runAll base final jobs).disk.entryAt location =
        final.entryAt location :=
  Redone.runAll proper rfl succeed settled ⟨rfl, fun _ _ => rfl⟩ taken

/-- A disk with one model in the file `a`. -/
def oneModel : Disk where
  entries := [(["a"], .file (Utf8.encode "model A \x7b\n@@index(x)\n\x7d"))]

/-- The second job reads what the first one writes. -/
def chain : List Job := [⟨["a"], "b"⟩, ⟨["b"], "c"⟩]

theorem runAll_again_chain :
    let base := Path.ofText ""
    let final := (runAll base oneModel chain).disk
    AllSucceed base oneModel chain ∧ AreSettled base final oneModel chain ∧
      AreTaken base final chain ∧
      (runAll base final chain).result = (runAll base oneModel chain).result ∧
      ∀ location, (runAll base final chain).disk.entryAt location =
        final.entryAt location := by
  have proper := Path.isProper_ofText ""
  have succeed : AllSucceed (Path.ofText "") oneModel chain := by decide +kernel
  have settled : AreSettled (Path.ofText "")
      (runAll (Path.ofText "") oneModel chain).disk oneModel chain := by decide +kernel
  have taken : AreTaken (Path.ofText "") (runAll (Path.ofText "") oneModel chain).disk
      chain := by decide +kernel
  exact ⟨succeed, settled, taken, runAll_again proper oneModel chain succeed settled taken⟩

/-- A job may read its own output. -/
def loop : List Job := [⟨["a", "b"], "b"⟩]

/-- Two jobs write over what others have written before them. -/
def crossing : List Job :=
  [⟨["e"], "p"⟩, ⟨["c"], "q"⟩, ⟨["a"], "p"⟩, ⟨["e"], "q"⟩, ⟨["e"], "r"⟩]

/-- A disk with an empty schema, one of one model and one of three, on a device that has
room for what is composed of them, but not for much more. -/
def tight : Disk where
  entries := [
    (["e"], .file []),
    (["a"], .file (Utf8.encode "model A \x7b\n\x7d")),
    (["c"], .file (Utf8.encode
      "model C \x7b\n\x7d\nmodel D \x7b\n\x7d\nmodel E \x7b\n\x7d"))]
  device := .withRoom 220

/-- A job that reads its own output adds to it with every run.  And where a job needs more
room than the one that writes to the same output after it, the room may have gone to the
last job when all of them run again. -/
theorem runAll_again_ne_loop :
    let base := Path.ofText ""
    (AllSucceed base oneModel loop ∧
      (runAll base (runAll base oneModel loop).disk loop).disk.entryAt ["b"] ≠
        (runAll base oneModel loop).disk.entryAt ["b"]) ∧
    AllSucceed base tight crossing ∧
      AreSettled base (runAll base tight crossing).disk tight crossing ∧
      (runAll base (runAll base tight crossing).disk crossing).disk.entryAt ["p"] ≠
        (runAll base tight crossing).disk.entryAt ["p"] := by
  decide +kernel

end Job

end SchemaCompose
