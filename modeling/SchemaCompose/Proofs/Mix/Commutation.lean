import Mathlib.Tactic.MkIffOfInductiveProp
import SchemaCompose.Proofs.Disk.Tree
import SchemaCompose.Proofs.Mix.Outcomes

/-!
# Jobs in either order

Two jobs whose outputs lie apart, and neither of which changes what the other loads or
how the device answers it, give the same outcomes and leave the same files in either
order (`runAll_comm`).  The directories that one job makes are nothing to the other, but
for one thing: when the name of a directory is too long, the error of a job tells at
which directory this was noticed, and that depends on the directories that are there
already (`runAll_comm_ne_deep`).
-/

namespace SchemaCompose

/-- Two outcomes are the same, or differ in the directory that both name because the name
of a directory on the way to the output is too long. -/
def Outcome.Alike (first second : Outcome) : Prop :=
  first = second ∨
    (∃ name ∈ first.outputPath.parent.parts,
      Disk.nameLimit < (Utf8.encode name).length) ∧
    ∃ upper lower : Path, upper.IsAbove first.outputPath.parent ∧
      lower.IsAbove first.outputPath.parent ∧
      first.error = some (.refused .nameTooLong upper) ∧
      second = { first with error := some (.refused .nameTooLong lower) }

theorem Outcome.Alike.succeeded {first second : Outcome} (alike : first.Alike second) :
    first.succeeded = second.succeeded := by
  rcases alike with rfl | ⟨-, _, _, -, -, failed, rfl⟩
  · rfl
  · simp [Outcome.succeeded, failed]

theorem Outcome.Alike.symm {first second : Outcome} (alike : first.Alike second) :
    second.Alike first := by
  rcases alike with rfl | ⟨long, upper, lower, above, below, failed, rfl⟩
  · exact Or.inl rfl
  · refine Or.inr ⟨long, lower, upper, below, above, rfl, ?_⟩
    rw [← failed]

theorem Outcome.Alike.eq_of_short {first second : Outcome} (alike : first.Alike second)
    (short : ∀ name ∈ first.outputPath.parent.parts,
      ¬ Disk.nameLimit < (Utf8.encode name).length) : first = second := by
  rcases alike with same | ⟨⟨name, member, long⟩, -⟩
  · exact same
  · exact absurd long (short name member)

namespace Job

variable {base : Path} {disk other : Disk} {job first second : Job}

/-- The place where a job writes, as names from the root. -/
def place (base : Path) (disk : Disk) (job : Job) : Location :=
  ((job.outputPath base).resolve disk.workingDirectory).parts

/-- The output paths never go upward, and neither output lies in the other one. -/
@[mk_iff]
structure AreApart (base : Path) (disk : Disk) (first second : Job) : Prop where
  direct : upward ∉ (first.outputPath base).parts
  direct' : upward ∉ (second.outputPath base).parts
  outside : ¬ first.place base disk <+: second.place base disk
  outside' : ¬ second.place base disk <+: first.place base disk

/-- After a job has run on a disk, the patterns of the other one name the same files as
before, with the same in them. -/
@[mk_iff]
structure IsUndisturbed (base : Path) (disk : Disk) (job other : Job) : Prop where
  expands : ∀ pattern ∈ other.inputs,
    (job.run base disk).disk.expand base pattern = disk.expand base pattern
  same : ∀ pattern ∈ other.inputs, ∀ path ∈ disk.named base pattern,
    (job.run base disk).disk.read path = disk.read path

/-- After a job has run on a disk, the device does with the output of the other one what
it would have done before. -/
def IsTakenAlike (base : Path) (disk : Disk) (job other : Job) : Prop :=
  other.trouble? base (job.run base disk).disk = other.trouble? base disk

instance (base : Path) (disk : Disk) (first second : Job) :
    Decidable (AreApart base disk first second) :=
  decidable_of_iff' _ (areApart_iff base disk first second)

instance (base : Path) (disk : Disk) (job other : Job) :
    Decidable (IsUndisturbed base disk job other) :=
  decidable_of_iff' _ (isUndisturbed_iff base disk job other)

instance (base : Path) (disk : Disk) (job other : Job) :
    Decidable (IsTakenAlike base disk job other) :=
  inferInstanceAs (Decidable (_ = _))

theorem AreApart.symm (apart : AreApart base disk first second) :
    AreApart base disk second first :=
  ⟨apart.direct', apart.direct, apart.outside', apart.outside⟩

/-! ## One job -/

theorem isPlain_outputPath (proper : base.IsProper)
    (direct : upward ∉ (job.outputPath base).parts) : (job.outputPath base).IsPlain :=
  ⟨proper.append (Path.isProper_ofText _), direct⟩

/-- The names of a plain output path lead from its start to the place of the output. -/
theorem place_eq (direct : upward ∉ (job.outputPath base).parts) (disk : Disk) :
    job.place base disk =
      disk.start (job.outputPath base).anchor ++ (job.outputPath base).parts := by
  rw [place, Path.resolve, Path.withoutUpward_of_direct direct]
  cases anchor : (job.outputPath base).anchor <;>
    simp [Path.isAbsolute, anchor, Disk.start]

/-- A job makes something at the place of its output or on the way there only. -/
theorem paved_run (proper : base.IsProper) (tree : disk.IsTree)
    (direct : upward ∉ (job.outputPath base).parts) :
    disk.Paved (job.place base disk) (job.run base disk).disk := by
  rw [place_eq direct]
  cases finished : (Loading.ofPatterns disk base job.inputs).stopped with
  | some error =>
      rw [(run_of_stopped finished).1]
      exact Disk.Paved.refl tree _
  | none =>
      rw [(run_of_finished finished).1]
      exact tree.paved_writeWithDirectories (isPlain_outputPath proper direct) _

/-- What a job leaves at the place of its output; nothing if the place is left as it
is. -/
def leftover? (base : Path) (disk : Disk) (job : Job) : Option (List UInt8) :=
  let loading := Loading.ofPatterns disk base job.inputs
  match loading.stopped with
  | some _ => none
  | none =>
    let path := job.outputPath base
    Disk.leftover (composedText loading)
      (disk.writeWithDirectories path (composedText loading)).2
      (disk.trouble? path (composedText loading))

theorem leftover?_of_finished
    (finished : (Loading.ofPatterns disk base job.inputs).stopped = none) :
    job.leftover? base disk =
      Disk.leftover (composedText (Loading.ofPatterns disk base job.inputs))
        (disk.writeWithDirectories (job.outputPath base)
          (composedText (Loading.ofPatterns disk base job.inputs))).2
        (job.trouble? base disk) := by
  rw [trouble?_of_finished finished]
  simp only [leftover?, finished]

/-- After a job has run, what it leaves stands at the place of its output, and everything
else is as it was. -/
theorem contentAt_run (proper : base.IsProper) (tree : disk.IsTree)
    (direct : upward ∉ (job.outputPath base).parts) (location : Location) :
    (job.run base disk).disk.contentAt location =
      if location = job.place base disk then
        (job.leftover? base disk).or (disk.contentAt location)
      else disk.contentAt location := by
  cases finished : (Loading.ofPatterns disk base job.inputs).stopped with
  | some error => simp [(run_of_stopped finished).1, leftover?, finished]
  | none =>
      rw [(run_of_finished finished).1, leftover?_of_finished finished,
        trouble?_of_finished finished, place_eq direct]
      exact tree.contentAt_writeWithDirectories (isPlain_outputPath proper direct) _ location

/-- A job reports alike and leaves the same from two trees on which it loads the same and
the device does the same with its output, if the same files stand on the way there, and a
directory in its place or not. -/
theorem run_alike (proper : base.IsProper) (tree : disk.IsTree) (tree' : other.IsTree)
    (direct : upward ∉ (job.outputPath base).parts)
    (loads : Loading.ofPatterns other base job.inputs =
      Loading.ofPatterns disk base job.inputs)
    (device : job.trouble? base other = job.trouble? base disk)
    (home : other.workingDirectory = disk.workingDirectory)
    (files : ∀ location, location <+: job.place base disk →
      other.contentAt location = disk.contentAt location)
    (directory : other.isDirectoryAt (job.place base disk) =
      disk.isDirectoryAt (job.place base disk)) :
    (job.run base disk).result.Alike (job.run base other).result ∧
      job.leftover? base other = job.leftover? base disk := by
  cases finished : (Loading.ofPatterns disk base job.inputs).stopped with
  | some error =>
      rw [(run_of_stopped finished).2, (run_of_stopped (loads ▸ finished)).2]
      exact ⟨Or.inl rfl, by simp only [leftover?, loads, finished]⟩
  | none =>
      have finished' : (Loading.ofPatterns other base job.inputs).stopped = none :=
        loads ▸ finished
      rw [leftover?_of_finished finished, leftover?_of_finished finished', device,
        (run_of_finished finished).2, (run_of_finished finished').2, loads]
      rw [trouble?_of_finished finished, trouble?_of_finished finished', loads] at device
      rw [place_eq direct] at files directory
      have alike := tree.writeWithDirectories_alike tree' (isPlain_outputPath proper direct)
        home (fun location above => files location (above.trans
          ((Path.isAbove_parent _).prefix_append _))) directory device
      refine ⟨?_, (Disk.leftover_of_endAlike alike _).symm⟩
      rcases alike with same | ⟨long, upper, lower, above, below, ended, ended'⟩
      · rw [same]
        exact Or.inl rfl
      · rw [ended, ended']
        exact Or.inr ⟨long, upper, lower, above, below, rfl, rfl⟩

/-! ## Two jobs -/

/-- A job reports alike and leaves the same on a tree and after another job has run there
that does not disturb it. -/
theorem AreApart.run_alike (proper : base.IsProper) (tree : disk.IsTree)
    (apart : AreApart base disk first second)
    (undisturbed : IsUndisturbed base disk first second)
    (taken : IsTakenAlike base disk first second) :
    (second.run base disk).result.Alike
        (second.run base (first.run base disk).disk).result ∧
      second.leftover? base (first.run base disk).disk = second.leftover? base disk := by
  have paved := paved_run proper tree apart.direct
  apply Job.run_alike proper tree paved.tree apart.direct'
    (Loading.ofPatterns_congr undisturbed.expands undisturbed.same) taken
    paved.workingDirectory
  · intro location above
    rw [contentAt_run proper tree apart.direct, if_neg]
    rintro rfl
    exact apart.outside above
  · rw [Disk.isDirectoryAt, Disk.isDirectoryAt, paved.apart _ apart.outside']

/-- What the files hold after both jobs have run. -/
theorem AreApart.contentAt_run (proper : base.IsProper) (tree : disk.IsTree)
    (apart : AreApart base disk first second)
    (undisturbed : IsUndisturbed base disk first second)
    (taken : IsTakenAlike base disk first second) (location : Location) :
    (second.run base (first.run base disk).disk).disk.contentAt location =
      if location = second.place base disk then
        (second.leftover? base disk).or (disk.contentAt location)
      else if location = first.place base disk then
        (first.leftover? base disk).or (disk.contentAt location)
      else disk.contentAt location := by
  have paved := paved_run proper tree apart.direct
  have place : second.place base (first.run base disk).disk = second.place base disk := by
    rw [Job.place, paved.workingDirectory, Job.place]
  rw [Job.contentAt_run proper paved.tree apart.direct',
    Job.contentAt_run proper tree apart.direct, place,
    (apart.run_alike proper tree undisturbed taken).2]
  split_ifs with here there
  · exact absurd (there ▸ here ▸ List.prefix_refl _) apart.outside
  all_goals rfl

/-- Two jobs whose outputs lie apart, which do not disturb each other and whose outputs
the device takes alike in either order, leave the same in every file in either order, and
each reports alike; it reports the same if no directory on the way to its output has a
name that is too long. -/
theorem runAll_comm (proper : base.IsProper) (tree : disk.IsTree)
    (apart : AreApart base disk first second)
    (undisturbed : IsUndisturbed base disk first second)
    (undisturbed' : IsUndisturbed base disk second first)
    (taken : IsTakenAlike base disk first second)
    (taken' : IsTakenAlike base disk second first) :
    let forward := runAll base disk [first, second]
    let backward := runAll base disk [second, first]
    List.Forall₂ Outcome.Alike forward.result backward.result.reverse ∧
      ((∀ job ∈ [first, second], ∀ name ∈ (job.outputPath base).parent.parts,
          ¬ Disk.nameLimit < (Utf8.encode name).length) →
        forward.result = backward.result.reverse) ∧
      ∀ location, forward.disk.contentAt location = backward.disk.contentAt location := by
  have alike := (apart.symm.run_alike proper tree undisturbed' taken').1
  have alike' := (apart.run_alike proper tree undisturbed taken).1.symm
  refine ⟨.cons alike (.cons alike' .nil), fun short => ?_, fun location => ?_⟩
  · have same := alike.eq_of_short
      (by rw [outputPath_run]; exact short first List.mem_cons_self)
    have same' := alike'.eq_of_short
      (by rw [outputPath_run]; exact short second (by simp))
    exact congrArg₂ (fun one two => [one, two]) same same'
  · show (second.run base (first.run base disk).disk).disk.contentAt location =
      (first.run base (second.run base disk).disk).disk.contentAt location
    rw [apart.contentAt_run proper tree undisturbed taken,
      apart.symm.contentAt_run proper tree undisturbed' taken']
    split_ifs with here there
    · exact absurd (here ▸ there ▸ List.prefix_refl _) apart.outside
    all_goals rfl

/-- A disk with one model in the file `a`, on a device that takes no more than three
octets at one place. -/
def bare : Disk where
  entries := [(["a"], .file (Utf8.encode "model A \x7b\n\x7d"))]
  device := { writing := fun _ location _ =>
    if location = ["d", "e", "c"] then some (.brokenOff .tooLarge 3) else none }

/-- Two jobs write into a directory that is not there, one of them further down, where
the device gives up. -/
theorem runAll_comm_bare :
    let base := Path.ofText ""
    let first : Job := ⟨["a"], "d/b"⟩
    let second : Job := ⟨["a"], "d/e/c"⟩
    AreApart base bare first second ∧ IsUndisturbed base bare first second ∧
      IsUndisturbed base bare second first ∧ IsTakenAlike base bare first second ∧
      IsTakenAlike base bare second first ∧
      (runAll base bare [first, second]).result.map (·.succeeded) = [true, false] ∧
      (runAll base bare [first, second]).result =
        (runAll base bare [second, first]).result.reverse ∧
      ∀ location, (runAll base bare [first, second]).disk.contentAt location =
        (runAll base bare [second, first]).disk.contentAt location := by
  have proper := Path.isProper_ofText ""
  have tree : bare.IsTree := Disk.isTree_of_entries (by decide) (by decide)
  have apart : AreApart (Path.ofText "") bare ⟨["a"], "d/b"⟩ ⟨["a"], "d/e/c"⟩ := by
    decide +kernel
  have undisturbed : IsUndisturbed (Path.ofText "") bare ⟨["a"], "d/b"⟩
      ⟨["a"], "d/e/c"⟩ := by decide +kernel
  have undisturbed' : IsUndisturbed (Path.ofText "") bare ⟨["a"], "d/e/c"⟩
      ⟨["a"], "d/b"⟩ := by decide +kernel
  have taken : IsTakenAlike (Path.ofText "") bare ⟨["a"], "d/b"⟩ ⟨["a"], "d/e/c"⟩ := by
    decide +kernel
  have taken' : IsTakenAlike (Path.ofText "") bare ⟨["a"], "d/e/c"⟩ ⟨["a"], "d/b"⟩ := by
    decide +kernel
  obtain ⟨-, same, contents⟩ :=
    runAll_comm proper tree apart undisturbed undisturbed' taken taken'
  exact ⟨apart, undisturbed, undisturbed', taken, taken', by decide +kernel,
    same (by decide +kernel), contents⟩

/-- A name with one octet more than a name may have. -/
def longName : Text := List.replicate 256 'n'

/-- A disk with one model in the file `a`, and room for it and what is composed of it,
but not twice. -/
def narrow : Disk where
  entries := bare.entries
  device := .withRoom 80

/-- The directory `d` is there for the second job if the first one has run, and then the
long name is noticed at the output's own directory instead of at the directory with that
name.  Where there is room for one output, the first of two jobs takes it. -/
theorem runAll_comm_ne_deep :
    let base := Path.ofText ""
    let first : Job := ⟨["a"], "d/b"⟩
    let second : Job := ⟨["a"], "d/" ++ longName ++ "/e/c"⟩
    let one : Job := ⟨["a"], "b"⟩
    let other : Job := ⟨["a"], "c"⟩
    (Disk.IsTree {} ∧ AreApart base {} first second ∧
      IsUndisturbed base {} first second ∧ IsUndisturbed base {} second first ∧
      (runAll base {} [first, second]).result ≠
        (runAll base {} [second, first]).result.reverse) ∧
    narrow.IsTree ∧ AreApart base narrow one other ∧
      IsUndisturbed base narrow one other ∧ IsUndisturbed base narrow other one ∧
      (runAll base narrow [one, other]).result ≠
        (runAll base narrow [other, one]).result.reverse ∧
      (runAll base narrow [one, other]).disk.contentAt ["b"] ≠
        (runAll base narrow [other, one]).disk.contentAt ["b"] :=
  ⟨⟨Disk.isTree_of_entries (by decide) (by decide), by decide +kernel,
    by decide +kernel, by decide +kernel, by decide +kernel⟩,
    Disk.isTree_of_entries (by decide) (by decide), by decide +kernel, by decide +kernel,
    by decide +kernel, by decide +kernel, by decide +kernel⟩

end Job

end SchemaCompose
