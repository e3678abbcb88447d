import MessageSchema.Job
import MessageSchema.Proofs.Disks
import MessageSchema.Proofs.OutputSchemas

/-!
Runs on files. Everything is read, built and put into text before the first directory is made, and
the one file that is written is written last. A run that fails has therefore changed no file, and one
that succeeds has changed no other.
-/

namespace MessageSchema

set_option autoImplicit false

open Files

namespace Files

def Disk.SameFiles (before after : Disk) : Prop :=
  ∀ place content,
    after.find? place = some (.file content) ↔ before.find? place = some (.file content)

theorem Disk.SameFiles.refl (d : Disk) : d.SameFiles d := fun _ _ => Iff.rfl

/-- A text has been saved under a path. No other file has changed, and only directories that lead to
the path are new. -/
structure Disk.Saved (path : Path) (text : String) (before after : Disk) : Prop where
  home : after.home = before.home
  read : after.read path = .ok text
  file : ∃ file, after.fileOf? path = some file ∧ ∀ place content, place ≠ file →
    (after.find? place = some (.file content) ↔ before.find? place = some (.file content))
  kept : ∀ place, before.find? place = some .directory → after.find? place = some .directory
  made : ∀ place, after.find? place = some .directory → before.find? place ≠ some .directory →
    before.find? place = none ∧ after.OnWay path place

theorem Disk.saved_of_write {path : Path} {text : String} {before made after : Disk}
    (grows : Disk.Grows path before made) (written : made.write path text = .ok after) :
    Disk.Saved path text before after := by
  have keeps := Disk.keeps_directories_write written
  obtain ⟨file, there, free, found⟩ := Disk.find_write written
  constructor
  · exact keeps.home.trans grows.home
  · exact Disk.read_write written
  · refine ⟨file, there, fun place content other => ?_⟩
    rw [found, if_neg (Ne.symm other)]
    exact grows.find_file place content
  · exact fun place old => keeps.directory place (grows.kept place _ old)
  · intro place new absent
    rw [found] at new
    split at new
    · simp at new
    · rcases grows.made place _ new with old | ⟨none, _, onWay⟩
      · exact absurd old absent
      · exact ⟨none, keeps.on_way onWay⟩

namespace Plan

variable {α : Type}

/-- How saving goes: it fails on a directory, or on the file, or the text is written. What has been
made before are directories. -/
theorem run_save (path text : String) (next : Option Fault → Option Fault → Plan α) (d : Disk) :
    ∃ made, Disk.Grows ⟨path⟩ d made ∧
      ((∃ fault, (save path text next).run d = (next (some fault) none).run made) ∨
        (∃ fault, (save path text next).run d = (next none (some fault)).run made) ∨
        ∃ written, made.write ⟨path⟩ text = .ok written ∧
          (save path text next).run d = (next none none).run written) := by
  -- Both with and without a parent the last thing to do is to write.
  have finish : ∀ made : Disk,
      (∃ fault, (write path text (next none)).run made = (next none (some fault)).run made) ∨
        ∃ written, made.write ⟨path⟩ text = .ok written ∧
          (write path text (next none)).run made = (next none none).run written := by
    intro made
    simp only [run]
    cases made.write ⟨path⟩ text with
    | error fault => exact Or.inl ⟨fault, rfl⟩
    | ok written => exact Or.inr ⟨written, rfl, rfl⟩
  unfold save
  cases parent : Path.parent? ⟨path⟩ with
  | none => exact ⟨d, Disk.Grows.refl _ d, Or.inr (finish d)⟩
  | some front =>
      have grows : Disk.Grows ⟨path⟩ d (d.ensureDirectories front).1 :=
        Disk.grows_ensure_directories (Path.leads_of_parent parent).1
      refine ⟨_, grows, ?_⟩
      simp only [run]
      cases (d.ensureDirectories front).2 with
      | some fault => exact Or.inl ⟨fault, rfl⟩
      | none => exact Or.inr (finish _)

/-- Where a text can be written as things are, saving makes no directory and does not fail. -/
theorem run_save_of_write {path text : String} {d written : Disk}
    (next : Option Fault → Option Fault → Plan α) (free : d.write ⟨path⟩ text = .ok written) :
    (save path text next).run d = (next none none).run written := by
  have finish : (write path text (next none)).run d = (next none none).run written := by
    simp only [run, free]
  unfold save
  cases parent : Path.parent? ⟨path⟩ with
  | none => exact finish
  | some front =>
      obtain ⟨place, name, goal, _⟩ := Disk.write_eq_ok free
      obtain ⟨leads, first⟩ := Path.leads_of_parent parent
      have there := Disk.is_directory_of_leads leads goal
      have kept := Disk.ensure_directories_of_is_directory first there
      simp only [run, kept, free]

end Plan

end Files

namespace Job

theorem run_save_output (path : String) (ran : Noted (Except Failure Output)) (output : Output)
    (text : String) (d : Disk) :
    ∃ made, Disk.Grows ⟨path⟩ d made ∧
      ((∃ fault, (saveOutput path ran output text).run d =
          (made, { ran with value := .error (.output fault) })) ∨
        ∃ written, made.write ⟨path⟩ text = .ok written ∧
          (saveOutput path ran output text).run d =
            (written,
              { ran with value := .ok output, log := ran.log ++ [.wroteDocument path] })) := by
  unfold saveOutput
  obtain ⟨made, grows, ⟨fault, run⟩ | ⟨fault, run⟩ | ⟨written, saved, run⟩⟩ :=
    Plan.run_save path text _ d
  · exact ⟨made, grows, Or.inl ⟨fault, run⟩⟩
  · exact ⟨made, grows, Or.inl ⟨fault, run⟩⟩
  · exact ⟨made, grows, Or.inr ⟨written, saved, run⟩⟩

/-- How transforming files goes: nothing happens, or directories are made and saving fails, or what
has been made of the files is saved. -/
theorem run_transform_files {s : Settings} {d after : Disk} {ran : Noted (Except Failure Output)}
    (run : (transformFiles s).run d = (after, ran)) :
    (∃ failure, after = d ∧ ran.value = .error failure) ∨
      (∃ fault, Disk.Grows ⟨s.outputPath⟩ d after ∧ ran.value = .error (.output fault)) ∨
        ∃ spec template output text made, d.read ⟨s.inputPath⟩ = .ok spec ∧
          d.read ⟨s.templatePath⟩ = .ok template ∧
          (transform s spec template).value = .ok output ∧ output.toText = .ok text ∧
          Disk.Grows ⟨s.outputPath⟩ d made ∧ made.write ⟨s.outputPath⟩ text = .ok after ∧
          ran.value = .ok output := by
  have stopped : ∀ early : Noted (Except Failure Output), ∀ failure, early.value = .error failure →
      (d, early) = (after, ran) → ∃ failure, after = d ∧ ran.value = .error failure := by
    rintro early failure same run
    obtain ⟨rfl, rfl⟩ := Prod.mk.inj run
    exact ⟨failure, rfl, same⟩
  simp only [transformFiles, Plan.run] at run
  cases readSpec : d.read ⟨s.inputPath⟩ with
  | error fault =>
      rw [readSpec] at run
      exact Or.inl (stopped _ _ rfl run)
  | ok spec =>
      simp only [readSpec, Plan.run] at run
      cases readTemplate : d.read ⟨s.templatePath⟩ with
      | error fault =>
          rw [readTemplate] at run
          exact Or.inl (stopped _ _ rfl run)
      | ok template =>
          simp only [readTemplate] at run
          cases transformed : (transform s spec template).value with
          | error failure =>
              rw [transformed] at run
              exact Or.inl (stopped _ _ rfl run)
          | ok output =>
              simp only [transformed] at run
              cases rendered : output.toText with
              | error failure =>
                  rw [rendered] at run
                  exact Or.inl (stopped _ _ rfl run)
              | ok text =>
                  simp only [rendered] at run
                  obtain ⟨made, grows, ⟨fault, saving⟩ | ⟨written, saved, saving⟩⟩ :=
                    run_save_output s.outputPath (transform s spec template) output text d
                  · rw [saving] at run
                    obtain ⟨rfl, rfl⟩ := Prod.mk.inj run
                    exact Or.inr (Or.inl ⟨fault, grows, rfl⟩)
                  · rw [saving] at run
                    obtain ⟨rfl, rfl⟩ := Prod.mk.inj run
                    exact Or.inr (Or.inr ⟨spec, template, output, text, made, rfl, rfl, transformed,
                      rendered, grows, saved, rfl⟩)

theorem run_transform_files_of_write {s : Settings} {d written : Disk} {spec template text : String}
    {output : Output} (readSpec : d.read ⟨s.inputPath⟩ = .ok spec)
    (readTemplate : d.read ⟨s.templatePath⟩ = .ok template)
    (transformed : (transform s spec template).value = .ok output)
    (rendered : output.toText = .ok text) (free : d.write ⟨s.outputPath⟩ text = .ok written) :
    ∃ ran, (transformFiles s).run d = (written, ran) ∧ ran.value = .ok output := by
  simp only [transformFiles, Plan.run, readSpec, readTemplate, transformed, rendered, saveOutput]
  rw [Plan.run_save_of_write _ free]
  exact ⟨_, rfl, rfl⟩

/-- What becomes of a disk when files are transformed. A run that fails changes no file, and unless
it failed at saving not even a directory. A run that succeeds saves the text of what it made of the
files as they were at first. It does succeed where that text can be written as things are. -/
structure AllOrNothing (s : Settings) (before after : Disk) (result : Except Failure Output) : Prop
    where
  failed : ∀ failure, result = .error failure →
    before.SameFiles after ∧ ((∃ fault, failure = .output fault) ∨ after = before)
  saved : ∀ output, result = .ok output →
    ∃ spec template text, before.read ⟨s.inputPath⟩ = .ok spec ∧
      before.read ⟨s.templatePath⟩ = .ok template ∧
      (transform s spec template).value = .ok output ∧ output.toText = .ok text ∧
      Disk.Saved ⟨s.outputPath⟩ text before after
  completes : ∀ spec template output text written, before.read ⟨s.inputPath⟩ = .ok spec →
    before.read ⟨s.templatePath⟩ = .ok template →
    (transform s spec template).value = .ok output → output.toText = .ok text →
    before.write ⟨s.outputPath⟩ text = .ok written → result = .ok output ∧ after = written

theorem transform_files_all_or_nothing (s : Settings) (d : Disk) :
    AllOrNothing s d ((transformFiles s).run d).1 ((transformFiles s).run d).2.value := by
  cases run : (transformFiles s).run d with
  | mk after ran =>
      have outcome := run_transform_files run
      constructor
      · intro failure result
        rcases outcome with
          ⟨_, same, _⟩ | ⟨fault, grows, saving⟩ | ⟨_, _, _, _, _, _, _, _, _, _, _, succeeded⟩
        · rw [same]
          exact ⟨Disk.SameFiles.refl d, Or.inr rfl⟩
        · rw [saving] at result
          exact ⟨grows.find_file, Or.inl ⟨fault, (Except.error.inj result).symm⟩⟩
        · rw [succeeded] at result
          contradiction
      · intro output result
        rcases outcome with ⟨_, _, failed⟩ | ⟨_, _, failed⟩ | ⟨spec, template, saved, text, made,
          readSpec, readTemplate, transformed, rendered, grows, written, succeeded⟩
        · rw [failed] at result
          contradiction
        · rw [failed] at result
          contradiction
        · obtain rfl := Except.ok.inj (succeeded.symm.trans result)
          exact ⟨spec, template, text, readSpec, readTemplate, transformed, rendered,
            Disk.saved_of_write grows written⟩
      · intro spec template output text written readSpec readTemplate transformed rendered free
        obtain ⟨ran', run', succeeded⟩ :=
          run_transform_files_of_write readSpec readTemplate transformed rendered free
        obtain ⟨rfl, rfl⟩ := Prod.mk.inj (run.symm.trans run')
        exact ⟨succeeded, rfl⟩

/-- A run that replaces the file it has read, through a directory that it makes. -/
theorem transform_files_all_or_nothing_replacing :
    let s : Settings :=
      { inputPath := "in", templatePath := "base", outputPath := "new/../in", targets := [] }
    let d : Disk := ⟨[(["in"], .file (.text "a: b")), (["base"], .file (.text "c: d"))], []⟩
    let after := ((transformFiles s).run d).1
    (∃ output text, (transform s "a: b" "c: d").value = .ok output ∧ output.toText = .ok text ∧
        after.read ⟨"new/../in"⟩ = .ok text) ∧
      after.fileOf? ⟨"new/../in"⟩ = some ["in"] ∧ d.find? ["new"] = none ∧
      after.OnWay ⟨"new/../in"⟩ ["new"] := by
  intro s d after
  have outcome := transform_files_all_or_nothing s d
  have succeeds : ((transformFiles s).run d).2.value.isOk = true := by decide +kernel
  obtain ⟨output, ran⟩ := exists_of_is_ok succeeds
  obtain ⟨spec, template, text, readSpec, readTemplate, transformed, written, saved⟩ :=
    outcome.saved output ran
  have first : d.read ⟨s.inputPath⟩ = .ok "a: b" := ok_of_to_option (by decide +kernel)
  have second : d.read ⟨s.templatePath⟩ = .ok "c: d" := ok_of_to_option (by decide +kernel)
  rw [first, Except.ok.injEq] at readSpec
  rw [second, Except.ok.injEq] at readTemplate
  rw [← readSpec, ← readTemplate] at transformed
  have made : after.find? ["new"] = some .directory := by decide +kernel
  obtain ⟨absent, onWay⟩ := saved.made ["new"] made (by decide)
  exact ⟨⟨output, text, transformed, written, saved.read⟩, by decide +kernel, absent, onWay⟩

end Job

end MessageSchema
