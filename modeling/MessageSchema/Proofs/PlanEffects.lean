import MessageSchema.Command.Run
import MessageSchema.Proofs.SavedFiles

/-!
What plans can do to the files. Some only read. The others write one file, and what follows is
decided by then: either it is written and the plan has succeeded, or nothing has been. This is said of
the plan and not of a disk, so it also holds where the system refuses what the disk would allow.
-/

namespace MessageSchema

set_option autoImplicit false

open Files

namespace Files.Plan

variable {α β : Type}

/-- Plans that do nothing but read. -/
inductive Reads : Plan α → Prop where
  | done (result : α) : Reads (.done result)
  | read (path : String) (next : Except Fault String → Plan α) (each : ∀ answer, Reads (next answer)) :
      Reads (.read path next)

theorem Reads.run {plan : Plan α} (reads : plan.Reads) (d : Disk) : (plan.run d).1 = d := by
  induction reads with
  | done result => rfl
  | read path next each ih => exact ih (d.read ⟨path⟩)

theorem Reads.bind {plan : Plan α} {next : α → Plan β} (reads : plan.Reads)
    (each : ∀ result, (next result).Reads) : (plan >>= next).Reads := by
  induction reads with
  | done result => exact each result
  | read path more each' ih => exact .read path _ ih

/-- A way that a plan can go where the system may refuse any operation. Directories that have been
made by then stay. -/
inductive MayRun : Plan α → Disk → Disk → α → Prop where
  | done (result : α) (d : Disk) : MayRun (.done result) d d result
  | read {path : String} {next : Except Fault String → Plan α} {d after : Disk} {result : α}
      (rest : MayRun (next (d.read ⟨path⟩)) d after result) : MayRun (.read path next) d after result
  | unread {path : String} {next : Except Fault String → Plan α} {d after : Disk} {result : α}
      (reason : String) (code : Nat)
      (rest : MayRun (next (.error (.refused reason code))) d after result) :
      MayRun (.read path next) d after result
  | made {path : Path} {next : Option Fault → Plan α} {d after : Disk} {result : α}
      (rest : MayRun (next (d.ensureDirectories path).2) (d.ensureDirectories path).1 after result) :
      MayRun (.makeDirectories path next) d after result
  | unmade {path : Path} {next : Option Fault → Plan α} {d made after : Disk} {result : α}
      (grows : ∀ whole, path.Leads whole → Disk.Grows whole d made) (reason : String) (code : Nat)
      (rest : MayRun (next (some (.refused reason code))) made after result) :
      MayRun (.makeDirectories path next) d after result
  | written {path text : String} {next : Option Fault → Plan α} {d changed after : Disk} {result : α}
      (written : d.write ⟨path⟩ text = .ok changed) (rest : MayRun (next none) changed after result) :
      MayRun (.write path text next) d after result
  | unwritten {path text : String} {next : Option Fault → Plan α} {d after : Disk} {result : α}
      (fault : Fault) (rest : MayRun (next (some fault)) d after result) :
      MayRun (.write path text next) d after result

/-- What a plan does on the disk alone is one way that it can go. -/
theorem may_run_run (plan : Plan α) (d : Disk) : plan.MayRun d (plan.run d).1 (plan.run d).2 := by
  induction plan generalizing d with
  | done result => exact .done result d
  | read path next ih => exact .read (ih _ d)
  | makeDirectories path next ih => exact .made (ih _ _)
  | write path text next ih =>
      rw [run]
      split
      · next written => exact .written written (ih _ _)
      · next fault failed => exact .unwritten fault (ih _ d)

/-- A plan that makes directories only where they lead somewhere, and has not failed once it has
written. -/
inductive WritesLast (fails : α → Prop) : Plan α → Prop where
  | done (result : α) : WritesLast fails (.done result)
  | read (path : String) (next : Except Fault String → Plan α)
      (each : ∀ answer, WritesLast fails (next answer)) : WritesLast fails (.read path next)
  | makeDirectories {path whole : Path} (leads : path.Leads whole) (next : Option Fault → Plan α)
      (each : ∀ fault, WritesLast fails (next fault)) : WritesLast fails (.makeDirectories path next)
  | write (path text : String) {next : Option Fault → Plan α} {result : α}
      (last : next none = .done result) (succeeded : ¬fails result)
      (each : ∀ fault, WritesLast fails (next (some fault))) :
      WritesLast fails (.write path text next)

section

variable {fails : α → Prop} {plan : Plan α}

/-- A plan that writes last and fails has changed no file. -/
theorem WritesLast.same_files (careful : WritesLast fails plan) {d after : Disk} {result : α}
    (ran : plan.MayRun d after result) (failed : fails result) : d.SameFiles after := by
  induction careful generalizing d with
  | done result =>
      cases ran
      exact Disk.SameFiles.refl _
  | read path next each ih =>
      cases ran with
      | read rest => exact ih _ rest
      | unread reason code rest => exact ih _ rest
  | @makeDirectories path whole leads next each ih =>
      have grown : ∀ made, Disk.Grows whole d made → made.SameFiles after → d.SameFiles after := by
        intro made grows same place content
        exact (same place content).trans (grows.find_file place content)
      cases ran with
      | made rest => exact grown _ (Disk.grows_ensure_directories leads) (ih _ rest)
      | unmade grows reason code rest => exact grown _ (grows whole leads) (ih _ rest)
  | write path text last succeeded each ih =>
      cases ran with
      | written written rest =>
          rw [last] at rest
          cases rest
          exact absurd failed succeeded
      | unwritten fault rest => exact ih fault rest

theorem Reads.writes_last (reads : plan.Reads) : plan.WritesLast fails := by
  induction reads with
  | done result => exact .done result
  | read path next each ih => exact .read path next ih

theorem WritesLast.bind {stops : β → Prop} {next : α → Plan β} (careful : WritesLast fails plan)
    (each : ∀ result, WritesLast stops (next result))
    (ends : ∀ result, ¬fails result → ∃ final, next result = .done final ∧ ¬stops final) :
    WritesLast stops (plan >>= next) := by
  induction careful with
  | done result => exact each result
  | read path more each ih => exact .read path _ ih
  | makeDirectories leads more each ih => exact .makeDirectories leads _ ih
  | write path text last succeeded each' ih =>
      rcases ends _ succeeded with ⟨final, same, succeeded⟩
      apply WritesLast.write path text _ succeeded ih
      show Plan.bind _ next = _
      rw [last]
      exact same

theorem Reads.bind_writes_last {stops : β → Prop} {next : α → Plan β} (reads : plan.Reads)
    (each : ∀ result, WritesLast stops (next result)) : WritesLast stops (plan >>= next) := by
  have never : plan.WritesLast fun _ => True := reads.writes_last
  apply never.bind each
  intro result untrue
  exact absurd trivial untrue

theorem writes_last_save (path text : String) {next : Option Fault → Option Fault → Plan α}
    {result : α} (last : next none none = .done result) (succeeded : ¬fails result)
    (each : ∀ first second, WritesLast fails (next first second)) :
    WritesLast fails (save path text next) := by
  have finish : WritesLast fails (write path text (next none)) :=
    .write path text last succeeded fun fault => each none (some fault)
  unfold save
  cases parent : Path.parent? ⟨path⟩ with
  | none => exact finish
  | some front =>
      apply WritesLast.makeDirectories (Path.leads_of_parent parent).1
      intro fault
      cases fault with
      | none => exact finish
      | some fault => exact each (some fault) none

end

end Files.Plan

namespace Job

def Failed {α : Type} (ran : Noted (Except Failure α)) : Prop := ran.value.isOk = false

theorem reads_load_settings (path : String) : (loadSettings path).Reads := by
  apply Plan.Reads.read
  intro answer
  cases answer with
  | error fault => exact .done _
  | ok text =>
      dsimp only
      cases Settings.ofText text <;> exact .done _

theorem writes_last_transform_files (s : Settings) : (transformFiles s).WritesLast Failed := by
  apply Plan.WritesLast.read
  intro spec
  cases spec with
  | error fault => exact .done _
  | ok spec =>
      apply Plan.WritesLast.read
      intro template
      cases template with
      | error fault => exact .done _
      | ok template =>
          dsimp only
          cases (transform s spec template).value with
          | error failure => exact .done _
          | ok output =>
              dsimp only
              cases output.toText with
              | error failure => exact .done _
              | ok text =>
                  apply Plan.writes_last_save _ _ rfl
                  · exact Bool.noConfusion
                  · intro first second
                    cases first with
                    | some fault => exact .done _
                    | none => cases second <;> exact .done _

theorem writes_last_write_handlers (o : Handlers.Options) (c : Classification) (path : String) :
    (writeHandlers o c path).WritesLast Failed := by
  unfold writeHandlers
  apply Plan.writes_last_save _ _ rfl
  · exact Bool.noConfusion
  · intro first second
    cases first with
    | some fault => exact .done _
    | none => cases second <;> exact .done _

end Job

namespace Command

def Report.Failed (report : Report) : Prop := report.code ≠ 0

theorem reads_base_settings (values : Values) : (baseSettings values).Reads := by
  unfold baseSettings
  split
  · exact .done _
  · apply (Job.reads_load_settings _).bind
    intro loaded
    cases loaded <;> exact .done _

theorem reads_resolve (values : Values) : (resolve values).Reads := by
  apply (reads_base_settings values).bind
  intro base
  cases base with
  | error trouble => exact .done _
  | ok base =>
      dsimp only
      cases (override values base).validated <;> exact .done _

theorem reads_transform_spec (s : Settings) : (transformSpec s).Reads := by
  apply Plan.Reads.read
  intro answer
  cases answer with
  | error fault => exact .done _
  | ok spec =>
      dsimp only
      cases (transform s spec "\x7b\x7d").value <;> exact .done _

variable (colored : Bool)

theorem writes_last_transform_command (verbose : Bool) (s : Settings) (printed : String) :
    (transformCommand colored verbose s printed).WritesLast Report.Failed := by
  apply (Job.writes_last_transform_files s).bind
  · intro ran
    cases ran.value <;> exact .done _
  · intro ran succeeded
    cases value : ran.value with
    | error failure => exact absurd (congrArg Except.isOk value) succeeded
    | ok output => exact ⟨_, rfl, absurd rfl⟩

theorem reads_classify_command (json : Bool) (s : Settings) (printed : String) :
    (classifyCommand colored json s printed).Reads := by
  apply (reads_transform_spec s).bind
  intro ran
  cases ran <;> exact .done _

theorem writes_last_handlers_command (verbose : Bool) (s : Settings) (path : String)
    (options : Handlers.Options) (printed : String) :
    (handlersCommand colored verbose s path options printed).WritesLast Report.Failed := by
  apply (reads_transform_spec s).bind_writes_last
  intro ran
  cases ran with
  | error trouble => exact .done _
  | ok output =>
      apply (Job.writes_last_write_handlers options output.classification path).bind
      · intro ran
        cases ran.value <;> exact .done _
      · intro ran succeeded
        cases value : ran.value with
        | error failure => exact absurd (congrArg Except.isOk value) succeeded
        | ok _ => exact ⟨_, rfl, absurd rfl⟩

theorem writes_last_run_verb (verb : Verb) (verbose : Bool) (values : Values) :
    (runVerb colored verb verbose values).WritesLast Report.Failed := by
  apply (reads_resolve values).bind_writes_last
  intro resolved
  cases resolved with
  | error trouble => exact .done _
  | ok s =>
      cases verb with
      | transform => exact writes_last_transform_command colored verbose _ _
      | classify => exact (reads_classify_command colored _ s _).writes_last
      | handlers => exact writes_last_handlers_command colored verbose s _ _ _

theorem writes_last_run (arguments : List String) :
    (run colored arguments).WritesLast Report.Failed := by
  unfold run
  split
  · exact .done _
  · exact .done _
  · exact .done _
  · exact writes_last_run_verb colored _ _ _

/-- A command line that fails leaves all files as they were, also where it fails because the system
has refused to open one. -/
theorem same_files_of_refused (arguments : List String) {d after : Disk} {report : Report}
    (ran : (run colored arguments).MayRun d after report) (failed : report.code ≠ 0) :
    d.SameFiles after :=
  (writes_last_run colored arguments).same_files ran failed

end Command

end MessageSchema
