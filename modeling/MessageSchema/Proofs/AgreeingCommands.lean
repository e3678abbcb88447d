import MessageSchema.Proofs.AgreeingOutputs
import MessageSchema.Proofs.GivenOptions
import MessageSchema.Proofs.PlanEffects
import MessageSchema.Proofs.ReportedNames

/-!
The three commands on one description. They resolve the options they share in the same way, and what
they tell of the description is the same, although the transformation has a template and the others
have none. The one that classifies only reads. The others write under one path, and only when there
is nothing left that could fail before.
-/

namespace MessageSchema

set_option autoImplicit false

open Files

namespace Files

/-- No file has changed but the one that a path leads to. -/
def Disk.ChangesOnly (path : Path) (before after : Disk) : Prop :=
  ∀ place content, after.fileOf? path ≠ some place →
    (after.find? place = some (.file content) ↔ before.find? place = some (.file content))

theorem Disk.SameFiles.changes_only {before after : Disk} (same : before.SameFiles after)
    (path : Path) : Disk.ChangesOnly path before after :=
  fun place content _ => same place content

theorem Disk.Saved.changes_only {path : Path} {text : String} {before after : Disk}
    (saved : Disk.Saved path text before after) : Disk.ChangesOnly path before after := by
  rcases saved.file with ⟨file, there, others⟩
  intro place content other
  apply others
  rintro rfl
  exact other there

end Files

namespace Job

/-- How a handler module is saved: it is, or some directories are made and then something fails. -/
theorem run_write_handlers (o : Handlers.Options) (c : Classification) (path : String) (d : Disk) :
    Disk.Saved ⟨path⟩ (Handlers.render o c) d ((writeHandlers o c path).run d).1 ∧
        ((writeHandlers o c path).run d).2.value = .ok () ∨
      Disk.Grows ⟨path⟩ d ((writeHandlers o c path).run d).1 ∧
        ∃ failure, ((writeHandlers o c path).run d).2.value = .error failure := by
  unfold writeHandlers
  rcases Plan.run_save path (Handlers.render o c) _ d with
    ⟨made, grows, ⟨fault, run⟩ | ⟨fault, run⟩ | ⟨written, saved, run⟩⟩
  · rw [run]
    exact Or.inr ⟨grows, _, rfl⟩
  · rw [run]
    exact Or.inr ⟨grows, _, rfl⟩
  · rw [run]
    exact Or.inl ⟨Disk.saved_of_write grows saved, rfl⟩

theorem run_write_handlers_of_write {o : Handlers.Options} {c : Classification} {path : String}
    {d written : Disk} (free : d.write ⟨path⟩ (Handlers.render o c) = .ok written) :
    ((writeHandlers o c path).run d).1 = written ∧
      ((writeHandlers o c path).run d).2.value = .ok () := by
  unfold writeHandlers
  rw [Plan.run_save_of_write _ free]
  exact ⟨rfl, rfl⟩

end Job

namespace Command

/-! ### The options that are shared -/

/-- The options by which every command is told what to read and how. -/
def shared : List Opt := [.config, .input, .publish, .rename, .lead, .renameMode]

def SameSpec (values others : Values) : Prop := ∀ opt ∈ shared, others.get? opt = values.get? opt

instance (values others : Values) : Decidable (SameSpec values others) :=
  inferInstanceAs (Decidable (∀ opt ∈ shared, _))

section

variable {values others : Values} (same : SameSpec values others)

include same

theorem SameSpec.single (opt : Opt) (known : opt ∈ shared) :
    others.single? opt = values.single? opt := by
  rw [Values.single?, Values.single?, same opt known]

theorem SameSpec.override (s : Settings) : override others s = override values s := by
  simp only [Command.override, same.single .input (by decide), same .publish (by decide),
    same .rename (by decide), same.single .lead (by decide), same.single .renameMode (by decide)]

theorem SameSpec.resolve : resolve others = resolve values := by
  simp only [Command.resolve, baseSettings, same.single .config (by decide), same.override]

end

theorem alike_override_output (values : Values) (s : Settings) :
    (overrideOutput values s).Alike s := ⟨rfl, rfl, rfl, rfl⟩

/-! ### The description alone -/

theorem run_transform_spec {s : Settings} {d : Disk} {spec : String} {output : Output}
    (readable : d.read ⟨s.inputPath⟩ = .ok spec)
    (success : (transform s spec "\x7b\x7d").value = .ok output) :
    (transformSpec s).run d = (d, .ok output) := by
  simp only [transformSpec, Plan.run, readable, success]

/-- Of a run nothing is reported but the classification and how many warnings there are. -/
theorem Reports.congr {colored verbose json : Bool} {first second : Output} {stdout : String}
    (classification : second.classification = first.classification)
    (warnings : second.warnings = first.warnings)
    (reports : Reports colored verbose json second stdout) :
    Reports colored verbose json first stdout := by
  rcases reports with ⟨answer, layout, listings⟩
  rw [classification] at answer listings
  rw [classification, warnings] at layout
  exact ⟨answer, layout, listings⟩

/-! ### Running the commands -/

def transformOpening (colored verbose : Bool) (s : Settings) : String :=
  verboseLine colored verbose ++ arrow colored ++ " Transforming spec: " ++ s.inputPath ++ "\n" ++
    (if verbose then settingsLines s else "")

def handlersListing (colored verbose : Bool) (s : Settings) (output : Output) : String :=
  verboseLine colored verbose ++ arrow colored ++ " Generating handlers from: " ++ s.inputPath ++
    "\n" ++ warningLine colored "  " output.warnings.length ++
    (if verbose then handlerNames output.classification else "")

def carryOut (colored : Bool) (verb : Verb) (verbose : Bool) (values : Values) (s : Settings) :
    Plan Report :=
  match verb with
  | .transform =>
      transformCommand colored verbose (overrideOutput values s) (verboseLine colored verbose)
  | .classify => classifyCommand colored (values.has .json) s (verboseLine colored verbose)
  | .handlers =>
      handlersCommand colored verbose s ((values.single? .output).getD "") (handlersOptions values)
        (verboseLine colored verbose)

variable (colored : Bool)

theorem run_run_verb (verb : Verb) (verbose : Bool) (values : Values) (d : Disk) :
    (runVerb colored verb verbose values).run d =
      match ((resolve values).run d).2 with
      | .error trouble => (d, .failure (verboseLine colored verbose) trouble)
      | .ok s => (carryOut colored verb verbose values s).run d := by
  rw [runVerb, Plan.run_bind, (reads_resolve values).run d]
  cases ((resolve values).run d).2 with
  | error trouble => rfl
  | ok s => cases verb <;> rfl

theorem run_of_request {arguments : List String} {verb : Verb} {verbose : Bool} {values : Values}
    (asked : request? arguments false = some (.run verb verbose values)) :
    run colored arguments = runVerb colored verb verbose values := by
  rw [run, asked]

theorem run_transform_command (verbose : Bool) (s : Settings) (d : Disk) :
    (transformCommand colored verbose s (verboseLine colored verbose)).run d =
      (((Job.transformFiles s).run d).1,
        match ((Job.transformFiles s).run d).2.value with
        | .error failure => .failure (transformOpening colored verbose s)
            (.ofFailure "Failed to transform AsyncAPI spec" failure)
        | .ok output => .success (transformOpening colored verbose s ++
            transformSummary colored verbose s.outputPath output)) := by
  rw [transformCommand, Plan.run_bind]
  cases ((Job.transformFiles s).run d).2.value <;> rfl

theorem run_classify_command (json : Bool) (s : Settings) (printed : String) (d : Disk) :
    (classifyCommand colored json s printed).run d =
      (d, match ((transformSpec s).run d).2 with
        | .error trouble => .failure printed trouble
        | .ok output => .success (printed ++
            if json then Json.classification output.classification ++ "\n"
            else classificationText colored output)) := by
  rw [classifyCommand, Plan.run_bind, (reads_transform_spec s).run d]
  cases ((transformSpec s).run d).2 <;> rfl

theorem run_handlers_command (verbose : Bool) (s : Settings) (path : String)
    (options : Handlers.Options) (d : Disk) :
    (handlersCommand colored verbose s path options (verboseLine colored verbose)).run d =
      match ((transformSpec s).run d).2 with
      | .error trouble => (d, .failure (verboseLine colored verbose ++ arrow colored ++
          " Generating handlers from: " ++ s.inputPath ++ "\n") trouble)
      | .ok output =>
          let wrote := (Job.writeHandlers options output.classification path).run d
          (wrote.1,
            match wrote.2.value with
            | .error failure => .failure (handlersListing colored verbose s output)
                (.ofFailure "Failed to generate handlers" failure)
            | .ok () => .success (handlersListing colored verbose s output ++
                handlersSummary colored path (Handlers.handled output.classification).length)) := by
  rw [handlersCommand, Plan.run_bind, (reads_transform_spec s).run d]
  cases ((transformSpec s).run d).2 with
  | error trouble => rfl
  | ok output =>
      simp only
      rw [Plan.run_bind]
      cases ((Job.writeHandlers options output.classification path).run d).2.value <;> rfl

theorem changes_only_handlers_command (verbose : Bool) (s : Settings) (path : String)
    (options : Handlers.Options) (d : Disk) :
    Disk.ChangesOnly ⟨path⟩ d
      ((handlersCommand colored verbose s path options (verboseLine colored verbose)).run d).1 := by
  rw [run_handlers_command]
  cases ((transformSpec s).run d).2 with
  | error trouble => exact (Disk.SameFiles.refl d).changes_only _
  | ok output =>
      rcases Job.run_write_handlers options output.classification path d with
        ⟨saved, wrote⟩ | ⟨grows, failure, failed⟩
      · exact saved.changes_only
      · exact Disk.SameFiles.changes_only grows.find_file _

/-- Settings that do not resolve end a command before it has done anything. -/
theorem run_run_verb_unresolved (verb : Verb) (verbose : Bool) (values : Values) (d : Disk)
    {trouble : Trouble} (stopped : ((resolve values).run d).2 = .error trouble) :
    (runVerb colored verb verbose values).run d =
      (d, .failure (verboseLine colored verbose) trouble) := by
  rw [run_run_verb, stopped]

/-! ### Agreement -/

/-- What classifying and generating handlers make of the description of a transformation, if they are
told to read the same. -/
structure Agrees (d : Disk) (values : Values) (s : Settings) (output : Output) : Prop where
  classify : ∀ colored arguments verbose others,
    request? arguments false = some (.run .classify verbose others) → SameSpec values others →
    let ran := (run colored arguments).run d
    ran.1 = d ∧ ran.2.code = 0 ∧ ran.2.stderr = some "" ∧
      Reports colored verbose (others.has .json) output ran.2.stdout
  /-- The handlers are those of the classification, unless they cannot be saved. -/
  handlers : ∀ colored arguments verbose others,
    request? arguments false = some (.run .handlers verbose others) → SameSpec values others →
    let text := Handlers.render (handlersOptions others) output.classification
    let listing := handlersListing colored verbose s output
    let ran := (run colored arguments).run d
    ∃ path, others.single? .output = some path ∧
      (ran.2 = .success (listing ++ handlersSummary colored path
          (Handlers.handled output.classification).length) ∧ Disk.Saved ⟨path⟩ text d ran.1 ∨
        (∃ failure, ran.2 = .failure listing (.ofFailure "Failed to generate handlers" failure)) ∧
          d.SameFiles ran.1) ∧
      ∀ written, d.write ⟨path⟩ text = .ok written → ran.2.code = 0 ∧ ran.1 = written

theorem agrees_of_transform {d : Disk} {values : Values} {s : Settings} {spec template : String}
    {output : Output} (resolved : ((resolve values).run d).2 = .ok s)
    (readable : d.read ⟨s.inputPath⟩ = .ok spec)
    (success : (transform (overrideOutput values s) spec template).value = .ok output) :
    Agrees d values s output := by
  have alike := alike_override_output values s
  rcases transform_on_mapping alike success (read_value_braces .template) with ⟨alone, success'⟩
  rcases transform_agrees alike success success' with ⟨classification, warnings⟩
  have told := run_transform_spec readable success'
  have carried : ∀ colored verb verbose others, SameSpec values others →
      (runVerb colored verb verbose others).run d =
        (carryOut colored verb verbose others s).run d := by
    intro colored verb verbose others same
    rw [run_run_verb, same.resolve, resolved]
  constructor
  · intro colored arguments verbose others asked same ran
    have run : ran = (d, .success (verboseLine colored verbose ++
        if others.has .json then Json.classification alone.classification ++ "\n"
        else classificationText colored alone)) := by
      simp only [ran, run_of_request colored asked, carried colored _ _ _ same, carryOut,
        run_classify_command, told]
    have reports := reports_classification colored verbose (others.has .json) alone
    rw [run]
    exact ⟨rfl, rfl, rfl, reports.congr classification warnings⟩
  · intro colored arguments verbose others asked same text listing ran
    have listed : handlersListing colored verbose s alone = listing := by
      simp only [handlersListing, classification, warnings, listing]
    rcases output_of_request asked with ⟨path, given⟩
    have run : ran = (((Job.writeHandlers (handlersOptions others) output.classification path).run d).1,
        match ((Job.writeHandlers (handlersOptions others) output.classification path).run d).2.value
          with
        | .error failure => .failure listing (.ofFailure "Failed to generate handlers" failure)
        | .ok () => .success (listing ++ handlersSummary colored path
            (Handlers.handled output.classification).length)) := by
      simp only [ran, run_of_request colored asked, carried colored _ _ _ same, carryOut,
        run_handlers_command, told, listed, classification, given, Option.getD_some]
    refine ⟨path, given, ?_, ?_⟩
    · rcases Job.run_write_handlers (handlersOptions others) output.classification path d with
        ⟨saved, wrote⟩ | ⟨grows, failure, failed⟩
      · rw [run, wrote]
        exact Or.inl ⟨rfl, saved⟩
      · rw [run, failed]
        exact Or.inr ⟨⟨failure, rfl⟩, grows.find_file⟩
    · intro written free
      rcases Job.run_write_handlers_of_write free with ⟨after, wrote⟩
      rw [run, wrote]
      exact ⟨rfl, after⟩

theorem counts_of_summary (verbose : Bool) (opening path : String) (output : Output) :
    ∃ front back, opening ++ transformSummary colored verbose path output =
      front ++ "\n  Messages: " ++
        toString (output.classification.publish.length + output.classification.subscribe.length) ++
        " (" ++ toString output.classification.publish.length ++ " publish, " ++
        toString output.classification.subscribe.length ++ " subscribe)\n" ++ back := by
  have summary : ∃ back, transformSummary colored verbose path output =
      "\n" ++ Paint.boldGreen.apply colored "✓ Transformation complete!" ++ "\n" ++ "\n" ++
        Paint.bold.apply colored "Summary:" ++ "\n" ++
        (classificationCounts output.classification ++ back) := by
    unfold transformSummary
    simp only [String.append_assoc]
    apply Exists.intro
    rfl
  rcases summary with ⟨back, summary⟩
  refine ⟨opening ++ ("\n" ++ Paint.boldGreen.apply colored "✓ Transformation complete!" ++ "\n" ++
    "\n" ++ Paint.bold.apply colored "Summary:"), back, ?_⟩
  have line : "\n  Messages: " = "\n" ++ "  Messages: " := rfl
  rw [summary, line, classificationCounts, Classification.size]
  simp only [String.append_assoc]

theorem transform_succeeded {verbose : Bool} {values : Values} {d : Disk}
    (succeeded : ((runVerb colored .transform verbose values).run d).2.code = 0) :
    ∃ s spec template output, (resolve values).run d = (d, .ok s) ∧
      d.read ⟨s.inputPath⟩ = .ok spec ∧
      (transform (overrideOutput values s) spec template).value = .ok output ∧
      ((runVerb colored .transform verbose values).run d).2 =
        .success (transformOpening colored verbose (overrideOutput values s) ++
          transformSummary colored verbose (overrideOutput values s).outputPath output) := by
  have unchanged := (reads_resolve values).run d
  cases resolved : ((resolve values).run d).2 with
  | error trouble =>
      rw [run_run_verb_unresolved colored _ _ _ d resolved] at succeeded
      cases succeeded
  | ok s =>
      rw [run_run_verb, resolved] at succeeded ⊢
      simp only [carryOut, run_transform_command] at succeeded ⊢
      cases ran : (Job.transformFiles (overrideOutput values s)).run d with
      | mk after result =>
          rw [ran] at succeeded
          rcases Job.run_transform_files ran with
            ⟨failure, -, failed⟩ | ⟨fault, -, failed⟩ | ⟨spec, template, output, text, made, readable,
              -, transformed, -, -, -, made⟩
          · simp only [failed] at succeeded
            cases succeeded
          · simp only [failed] at succeeded
            cases succeeded
          · refine ⟨s, spec, template, output, ?_, readable, transformed, ?_⟩
            · exact Prod.ext unchanged resolved
            · simp only [made]

/-- The three commands on one disk. A transformation that succeeds tells a classification of which
the other commands, told to read the same, report exactly the lists and generate the handlers. It
depends neither on the template nor on where client messages take their names from, and nor does the
number of warnings. Classifying changes nothing, generating handlers changes one file at most, and a
command that fails changes none. -/
theorem commands_agree (colored : Bool) (d : Disk) :
    (∀ arguments verbose values, request? arguments false = some (.run .transform verbose values) →
      ((run colored arguments).run d).2.code = 0 →
      ∃ s spec template output, (resolve values).run d = (d, .ok s) ∧
        d.read ⟨s.inputPath⟩ = .ok spec ∧
        (transform (overrideOutput values s) spec template).value = .ok output ∧
        ((run colored arguments).run d).2 =
          .success (transformOpening colored verbose (overrideOutput values s) ++
            transformSummary colored verbose (overrideOutput values s).outputPath output) ∧
        (∃ front back, ((run colored arguments).run d).2.stdout = front ++ "\n  Messages: " ++
          toString (output.classification.publish.length +
            output.classification.subscribe.length) ++
          " (" ++ toString output.classification.publish.length ++ " publish, " ++
          toString output.classification.subscribe.length ++ " subscribe)\n" ++ back) ∧
        Agrees d values s output) ∧
    (∀ (s t : Settings) (spec template template' : String) (output output' : Output), s.Alike t →
      (transform s spec template).value = .ok output →
      (transform t spec template').value = .ok output' →
      output'.classification = output.classification ∧ output'.warnings = output.warnings) ∧
    (∀ arguments verbose values, request? arguments false = some (.run .classify verbose values) →
      ((run colored arguments).run d).1 = d) ∧
    (∀ arguments verbose values, request? arguments false = some (.run .handlers verbose values) →
      ∃ path, values.single? .output = some path ∧
        Disk.ChangesOnly ⟨path⟩ d ((run colored arguments).run d).1) ∧
    (∀ arguments, ((run colored arguments).run d).2.code ≠ 0 →
      d.SameFiles ((run colored arguments).run d).1) := by
  refine ⟨?_, ?_, ?_, ?_, fun arguments =>
    same_files_of_refused colored arguments (Plan.may_run_run _ d)⟩
  · intro arguments verbose values asked succeeded
    rw [run_of_request colored asked] at succeeded ⊢
    rcases transform_succeeded colored succeeded with
      ⟨s, spec, template, output, resolved, readable, transformed, report⟩
    refine ⟨s, spec, template, output, resolved, readable, transformed, report, ?_, ?_⟩
    · rw [report]
      exact counts_of_summary colored verbose _ _ output
    · exact agrees_of_transform (congrArg Prod.snd resolved) readable transformed
  · intro s t spec template template' output output' alike
    exact transform_agrees alike
  · intro arguments verbose values asked
    rw [run_of_request colored asked, run_run_verb]
    cases ((resolve values).run d).2 with
    | error trouble => rfl
    | ok s =>
        simp only [carryOut, run_classify_command]
  · intro arguments verbose values asked
    rcases output_of_request asked with ⟨path, given⟩
    refine ⟨path, given, ?_⟩
    rw [run_of_request colored asked]
    cases resolved : ((resolve values).run d).2 with
    | error trouble =>
        rw [run_run_verb_unresolved colored _ _ _ d resolved]
        exact (Disk.SameFiles.refl d).changes_only _
    | ok s =>
        rw [run_run_verb, resolved]
        simp only [carryOut, given, Option.getD_some]
        exact changes_only_handlers_command colored verbose s path _ d

/-- A description with an irregular message, and with one that has no identifier for a name. -/
theorem commands_agree_irregular :
    let d : Disk := ⟨[(["s"], .file (.text
      "components:\n messages:\n  A: 1\n  B:\n   payload: x\n  c-d: \x7b\x7d")),
      (["t"], .file (.text "openapi: 3"))], []⟩
    let flags := ["-is", "-pA", "--rename=B", "--prefix", "R"]
    ((run false ("transform" :: flags ++ ["-tt", "-on/o"])).run d).2 = .success
        ("→ Transforming spec: s\n\n✓ Transformation complete!\n\nSummary:\n" ++
          "  Messages: 3 (1 publish, 2 subscribe)\n  Schemas: 7\n  ⚠ 2 warnings (see log)\n" ++
          "  📄 n/o\n") ∧
      (run false ("classify" :: "--json" :: flags)).run d = (d, .success
        ("\x7b\n  \"publish\": [\n    \"A\"\n  ],\n" ++
          "  \"subscribe\": [\n    \"RB\",\n    \"c-d\"\n  ]\n\x7d\n")) ∧
      listedUnder "Publish (client → server):"
        ((run true ("-v" :: "classify" :: flags)).run d).2.stdout = ["A"] ∧
      listedUnder "Subscribe (server → client):"
        ((run true ("-v" :: "classify" :: flags)).run d).2.stdout = ["RB", "c-d"] ∧
      ∃ lines : List String, "    pub handle_rb: Option<RBCallback>," ∈ lines ∧
        Disk.Saved ⟨"h"⟩ (String.join (lines.map (· ++ "\n"))) d
          ((run false ("handlers" :: flags ++ ["-oh"])).run d).1 := by
  intro d flags
  let values : Values := [(.input, ["s"]), (.publish, ["A"]), (.rename, ["B"]), (.lead, ["R"])]
  have asked : request? ("transform" :: flags ++ ["-tt", "-on/o"]) false =
      some (.run .transform false (values ++ [(.template, ["t"]), (.output, ["n/o"])])) := by
    decide +kernel
  have report : ((run false ("transform" :: flags ++ ["-tt", "-on/o"])).run d).2 = .success
      ("→ Transforming spec: s\n\n✓ Transformation complete!\n\nSummary:\n" ++
        "  Messages: 3 (1 publish, 2 subscribe)\n  Schemas: 7\n  ⚠ 2 warnings (see log)\n" ++
        "  📄 n/o\n") := by decide +kernel
  have succeeded : ((run false ("transform" :: flags ++ ["-tt", "-on/o"])).run d).2.code = 0 := by
    rw [report]
    rfl
  rcases (commands_agree false d).1 _ _ _ asked succeeded with
    ⟨s, spec, template, output, -, -, -, -, -, agrees⟩
  have classified : request? ("classify" :: "--json" :: flags) false =
      some (.run .classify false ((.json, []) :: values)) := by decide +kernel
  have listed : request? ("-v" :: "classify" :: flags) false =
      some (.run .classify true values) := by decide +kernel
  have handled : request? ("handlers" :: flags ++ ["-oh"]) false =
      some (.run .handlers false (values ++ [(.output, ["h"])])) := by decide +kernel
  have generated : ((run false ("handlers" :: flags ++ ["-oh"])).run d).2.code = 0 := by
    decide +kernel
  have answered : ((run false ("classify" :: "--json" :: flags)).run d).2 =
      .success (Json.classification ⟨["A"], ["RB", "c-d"]⟩ ++ "\n") := by decide +kernel
  rcases agrees.classify false _ _ _ classified (by decide) with ⟨unchanged, -, -, json⟩
  rcases json.answer (by decide) with ⟨answer, printed, read⟩
  -- The lists of the run are those of the answer, which is all that is printed.
  have sides : output.classification = ⟨["A"], ["RB", "c-d"]⟩ := by
    rw [answered, verboseLine, if_neg (by decide), String.empty_append] at printed
    rw [← printed, Report.success, Json.classification_classification] at read
    exact (Option.some.inj read).symm
  rcases agrees.classify true _ _ _ listed (by decide) with ⟨-, -, -, words⟩
  have listings := words.listings (by decide)
  rw [sides] at listings
  rcases listings (by decide) with ⟨publish, subscribe⟩
  refine ⟨report, Prod.ext unchanged (answered.trans (by decide +kernel)), publish, subscribe,
    (handlersOptions []).lines ⟨["A"], ["RB", "c-d"]⟩, by decide +kernel, ?_⟩
  rcases agrees.handlers false _ _ _ handled (by decide) with
    ⟨path, given, ⟨-, saved⟩ | ⟨⟨failure, failed⟩, -⟩, -⟩
  · cases given
    rw [sides] at saved
    exact saved
  · rw [failed] at generated
    cases generated

end Command

end MessageSchema
