import MessageSchema.Proofs.AgreeingCommands
import MessageSchema.Proofs.JsonTexts

/-!
What the command that classifies prints when it is asked for JSON. No warning, colour or heading gets
in between: the answer is the classification as one JSON object, which is read back from it. Only the
line by which every command tells that it says more comes before it, so that what is printed is JSON
just when that has not been asked for.
-/

namespace MessageSchema.Command

set_option autoImplicit false

open Files

theorem transform_spec_eq_ok {s : Settings} {d : Disk} {output : Output}
    (told : ((transformSpec s).run d).2 = .ok output) :
    ∃ spec, d.read ⟨s.inputPath⟩ = .ok spec ∧
      (transform s spec "\x7b\x7d").value = .ok output := by
  simp only [transformSpec, Plan.run] at told
  cases readable : d.read ⟨s.inputPath⟩ with
  | error fault =>
      rw [readable] at told
      cases told
  | ok spec =>
      simp only [readable] at told
      cases success : (transform s spec "\x7b\x7d").value with
      | error failure =>
          simp only [success] at told
          cases told
      | ok found =>
          simp only [success] at told
          cases told
          exact ⟨spec, rfl, success⟩

variable (colored : Bool)

/-- A command that classifies and succeeds has transformed a description that it could read. -/
theorem classify_succeeded {verbose : Bool} {values : Values} {d : Disk}
    (succeeded : ((runVerb colored .classify verbose values).run d).2.code = 0) :
    ∃ s spec output, (resolve values).run d = (d, .ok s) ∧ d.read ⟨s.inputPath⟩ = .ok spec ∧
      (transform s spec "\x7b\x7d").value = .ok output ∧
      ((runVerb colored .classify verbose values).run d).2 =
        .success (verboseLine colored verbose ++
          if values.has .json then Json.classification output.classification ++ "\n"
          else classificationText colored output) := by
  cases resolved : ((resolve values).run d).2 with
  | error trouble =>
      rw [run_run_verb_unresolved colored _ _ _ d resolved] at succeeded
      cases succeeded
  | ok s =>
      rw [run_run_verb, resolved] at succeeded ⊢
      simp only [carryOut, run_classify_command] at succeeded ⊢
      cases told : ((transformSpec s).run d).2 with
      | error trouble =>
          simp only [told] at succeeded
          cases succeeded
      | ok output =>
          obtain ⟨spec, readable, success⟩ := transform_spec_eq_ok told
          exact ⟨s, spec, output, Prod.ext ((reads_resolve values).run d) resolved, readable, success,
            rfl⟩

/-- What is printed behind the line that comes first in a talkative run is no JSON. -/
theorem read_verbose_line (rest : String) :
    Json.read? (verboseLine colored true ++ rest).toList = none := by
  have first : ∃ c more, (verboseLine colored true).toList = c :: more ∧
      Json.isBlank c = false ∧ Json.mark? c = none ∧ c ≠ '"' := by
    cases colored with
    | true => exact ⟨'\x1b', _, rfl, by decide, by decide, by decide⟩
    | false => exact ⟨'→', _, rfl, by decide, by decide, by decide⟩
  obtain ⟨c, more, parts, visible, unmarked, unquoted⟩ := first
  rw [String.toList_append, parts, List.cons_append]
  exact Json.read_of_stray visible unmarked unquoted _

theorem classification_verbose_line (rest : String) :
    Json.classification? (verboseLine colored true ++ rest) = none := by
  rw [Json.classification?, read_verbose_line]
  rfl

/-- The answer in JSON. Whatever the description and the other options, and with colours or without,
a run that succeeds prints the classification in the layout of an object, and a line break; the
answer reads back as that classification. It is all that is printed just when the run has not been
asked to say more, and otherwise what is printed cannot be read. -/
theorem json_answer (d : Disk) (arguments : List String) (verbose : Bool) (values : Values)
    (asked : request? arguments false = some (.run .classify verbose values))
    (json : values.has .json = true) (succeeded : ((run colored arguments).run d).2.code = 0) :
    ∃ s spec output, (resolve values).run d = (d, .ok s) ∧ d.read ⟨s.inputPath⟩ = .ok spec ∧
      (transform s spec "\x7b\x7d").value = .ok output ∧
      let told := ((run colored arguments).run d).2
      let answer := Json.classification output.classification ++ "\n"
      answer.toList = Json.pretty 0 (Json.ofClassification output.classification) ++ ['\n'] ∧
        Json.classification? answer = some output.classification ∧
        told.stdout = verboseLine colored verbose ++ answer ∧
        (told.stdout = answer ↔ verbose = false) ∧
        Json.classification? told.stdout =
          if verbose then none else some output.classification := by
  rw [run_of_request colored asked] at succeeded ⊢
  obtain ⟨s, spec, output, resolved, readable, success, report⟩ := classify_succeeded colored succeeded
  refine ⟨s, spec, output, resolved, readable, success, ?_⟩
  intro told answer
  have printed : told.stdout = verboseLine colored verbose ++ answer := by
    simp only [told, answer, report, json, if_true, Report.success]
  have back : Json.classification? answer = some output.classification :=
    Json.classification_classification output.classification
  refine ⟨?_, back, printed, ?_, ?_⟩
  · rw [String.toList_append, Json.to_list_classification]
    rfl
  · rw [printed]
    cases verbose with
    | false => simp [verboseLine]
    | true =>
        constructor
        · intro same
          have lost := classification_verbose_line colored answer
          rw [same, back] at lost
          cases lost
        · intro silent
          cases silent
  · rw [printed]
    cases verbose with
    | false => simpa [verboseLine] using back
    | true => exact classification_verbose_line colored answer

/-- A name that has to be escaped, a message without a payload, and colours. -/
theorem json_answer_escaped :
    let d : Disk := ⟨[(["s"], .file (.text
      "components:\n messages:\n  \"a\\\"\\n\": 1\n  B: 2\n"))], []⟩
    let printed := "\x7b\n  \"publish\": [\n    \"B\"\n  ],\n" ++
      "  \"subscribe\": [\n    \"a\\\"\\n\"\n  ]\n\x7d\n"
    ((run true ["classify", "-is", "--json", "-pB", "--rename=X"]).run d).2 = .success printed ∧
      Json.classification? printed = some ⟨["B"], ["a\"\n"]⟩ := by
  intro d printed
  have asked : request? ["classify", "-is", "--json", "-pB", "--rename=X"] false =
      some (.run .classify false
        [(.input, ["s"]), (.json, []), (.publish, ["B"]), (.rename, ["X"])]) := by decide +kernel
  have report : ((run true ["classify", "-is", "--json", "-pB", "--rename=X"]).run d).2 =
      .success printed := by decide +kernel
  have sides : printed = Json.classification ⟨["B"], ["a\"\n"]⟩ ++ "\n" := by decide +kernel
  have succeeded :
      ((run true ["classify", "-is", "--json", "-pB", "--rename=X"]).run d).2.code = 0 := by
    rw [report]
    rfl
  rcases json_answer true d _ false _ asked (by decide) succeeded with
    ⟨s, spec, output, -, -, -, -, -, -, -, back⟩
  rw [report, Report.success, if_neg (by decide)] at back
  -- What is printed reads back as the sides of the run, and these are known.
  have same : output.classification = ⟨["B"], ["a\"\n"]⟩ := by
    rw [sides, Json.classification_classification] at back
    exact (Option.some.inj back).symm
  rw [same] at back
  exact ⟨report, back⟩

/-- A run that has been asked to say more prints a line that is no part of the JSON. -/
theorem json_answer_announced :
    let d : Disk := ⟨[(["s"], .file (.text "components:\n messages:\n  A: 1\n"))], []⟩
    let arguments := ["classify", "--json", "--verbose", "--input", "s", "--rename", "X"]
    request? arguments false = some (.run .classify true
        [(.json, []), (.verbose, []), (.input, ["s"]), (.rename, ["X"])]) ∧
      ((run false arguments).run d).2.code = 0 ∧
      ((run false arguments).run d).2.stdout = "→ Verbose mode enabled\n" ++
        (Json.classification ⟨[], ["A"]⟩ ++ "\n") ∧
      ∀ c : Classification,
        ((run false arguments).run d).2.stdout ≠ Json.classification c ++ "\n" := by
  intro d arguments
  have printed : ((run false arguments).run d).2.stdout = verboseLine false true ++
      (Json.classification ⟨[], ["A"]⟩ ++ "\n") := by decide +kernel
  refine ⟨by decide +kernel, by decide +kernel, printed, ?_⟩
  intro c same
  have lost := classification_verbose_line false (Json.classification ⟨[], ["A"]⟩ ++ "\n")
  rw [← printed, same, Json.classification_classification] at lost
  cases lost

end MessageSchema.Command
