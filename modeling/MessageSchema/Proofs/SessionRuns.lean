import MessageSchema.Proofs.OutputSchemas
import MessageSchema.Proofs.StagedCatalogs
import MessageSchema.Session

/-!
Stages taken one at a time. No step makes a document or a catalog in which two keys are equal, so no
run of steps does, and a step that fails changes nothing. The steps of a transformation, taken in
its order, answer with its document in the end.
-/

namespace MessageSchema

set_option autoImplicit false

open Yaml

/-! ### What the stages make -/

theorem Spec.well_keyed_section {spec : Spec} (wellKeyed : spec.root.WellKeyed) (s : Section) :
    (Value.mapping (spec.entries s)).WellKeyed := by
  rcases spec.entries_cases s with none | ⟨components, outer, inner⟩
  · rw [none]
    exact ⟨List.Pairwise.nil, trivial⟩
  · exact well_keyed_of_find (well_keyed_of_get wellKeyed outer) inner

theorem Spec.well_keyed_schemas {spec : Spec} (wellKeyed : spec.root.WellKeyed) :
    (Value.mapping spec.schemas).WellKeyed := by
  apply Mapping.well_keyed_of_entries
  rw [Value.well_keyed_entries_iff]
  intro entry member
  rcases List.mem_map.1 member with ⟨source, inside, rfl⟩
  have parts := (Value.well_keyed_entries_iff _).1 (spec.well_keyed_section wellKeyed .schemas).2
  exact ⟨well_keyed_respelled (parts source inside).1, (parts source inside).2⟩

theorem well_keyed_payload_schemas {spec : Spec} (wellKeyed : spec.root.WellKeyed) :
    (Value.mapping (payloadSchemas spec.messages)).WellKeyed := by
  apply Mapping.well_keyed_of_entries
  rw [Value.well_keyed_entries_iff]
  intro entry member
  rcases List.mem_map.1 member with ⟨message, listed, rfl⟩
  rcases List.mem_filterMap.1 listed with ⟨source, inside, given⟩
  rcases Option.map_eq_some_iff.1 given with ⟨name, -, rfl⟩
  have parts := (Value.well_keyed_entries_iff _).1 (spec.well_keyed_section wellKeyed .messages).2
  constructor
  · trivial
  · rw [Message.entry, Message.schema]
    cases found : source.2.get? "payload" with
    | none => exact ⟨List.Pairwise.nil, trivial⟩
    | some payload => exact well_keyed_of_get (parts source inside).2 found

theorem Synthetic.well_keyed_schemas (c : Classification) (source : ClientSource) :
    (Value.mapping (schemas c source)).WellKeyed := by
  have strings : ∀ names : List String, Value.WellKeyedItems (names.map .string) := by
    intro names
    rw [Value.well_keyed_items_iff]
    intro item member
    rcases List.mem_map.1 member with ⟨name, -, rfl⟩
    trivial
  have enumerated : ∀ names, (enumeration names).WellKeyed := by
    intro names
    simp [enumeration, Value.WellKeyed, Value.WellKeyedEntries, Value.same, strings]
  have enveloped : envelope.WellKeyed := by
    simp [envelope, Value.WellKeyed, Value.WellKeyedEntries, Value.same]
  refine ⟨distinct_schemas c source, (Value.well_keyed_entries_iff _).2 ?_⟩
  simp [schemas, enumerated, enveloped, Value.WellKeyed]

theorem Catalog.well_keyed_assemble {catalog : Catalog} {template document : Value}
    (wellKeyed : (Value.mapping catalog).WellKeyed) (wellKeyedTemplate : template.WellKeyed)
    (assembled : catalog.assemble template = .ok document) : document.WellKeyed := by
  have components : catalog.components.WellKeyed :=
    ⟨List.pairwise_singleton _ _, ⟨trivial, wellKeyed⟩, trivial⟩
  unfold Catalog.assemble at assembled
  split at assembled
  · cases assembled
    exact Mapping.well_keyed_insert wellKeyedTemplate trivial components
  · cases assembled
    exact ⟨List.pairwise_singleton _ _, ⟨trivial, components⟩, trivial⟩
  · cases assembled

namespace Session

/-! ### One step and a run -/

/-- No two keys are equal in what a session holds. -/
structure WellKeyed (s : Session) : Prop where
  spec : s.spec.root.WellKeyed
  catalog : (Value.mapping s.catalog).WellKeyed
  staged : (Value.mapping s.staged).WellKeyed

/-- No two keys are equal in what is given to a step. -/
def Step.WellKeyed : Step → Prop
  | .load (.ok spec) => spec.root.WellKeyed
  | .setCatalog catalog => (Value.mapping catalog).WellKeyed
  | .assemble template => template.WellKeyed
  | .reload template => template.WellKeyed
  | _ => True

def Answer.WellKeyed : Answer → Prop
  | .value told => told.WellKeyed
  | _ => True

theorem well_keyed_step {s : Session} {step : Step} (wellKeyed : s.WellKeyed)
    (given : step.WellKeyed) :
    (s.step step).value.1.WellKeyed ∧ (s.step step).value.2.WellKeyed := by
  rcases wellKeyed with ⟨spec, catalog, staged⟩
  have unchanged : s.WellKeyed := ⟨spec, catalog, staged⟩
  cases step with
  | setRules rules => exact ⟨⟨spec, catalog, staged⟩, trivial⟩
  | rename =>
      have renamed := Rename.Rules.well_keyed_tree s.rules spec
      exact ⟨⟨renamed, catalog, staged⟩, renamed⟩
  | load loaded =>
      cases loaded with
      | ok other => exact ⟨⟨given, catalog, staged⟩, given⟩
      | error failure => exact ⟨unchanged, trivial⟩
  | messages => exact ⟨unchanged, trivial⟩
  | names => exact ⟨unchanged, trivial⟩
  | classify publish => exact ⟨⟨spec, catalog, staged⟩, trivial⟩
  | extract =>
      have payloads := well_keyed_payload_schemas spec
      exact ⟨⟨spec, payloads, staged⟩, payloads⟩
  | synthetic source =>
      have made := Synthetic.well_keyed_schemas s.classification source
      exact ⟨⟨spec, made, staged⟩, made⟩
  | schemas =>
      have read := Spec.well_keyed_schemas spec
      exact ⟨⟨spec, read, staged⟩, read⟩
  | setCatalog other => exact ⟨⟨spec, given, staged⟩, trivial⟩
  | stage =>
      have merged := Catalog.well_keyed_stage staged catalog
      exact ⟨⟨spec, catalog, merged⟩, merged⟩
  | clear =>
      have empty : (Value.mapping []).WellKeyed := ⟨List.Pairwise.nil, trivial⟩
      exact ⟨⟨spec, catalog, empty⟩, empty⟩
  | assemble template =>
      simp only [Session.step]
      cases assembled : s.staged.assemble template with
      | ok document => exact ⟨unchanged, Catalog.well_keyed_assemble staged given assembled⟩
      | error failure => exact ⟨unchanged, trivial⟩
  | reload template =>
      simp only [Session.step]
      cases assembled : s.staged.assemble template with
      | ok document =>
          have whole := Catalog.well_keyed_assemble staged given assembled
          exact ⟨⟨whole, catalog, staged⟩, whole⟩
      | error failure => exact ⟨unchanged, trivial⟩
  | handlers options => exact ⟨unchanged, trivial⟩

/-- No run of steps answers with a value in which two keys are equal. -/
theorem well_keyed_run {s : Session} {steps : List Step} (wellKeyed : s.WellKeyed)
    (given : ∀ step ∈ steps, step.WellKeyed) : ∀ answer ∈ s.run steps, answer.value.WellKeyed := by
  induction steps generalizing s with
  | nil => exact List.forall_mem_nil _
  | cons step rest ih =>
      rcases List.forall_mem_cons.1 given with ⟨first, others⟩
      have taken := well_keyed_step wellKeyed first
      rw [Session.run]
      exact List.forall_mem_cons.2 ⟨taken.2, ih taken.1 others⟩

theorem step_failed {s : Session} {step : Step} {failure : Failure}
    (failed : (s.step step).value.2 = .failed failure) : (s.step step).value.1 = s := by
  cases step with
  | load loaded =>
      cases loaded with
      | ok spec => cases failed
      | error other => rfl
  | assemble template =>
      simp only [Session.step] at failed ⊢
      cases assembled : s.staged.assemble template with
      | ok document => rfl
      | error other => rfl
  | reload template =>
      simp only [Session.step] at failed ⊢
      cases assembled : s.staged.assemble template with
      | ok document =>
          rw [assembled] at failed
          cases failed
      | error other => rfl
  | _ => cases failed

/-! ### The steps of a transformation -/

/-- The stages of a transformation that renames in the document, on a template. -/
def transformation (s : Settings) (template : Value) : List Step :=
  [.rename, .classify s.publish, .extract, .stage, .synthetic s.clientMessages, .stage, .schemas,
    .stage, .assemble template]

/-- The last answer of the stages is the document of the transformation. -/
theorem run_transformation {s : Settings} {spec template : String} {output : Output}
    (mode : s.mode = .tree) (success : (transform s spec template).value = .ok output) :
    ∃ parsed base, Spec.ofText spec = .ok parsed ∧ readValue .template template = .ok base ∧
      (((Session.mk parsed s.rules .empty [] []).run (transformation s base)).getLast?.map
        (·.value)) = some (.value output.document) := by
  rcases transform_ok success with ⟨parsed, base, read, readBase, assembled, -⟩
  rw [Settings.prepare_of_tree mode] at read
  rw [Settings.rename_spec_of_tree mode] at assembled
  -- What has been staged before the last step is the catalog of the transformation.
  let merged : Session := ⟨⟨s.rules.tree parsed.root⟩, s.rules,
    (classify s.publish (Spec.mk (s.rules.tree parsed.root)).messageNames).value,
    (Spec.mk (s.rules.tree parsed.root)).schemas,
    (buildCatalog s ⟨s.rules.tree parsed.root⟩).value.2⟩
  have last : ((Session.mk parsed s.rules .empty [] []).run
      (transformation s base)).getLast?.map (·.value) =
        some (merged.step (.assemble base)).value.2 := rfl
  refine ⟨parsed, base, read, readBase, last.trans ?_⟩
  simp only [Session.step, merged, assembled]
  rfl

end Session

end MessageSchema
