import MessageSchema.Proofs.OutputSchemas

/-!
How a run ends and what it warns of. The end is decided by what the two texts are read as; the
warnings are those of the irregularities that are there, in the order in which the stages meet them.
-/

namespace MessageSchema

set_option autoImplicit false

open Yaml Rename

/-- Something is there, and it is neither null nor an untagged mapping. -/
def isIrregular : Option Value → Bool
  | none => false
  | some .null => false
  | some (.mapping _) => false
  | some _ => true

namespace Spec

end Spec

theorem warnings_of_stages (stages : List Catalog) : (Catalog.ofStages stages).warnings = [] := by
  have each : ∀ catalog : Catalog, (stages.foldlM Catalog.stage catalog).warnings = [] := by
    induction stages with
    | nil => exact fun _ => rfl
    | cons first rest ih =>
        intro catalog
        rw [List.foldlM_cons, Noted.warnings_bind, ih]
        rfl
  exact each []

theorem warnings_build_catalog (s : Settings) (spec : Spec) :
    (buildCatalog s spec).warnings =
      spec.sectionWarnings .messages ++ Classification.unmatched s.publish spec.messageNames ++
        payloadWarnings spec.messages ++ spec.sectionWarnings .schemas := by
  simp only [buildCatalog, Noted.warnings_bind, Noted.warnings_pure, warnings_of_stages,
    List.append_nil, List.append_assoc]
  rfl

/-- A run on two texts that are read ends as the assembling of its catalog does. -/
theorem transform_of_read {s : Settings} {spec template : String} {parsed : Spec} {base : Value}
    (readSpec : Spec.ofText (s.prepare spec).value = .ok parsed)
    (readTemplate : readValue .template template = .ok base) :
    (transform s spec template).value =
      ((buildCatalog s (s.renameSpec parsed).value).value.2.assemble base).map fun document =>
        ⟨document, .ofNames s.publish (s.renameSpec parsed).value.messageNames,
          (s.prepare spec).warnings ++ ((s.renameSpec parsed).warnings ++
            (buildCatalog s (s.renameSpec parsed).value).warnings)⟩ := by
  have built : (process s parsed).value = (buildCatalog s (s.renameSpec parsed).value).value := rfl
  simp only [transform, readSpec, readTemplate, Noted.andThen, built]
  cases (buildCatalog s (s.renameSpec parsed).value).value.2.assemble base <;> rfl

theorem read_value_of_of_text {text : String} {value : Value} (source : Source)
    (read : Value.ofText? text = some value) : readValue source text = .ok value := by
  simp only [readValue, read]

theorem spec_text_of_of_text {text : String} {root : Value} (read : Value.ofText? text = some root) :
    Spec.ofText text = .ok ⟨root⟩ := (Spec.of_text_eq_ok_iff text ⟨root⟩).2 read

theorem Catalog.assemble_of_irregular (catalog : Catalog) {base : Value}
    (irregular : isIrregular (some base) = true) :
    catalog.assemble base = .error (.templateRoot base.kind) := by
  cases base <;> first | rfl | contradiction

namespace Settings

end Settings

namespace Rename.Rules

end Rename.Rules

end MessageSchema
