import MessageSchema.Proofs.Outcome
import MessageSchema.Proofs.ValueEquality

/-!
What a run tells of a description does not depend on what becomes of it. The classification and the
warnings come from the description and from the settings for renaming and publishing alone; the
template, the paths and the source of the client messages show in the document only.
-/

namespace MessageSchema

set_option autoImplicit false

open Yaml

namespace Settings

/-- Settings that treat a description in the same way. -/
structure Alike (s t : Settings) : Prop where
  publish : t.publish = s.publish
  targets : t.targets = s.targets
  lead : t.lead = s.lead
  mode : t.mode = s.mode

def classified (s : Settings) (parsed : Spec) : Classification :=
  .ofNames s.publish (s.renameSpec parsed).value.messageNames

def warned (s : Settings) (spec : String) (parsed : Spec) : List Warning :=
  (s.prepare spec).warnings ++ ((s.renameSpec parsed).warnings ++
    (buildCatalog s (s.renameSpec parsed).value).warnings)

section

variable {s t : Settings} (alike : s.Alike t)

include alike

theorem Alike.rules : t.rules = s.rules := by
  rw [Settings.rules, Settings.rules, alike.lead, alike.targets]

theorem Alike.prepare (spec : String) : t.prepare spec = s.prepare spec := by
  rw [Settings.prepare, Settings.prepare, alike.mode, alike.rules]

theorem Alike.rename_spec (parsed : Spec) : t.renameSpec parsed = s.renameSpec parsed := by
  rw [Settings.renameSpec, Settings.renameSpec, alike.mode, alike.rules]

theorem Alike.classified (parsed : Spec) : t.classified parsed = s.classified parsed := by
  rw [Settings.classified, Settings.classified, alike.publish, alike.rename_spec]

theorem Alike.warned (spec : String) (parsed : Spec) : t.warned spec parsed = s.warned spec parsed := by
  rw [Settings.warned, Settings.warned, alike.prepare, alike.rename_spec, warnings_build_catalog,
    warnings_build_catalog, alike.publish]

end

end Settings

theorem told_of_transform {s : Settings} {spec template : String} {output : Output}
    (success : (transform s spec template).value = .ok output) :
    ∃ parsed, Spec.ofText (s.prepare spec).value = .ok parsed ∧
      output.classification = s.classified parsed ∧ output.warnings = s.warned spec parsed := by
  rcases transform_ok success with ⟨parsed, base, readSpec, readTemplate, assembled, -⟩
  rw [transform_of_read readSpec readTemplate, assembled] at success
  have same := Except.ok.inj success
  exact ⟨parsed, readSpec, congrArg Output.classification same.symm,
    congrArg Output.warnings same.symm⟩

/-- Whatever the templates, runs on one description tell the same of it. -/
theorem transform_agrees {s t : Settings} (alike : s.Alike t) {spec template template' : String}
    {output output' : Output} (success : (transform s spec template).value = .ok output)
    (success' : (transform t spec template').value = .ok output') :
    output'.classification = output.classification ∧ output'.warnings = output.warnings := by
  rcases told_of_transform success with ⟨parsed, read, classification, warnings⟩
  rcases told_of_transform success' with ⟨parsed', read', classification', warnings'⟩
  rw [alike.prepare, read, Except.ok.injEq] at read'
  rw [classification, classification', warnings, warnings', ← read', alike.classified, alike.warned]
  exact ⟨rfl, rfl⟩

/-- A description that one run can make use of goes with any mapping for a template. -/
theorem transform_on_mapping {s t : Settings} (alike : s.Alike t) {spec template base : String}
    {output : Output} {entries : Mapping} (success : (transform s spec template).value = .ok output)
    (mapping : readValue .template base = .ok (.mapping entries)) :
    ∃ output', (transform t spec base).value = .ok output' := by
  rcases told_of_transform success with ⟨parsed, read, -⟩
  rw [← alike.prepare] at read
  rw [transform_of_read read mapping]
  exact ⟨_, rfl⟩

theorem read_value_braces (source : Source) : readValue source "\x7b\x7d" = .ok (.mapping []) :=
  read_value_of_of_text source (by decide +kernel)

end MessageSchema
