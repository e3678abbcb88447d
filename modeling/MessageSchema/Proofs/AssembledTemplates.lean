import MessageSchema.Proofs.Outcome

/-!
What assembling does to a template. The components of the template are replaced as a whole in the
place where they stood, or come last if there were none; nothing else is touched. Of a document that
has been assembled the next assembling therefore sees no more than it would have seen in the
template.
-/

namespace MessageSchema

set_option autoImplicit false

open Yaml

/-- A document has the entries of a template and these components. A template that is null has no
entries. The first entry with the key of components is the only one that counts. -/
inductive Carries (components : Value) : Value → Value → Prop
  | null : Carries components .null (.mapping [(.string "components", components)])
  | replaced {before after : Mapping} (old : Value)
      (first : ∀ entry ∈ before, entry.1 ≠ .string "components") :
      Carries components (.mapping (before ++ (.string "components", old) :: after))
        (.mapping (before ++ (.string "components", components) :: after))
  | added {entries : Mapping} (absent : ∀ entry ∈ entries, entry.1 ≠ .string "components") :
      Carries components (.mapping entries)
        (.mapping (entries ++ [(.string "components", components)]))

namespace Yaml.Mapping

/-- A mapping does not have a string key, or it can be taken apart at the first entry with it. -/
theorem split_at_string (entries : Mapping) (name : String) :
    (∀ entry ∈ entries, entry.1 ≠ .string name) ∨
      ∃ before old after, entries = before ++ (.string name, old) :: after ∧
        ∀ entry ∈ before, entry.1 ≠ .string name := by
  induction entries with
  | nil => exact Or.inl (by simp)
  | cons entry rest ih =>
      by_cases here : entry.1 = .string name
      · exact Or.inr ⟨[], entry.2, rest, by rw [← here]; rfl, by simp⟩
      · rcases ih with absent | ⟨before, old, after, split, first⟩
        · exact Or.inl (List.forall_mem_cons.2 ⟨here, absent⟩)
        · exact Or.inr ⟨entry :: before, old, after, by rw [split]; rfl,
            List.forall_mem_cons.2 ⟨here, first⟩⟩

theorem insert_string_at {before : Mapping} {name : String}
    (first : ∀ entry ∈ before, entry.1 ≠ .string name) (old value : Value) (after : Mapping) :
    insert (before ++ (.string name, old) :: after) (.string name) value =
      before ++ (.string name, value) :: after := by
  have unknown : contains before (.string name) = false := by
    rw [contains, List.any_eq_false]
    exact fun entry member equal => first entry member (Value.same_string.1 equal)
  rw [insert_append, unknown, if_neg (by simp), Mapping.insert, if_pos (Value.same_refl _)]

theorem insert_string_of_absent {entries : Mapping} {name : String}
    (absent : ∀ entry ∈ entries, entry.1 ≠ .string name) (value : Value) :
    insert entries (.string name) value = entries ++ [(.string name, value)] :=
  insert_of_absent entries (.string name) value fun entry member => by
    rw [← Bool.not_eq_true, Value.same_string]
    exact absent entry member

end Yaml.Mapping

namespace Catalog

theorem exists_carries (components : Value) {template : Value}
    (regular : isIrregular (some template) = false) :
    ∃ document, Carries components template document := by
  cases template with
  | null => exact ⟨_, .null⟩
  | mapping entries =>
      rcases Mapping.split_at_string entries "components" with
        absent | ⟨before, old, after, rfl, first⟩
      · exact ⟨_, .added absent⟩
      · exact ⟨_, .replaced old first⟩
  | _ => contradiction

theorem assemble_of_carries {catalog : Catalog} {template document : Value}
    (carries : Carries catalog.components template document) :
    catalog.assemble template = .ok document := by
  cases carries with
  | null => rfl
  | replaced old first => rw [assemble, Mapping.insert_string_at first]
  | added absent => rw [assemble, Mapping.insert_string_of_absent absent]

theorem assemble_eq_ok_iff (catalog : Catalog) (template document : Value) :
    catalog.assemble template = .ok document ↔ Carries catalog.components template document := by
  refine ⟨fun assembled => ?_, assemble_of_carries⟩
  have regular : isIrregular (some template) = false := by
    rw [← Bool.not_eq_true]
    intro irregular
    rw [catalog.assemble_of_irregular irregular] at assembled
    contradiction
  obtain ⟨other, carries⟩ := exists_carries catalog.components regular
  have same : other = document :=
    Except.ok.inj ((assemble_of_carries carries).symm.trans assembled)
  exact same ▸ carries

theorem assemble_carried {components template document : Value}
    (carries : Carries components template document) (catalog : Catalog) :
    catalog.assemble document = catalog.assemble template := by
  cases carries with
  | null => rfl
  | replaced old first =>
      rw [assemble_of_carries (.replaced components first),
        assemble_of_carries (.replaced old first)]
  | added absent =>
      rw [assemble_of_carries (.replaced components absent), assemble_of_carries (.added absent)]

/-- A template that is null or a mapping keeps its entries, and its components are the catalog and
nothing else. Assembling another catalog on the document is assembling it on the template. Any other
template is refused. -/
theorem assemble_outcome (catalog : Catalog) (template : Value) :
    (∀ document, catalog.assemble template = .ok document ↔
      Carries (.mapping [(.string "schemas", .mapping catalog)]) template document) ∧
    (isIrregular (some template) = false →
      ∃ document, catalog.assemble template = .ok document ∧
        ∀ other : Catalog, other.assemble document = other.assemble template) ∧
    (isIrregular (some template) = true →
      catalog.assemble template = .error (.templateRoot template.kind) ∧
        (Failure.templateRoot template.kind).kind = .template) := by
  refine ⟨catalog.assemble_eq_ok_iff template, fun regular => ?_, fun irregular => ?_⟩
  · obtain ⟨document, carries⟩ := exists_carries catalog.components regular
    exact ⟨document, assemble_of_carries carries, assemble_carried carries⟩
  · exact ⟨catalog.assemble_of_irregular irregular, rfl⟩

/-- The components stand between a number and a tagged key that only looks like theirs. -/
theorem assemble_outcome_between :
    let before : Mapping := [(.number (.int 1), .null)]
    let after : Mapping := [(.tagged ⟨"t"⟩ (.string "components"), .bool true)]
    let template : Value := .mapping (before ++ (.string "components", .sequence []) :: after)
    let first : Catalog := [(.string "A", .null)]
    let second : Catalog := [(.string "B", .null)]
    let document : Value := .mapping
      (before ++ (.string "components", .mapping [(.string "schemas", .mapping first)]) :: after)
    first.assemble template = .ok document ∧
      second.assemble document = second.assemble template ∧
      first.assemble (.sequence []) = .error (.templateRoot .sequence) := by
  intro before after template first second document
  obtain ⟨carries_iff, absorbed, _⟩ := first.assemble_outcome template
  obtain ⟨_, _, refused⟩ := first.assemble_outcome (.sequence [])
  have other : ∀ entry ∈ before, entry.1 ≠ .string "components" := by simp [before]
  have assembled := (carries_iff document).2 (.replaced (.sequence []) other)
  obtain ⟨found, given, again⟩ := absorbed rfl
  have same : found = document := Except.ok.inj (given.symm.trans assembled)
  exact ⟨assembled, same ▸ again second, (refused rfl).1⟩

end Catalog

end MessageSchema
