import MessageSchema.Proofs.RenameRules

/-!
The names that keys and references bear, without regard to how they are taken apart. A reference
bears a name when it is the bare name, or when the name follows a path into a section; a name with a
slash is never borne by one. The rules change a key or reference exactly when it bears the name of a
target.
-/

namespace MessageSchema.Rename

set_option autoImplicit false

open Yaml

/-- Whether a reference names the definition of this name. -/
def Names (reference name : String) : Prop :=
  '/' ∉ name.toList ∧
    (reference = name ∨ ∃ base, ∃ path ∈ definitionPaths, reference = base ++ path ++ "/" ++ name)

/-- What a reference becomes when some names get a lead. -/
inductive ReferenceBecomes (lead : String) (targets : List String) : String → String → Prop
  | bare {target : String} (listed : target ∈ targets) (filled : target ≠ "")
      (clean : '/' ∉ target.toList) : ReferenceBecomes lead targets target (lead ++ target)
  | path {target path : String} (listed : target ∈ targets) (filled : target ≠ "")
      (clean : '/' ∉ target.toList) (base : String) (leads : path ∈ definitionPaths) :
      ReferenceBecomes lead targets (base ++ path ++ "/" ++ target)
        (base ++ path ++ "/" ++ (lead ++ target))
  | kept {reference : String} (other : ∀ target ∈ targets, target ≠ "" → ¬Names reference target) :
      ReferenceBecomes lead targets reference reference

/-- What the key of a definition becomes. -/
inductive KeyBecomes (lead : String) (targets : List String) : Value → Value → Prop
  | renamed {key : Value} {target : String} (spelled : key.spelling? = some target)
      (listed : target ∈ targets) (filled : target ≠ "") :
      KeyBecomes lead targets key (.string (lead ++ target))
  | kept {key : Value} (other : ∀ target ∈ targets, target ≠ "" → key.spelling? ≠ some target) :
      KeyBecomes lead targets key key

theorem split_last_bare {name : String} (clean : '/' ∉ name.toList) :
    splitLast name.toList = ([], name.toList) :=
  split_last_of_append clean (Or.inl rfl)

theorem split_last_path {name : String} (clean : '/' ∉ name.toList) (front : String) :
    splitLast (front ++ "/" ++ name).toList = ((front ++ "/").toList, name.toList) := by
  rw [String.toList_append]
  refine split_last_of_append clean (Or.inr ?_)
  rw [String.toList_append]
  exact List.getLast?_concat

theorem leads_to_definition_path (base : String) {path : String} (leads : path ∈ definitionPaths) :
    leadsToDefinition (base ++ path ++ "/").toList = true := by
  rw [leadsToDefinition, Bool.or_eq_true]
  refine Or.inr (List.any_eq_true.2 ⟨path, leads, List.isSuffixOf_iff_suffix.2 ⟨base.toList, ?_⟩⟩)
  simp [String.toList_append]

theorem definition_eq_some_iff (reference name : String) :
    definition? reference = some name ↔ Names reference name := by
  constructor
  · intro named
    refine ⟨slash_not_mem_of_definition named, ?_⟩
    have whole := split_last_append reference.toList
    simp only [definition?] at named
    split at named
    · next leads =>
        obtain rfl := Option.some.inj named
        have parts : reference = String.ofList (splitLast reference.toList).1 ++
            String.ofList (splitLast reference.toList).2 := by
          rw [← String.ofList_append, whole, String.ofList_toList]
        rcases Bool.or_eq_true_iff.1 leads with blank | inside
        · rw [List.isEmpty_iff] at blank
          left
          rw [blank] at parts
          simpa using parts
        · obtain ⟨path, leads, ends⟩ := List.any_eq_true.1 inside
          obtain ⟨base, front⟩ := List.isSuffixOf_iff_suffix.1 ends
          right
          refine ⟨String.ofList base, path, leads, parts.trans ?_⟩
          congr 1
          rw [← front, String.ofList_append, String.ofList_append, String.ofList_toList,
            String.append_assoc]
    · contradiction
  · rintro ⟨clean, rfl | ⟨base, path, leads, rfl⟩⟩
    · simp only [definition?, split_last_bare clean]
      simp [leadsToDefinition]
    · simp only [definition?, split_last_path clean, leads_to_definition_path base leads]
      simp

instance (reference name : String) : Decidable (Names reference name) :=
  decidable_of_iff _ (definition_eq_some_iff reference name)

theorem with_definition_bare {name : String} (clean : '/' ∉ name.toList) (new : String) :
    withDefinition name new = new := by
  rw [withDefinition, split_last_bare clean, List.nil_append, String.ofList_toList]

theorem with_definition_path {name : String} (clean : '/' ∉ name.toList) (front new : String) :
    withDefinition (front ++ "/" ++ name) new = front ++ "/" ++ new := by
  rw [withDefinition, split_last_path clean, ← String.toList_append, String.ofList_toList]

namespace Rules

variable {lead : String} {targets : List String}

theorem replacement_of_listed {name : String} (listed : name ∈ targets) (filled : name ≠ "") :
    (ofTargets lead targets).replacement? name = some (lead ++ name) := by
  rw [replacement_of_targets, if_pos ⟨listed, filled⟩]

theorem bind_replacement_eq_none_iff (name : Option String) :
    name.bind (ofTargets lead targets).replacement? = none ↔
      ∀ target ∈ targets, target ≠ "" → name ≠ some target := by
  cases name with
  | none => simp
  | some name =>
      rw [Option.bind_some, replacement_of_targets]
      constructor
      · rintro kept target listed filled named
        rw [Option.some.inj named, if_pos ⟨listed, filled⟩] at kept
        contradiction
      · exact fun other => if_neg fun ⟨listed, filled⟩ => other name listed filled rfl

theorem reference_becomes_iff (old new : String) :
    ReferenceBecomes lead targets old new ↔ new = (ofTargets lead targets).reference old := by
  have kept_iff := @bind_replacement_eq_none_iff lead targets (definition? old)
  simp only [ne_eq, definition_eq_some_iff] at kept_iff
  constructor
  · rintro (⟨listed, filled, clean⟩ | ⟨listed, filled, clean, base, leads⟩ | other)
    · have named := (definition_eq_some_iff _ _).2 ⟨clean, Or.inl rfl⟩
      rw [reference_of_definition named (replacement_of_listed listed filled),
        with_definition_bare clean]
    · have named := (definition_eq_some_iff _ _).2 ⟨clean, Or.inr ⟨base, _, leads, rfl⟩⟩
      rw [reference_of_definition named (replacement_of_listed listed filled),
        with_definition_path clean]
    · exact (reference_of_kept (kept_iff.2 other)).symm
  · rintro rfl
    by_cases other : ∀ target ∈ targets, target ≠ "" → ¬Names old target
    · rw [reference_of_kept (kept_iff.2 other)]
      exact .kept other
    · simp only [not_forall, not_not] at other
      obtain ⟨target, listed, filled, names⟩ := other
      rw [reference_of_definition ((definition_eq_some_iff _ _).2 names)
        (replacement_of_listed listed filled)]
      obtain ⟨clean, rfl | ⟨base, path, leads, rfl⟩⟩ := names
      · rw [with_definition_bare clean]
        exact .bare listed filled clean
      · rw [with_definition_path clean]
        exact .path listed filled clean base leads

theorem key_becomes_iff (old new : Value) :
    KeyBecomes lead targets old new ↔ new = (ofTargets lead targets).key old := by
  have kept_iff := @bind_replacement_eq_none_iff lead targets old.spelling?
  constructor
  · rintro (⟨spelled, listed, filled⟩ | other)
    · exact (key_of_spelling spelled (replacement_of_listed listed filled)).symm
    · exact (key_of_kept (kept_iff.2 other)).symm
  · rintro rfl
    by_cases other : ∀ target ∈ targets, target ≠ "" → old.spelling? ≠ some target
    · rw [key_of_kept (kept_iff.2 other)]
      exact .kept other
    · simp only [not_forall, not_not] at other
      obtain ⟨target, listed, filled, spelled⟩ := other
      rw [key_of_spelling spelled (replacement_of_listed listed filled)]
      exact .renamed spelled listed filled

end Rules

end MessageSchema.Rename
