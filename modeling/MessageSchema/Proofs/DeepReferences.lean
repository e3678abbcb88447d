import MessageSchema.Proofs.Places
import MessageSchema.Proofs.RenameComposition

/-!
References into definitions. The steps of a reference are followed from mapping to mapping; the
third of them is the name of a definition, and the rest lead on inside its body. Renaming changes at
most the last step of a reference, so one that goes on inside a definition never follows its new
name.
-/

namespace MessageSchema

set_option autoImplicit false

open Yaml Rename

namespace Yaml

/-- Follows string keys from mapping to mapping, seen through tags. -/
def Value.resolve? : Value → List String → Option Value
  | value, [] => some value
  | value, step :: rest => (value.get? step).bind fun inner => inner.resolve? rest

end Yaml

namespace Rename

def segments (reference : String) : List String :=
  (reference.toList.splitOn '/').map String.ofList

/-- Whether a reference stays in its own document and leads to a value there. -/
def resolves (root : Value) (reference : String) : Bool :=
  match segments reference with
  | [] => false
  | first :: steps => first == "#" && (root.resolve? steps).isSome

theorem resolves_of_segments {reference : String} {steps : List String}
    (spelled : segments reference = "#" :: steps) (root : Value) :
    resolves root reference = (root.resolve? steps).isSome := by
  simp [resolves, spelled]

/-- The definitions of a section under their new names. The keys of a tagged section stay. -/
def Rules.newEntries (rules : Rules) (root : Value) (s : Section) : Mapping :=
  match (root.get? "components").bind (·.get? s.name) with
  | some (.mapping definitions) => rules.renamedEntries definitions
  | some value => value.entries?.getD []
  | none => []

/-! Steps of a changed reference. -/

theorem segments_of_split_last {reference : String} {front step : List Char}
    (split : splitLast reference.toList = (front, step)) :
    ∃ init, segments reference = init ++ [String.ofList step] ∧
      ∀ new : String, '/' ∉ new.toList →
        segments (String.ofList (front ++ new.toList)) = init ++ [new] := by
  have whole := split_last_append reference.toList
  have parts := split_last_spec reference.toList
  rw [split] at whole parts
  rcases parts.2 with empty | slash
  · simp only at empty
    subst empty
    refine ⟨[], ?_, ?_⟩
    · rw [segments, ← whole, List.nil_append, List.splitOn_eq_singleton parts.1]
      rfl
    · intro new clean
      rw [segments, String.toList_ofList, List.nil_append, List.splitOn_eq_singleton clean]
      simp
  · obtain ⟨before, ends⟩ : ∃ before, front = before ++ ['/'] := by
      rw [List.getLast?_eq_some_iff] at slash
      exact slash
    refine ⟨(before.splitOn '/').map String.ofList, ?_, ?_⟩
    · rw [segments, ← whole, ends, List.append_assoc, List.singleton_append,
        List.splitOn_append_cons_self, List.splitOn_eq_singleton parts.1]
      simp
    · intro new clean
      rw [segments, String.toList_ofList, ends, List.append_assoc, List.singleton_append,
        List.splitOn_append_cons_self, List.splitOn_eq_singleton clean]
      simp

/-- Rules change at most the last step of a reference. -/
theorem segments_reference {rules : Rules}
    (cleanRules : ∀ name new, '/' ∉ name.toList → rules.replacement? name = some new →
      '/' ∉ new.toList) (reference : String) :
    ∃ init last new, segments reference = init ++ [last] ∧
      segments (rules.reference reference) = init ++ [new] := by
  have split : splitLast reference.toList =
      ((splitLast reference.toList).1, (splitLast reference.toList).2) := rfl
  obtain ⟨init, old, changed⟩ := segments_of_split_last split
  cases given : (definition? reference).bind rules.replacement? with
  | none =>
      rw [Rules.reference_of_kept given]
      exact ⟨init, _, _, old, old⟩
  | some new =>
      obtain ⟨name, named, renamed⟩ := Option.bind_eq_some_iff.1 given
      have clean := cleanRules name new (slash_not_mem_of_definition named) renamed
      rw [Rules.reference_of_definition named renamed]
      exact ⟨init, _, new, old, changed new clean⟩

theorem segments_reference_of_deep {rules : Rules}
    (cleanRules : ∀ name new, '/' ∉ name.toList → rules.replacement? name = some new →
      '/' ∉ new.toList) {reference : String} {front steps : List String}
    (spelled : segments reference = front ++ steps) (deep : steps ≠ []) :
    ∃ rest, segments (rules.reference reference) = front ++ rest := by
  obtain ⟨init, last, new, before, after⟩ := segments_reference cleanRules reference
  obtain ⟨inner, final, rfl⟩ := (List.eq_nil_or_concat' steps).resolve_left deep
  have same : front ++ inner ++ [final] = init ++ [last] := by
    rw [← before, spelled, List.append_assoc]
  rw [← (List.append_inj' same rfl).1, List.append_assoc] at after
  exact ⟨inner ++ [new], after⟩

/-! What the steps lead to in the renamed document. -/

theorem is_some_resolve_map_under (change : String → String) (key value : Value)
    (steps : List String) :
    ((mapUnder change key value).resolve? steps).isSome = (value.resolve? steps).isSome := by
  induction steps generalizing key value with
  | nil => rfl
  | cons step rest ih =>
      have inside : ((mapReferences change value).resolve? (step :: rest)).isSome =
          (value.resolve? (step :: rest)).isSome := by
        rw [Value.resolve?, Value.resolve?, get_map_references]
        cases value.get? step with
        | none => rfl
        | some inner => exact ih (.string step) inner
      unfold mapUnder
      split
      · rfl
      · exact inside

namespace Rules

theorem section_tree {rules : Rules} {root : Value} (wellKeyed : root.WellKeyed)
    (apart : ∀ s, rules.collisions (definitionsOf root s) = []) (s : Section) :
    ((rules.tree root).get? "components").bind (·.get? s.name) =
      (((root.get? "components").bind (·.get? s.name)).map
        (onDefinitions rules.renamedEntries)).map (mapReferences rules.reference) := by
  have outer : "components" ≠ referenceKey := by decide
  have inner : s.name ≠ referenceKey := by cases s <;> decide
  rw [tree_eq rules wellKeyed, rename_keys_of_collisions wellKeyed apart,
    get_map_references_of_other _ _ outer, get_on_components]
  cases root.get? "components" with
  | none => rfl
  | some components =>
      simp only [Option.map_some, Option.bind_some]
      rw [get_map_references_of_other _ _ inner, Value.get?, entries_under_tags, Value.get?]
      cases components.entries? with
      | none => rfl
      | some entries => simp only [Option.map_some, Option.bind_some, find_on_sections]

theorem distinct_new_entries {rules : Rules} {root : Value} (wellKeyed : root.WellKeyed)
    (apart : ∀ s, rules.collisions (definitionsOf root s) = []) (s : Section) :
    Mapping.Distinct (rules.newEntries root s) := by
  unfold newEntries
  split
  · next definitions found =>
      have there : definitionsOf root s = definitions := by
        obtain ⟨components, outer, inner⟩ := Option.bind_eq_some_iff.1 found
        obtain ⟨entries, seen, hit⟩ := Option.bind_eq_some_iff.1 inner
        simp [definitionsOf, outer, seen, hit]
      rw [← definitions_of_collisions (there ▸ apart s)]
      exact Mapping.distinct_of_entries _
  · next value _ found =>
      obtain ⟨components, outer, inner⟩ := Option.bind_eq_some_iff.1 found
      have inside := well_keyed_of_get (well_keyed_of_get wellKeyed outer) inner
      cases seen : value.entries? with
      | none => exact List.Pairwise.nil
      | some entries => exact (well_keyed_of_entries inside seen).1
  · exact List.Pairwise.nil

theorem resolve_definition (root : Value) (s : Section) (name : String) (steps : List String) :
    root.resolve? ("components" :: s.name :: name :: steps) =
      (((root.get? "components").bind (·.get? s.name)).bind (·.get? name)).bind
        (·.resolve? steps) := by
  simp [Value.resolve?, Option.bind_assoc]

theorem get_eq_find (value : Value) (name : String) :
    value.get? name = Mapping.find? (value.entries?.getD []) name := by
  unfold Value.get?
  cases value.entries? <;> rfl

theorem get_section (rules : Rules) (root : Value) (s : Section) (name : String) :
    (((root.get? "components").bind (·.get? s.name)).map
        (onDefinitions rules.renamedEntries)).bind (·.get? name) =
      (rules.newEntries root s).find? name := by
  unfold newEntries
  cases (root.get? "components").bind (·.get? s.name) with
  | none => rfl
  | some value =>
      cases value with
      | tagged tag value => exact get_eq_find (.tagged tag value) name
      | _ => rfl

/-- After renaming, steps into a definition lead somewhere exactly when some definition has got the
name and its body has the rest of them. -/
theorem resolve_tree_iff {rules : Rules} {root : Value} (wellKeyed : root.WellKeyed)
    (apart : ∀ s, rules.collisions (definitionsOf root s) = []) (s : Section) (name : String)
    (steps : List String) :
    ((rules.tree root).resolve? ("components" :: s.name :: name :: steps)).isSome = true ↔
      ∃ body, (.string name, body) ∈ rules.newEntries root s ∧
        (body.resolve? steps).isSome = true := by
  have named : ∀ section? : Option Value,
      (section?.map (mapReferences rules.reference)).bind (·.get? name) =
        (section?.bind (·.get? name)).map (mapUnder rules.reference (.string name)) := by
    rintro (_ | value)
    · rfl
    · exact get_map_references rules.reference value name
  rw [resolve_definition, section_tree wellKeyed apart, named, get_section]
  have found := Mapping.find_eq_some_iff (distinct_new_entries wellKeyed apart s) name
  cases hit : (rules.newEntries root s).find? name with
  | none =>
      simp only [hit, reduceCtorEq, false_iff] at found
      simp [found]
  | some body =>
      rw [Option.map_some, Option.bind_some, is_some_resolve_map_under]
      constructor
      · intro resolved
        exact ⟨body, (found body).1 hit, resolved⟩
      · rintro ⟨other, member, resolved⟩
        have same := (found other).2 member
        rw [hit, Option.some.injEq] at same
        rwa [same]

theorem mem_new_entries_of_kept {rules : Rules} {root body : Value} {s : Section} {name : String}
    (kept : rules.key (.string name) = .string name)
    (found : ((root.get? "components").bind (·.get? s.name)).bind (·.get? name) = some body) :
    (.string name, body) ∈ rules.newEntries root s := by
  obtain ⟨value, reached, hit⟩ := Option.bind_eq_some_iff.1 found
  obtain ⟨entries, seen, named⟩ := Option.bind_eq_some_iff.1 hit
  obtain ⟨entry, inside, same⟩ := Option.map_eq_some_iff.1 named
  have key := List.find?_some inside
  have whole : entry = (.string name, body) := Prod.ext (Value.is_string_iff.1 key) same
  have member : (.string name, body) ∈ entries := whole ▸ List.mem_of_find?_eq_some inside
  unfold newEntries
  rw [reached]
  cases value with
  | mapping definitions =>
      have given := List.mem_map_of_mem (f := fun entry => (rules.key entry.1, entry.2)) member
      rw [← Option.some.inj seen, kept] at given
      exact given
  | _ => simpa [seen] using member

end Rules

/-- Where a reference stood, the changed reference stands, as no target is the key of references. -/
theorem reference_at_tree {lead : String} {targets : List String} {root : Value}
    (ident : ∀ c ∈ lead.toList, Text.isIdentChar c = true) (plain : referenceKey ∉ targets)
    (wellKeyed : root.WellKeyed)
    (apart : ∀ s, (Rules.ofTargets lead targets).collisions (Rules.definitionsOf root s) = [])
    {place : List Descent} {index : Nat} {reference : String}
    (found : referenceAt? root place index = some reference) :
    referenceAt? ((Rules.ofTargets lead targets).tree root) place index =
      some ((Rules.ofTargets lead targets).reference reference) := by
  obtain ⟨old, new, introduces, alike, standing⟩ := Rules.exists_key_tree wellKeyed apart
    (fun key => .bool (isReferenceKey key))
    (fun key => congrArg Value.bool (Rules.is_reference_key_key ident plain key)) found
  rw [Value.bool.injEq, introduces] at alike
  rw [standing, if_pos alike]

/-- A reference into a definition is changed in its last step at most. After renaming it resolves
exactly when some definition then has the name that the reference still bears, and the rest of the
steps can be followed in its body. -/
theorem deep_reference_iff (lead : String) (targets : List String) (root : Value)
    (ident : ∀ c ∈ lead.toList, Text.isIdentChar c = true) (wellKeyed : root.WellKeyed)
    (apart : ∀ s, (Rules.ofTargets lead targets).collisions (Rules.definitionsOf root s) = [])
    (place : List Descent) (index : Nat) (reference : String) (s : Section) (name : String)
    (steps : List String) (found : referenceAt? root place index = some reference)
    (spelled : segments reference = "#" :: "components" :: s.name :: name :: steps)
    (deep : steps ≠ []) (leads : resolves root reference = true) :
    let rules := Rules.ofTargets lead targets
    (referenceKey ∉ targets →
      referenceAt? (rules.tree root) place index = some (rules.reference reference)) ∧
    (∀ changed, referenceAt? (rules.tree root) place index = some changed →
      changed = rules.reference reference) ∧
    (∃ rest, segments (rules.reference reference) =
        "#" :: "components" :: s.name :: name :: rest ∧
      (resolves (rules.tree root) (rules.reference reference) = true ↔
        ∃ body, (.string name, body) ∈ rules.newEntries root s ∧
          (body.resolve? rest).isSome = true)) ∧
    (name ∉ targets → rules.reference reference = reference →
      resolves (rules.tree root) reference = true) := by
  intro rules
  have iff : ∀ rest, segments (rules.reference reference) =
      "#" :: "components" :: s.name :: name :: rest →
      (resolves (rules.tree root) (rules.reference reference) = true ↔
        ∃ body, (.string name, body) ∈ rules.newEntries root s ∧
          (body.resolve? rest).isSome = true) := by
    intro rest led
    rw [← Rules.resolve_tree_iff wellKeyed apart s name rest, resolves_of_segments led]
  refine ⟨?_, ?_, ?_, ?_⟩
  · intro plain
    exact reference_at_tree ident plain wellKeyed apart found
  · intro changed standing
    obtain ⟨_, new, _, _, same⟩ := Rules.exists_key_tree wellKeyed apart
      (fun _ => .null) (fun _ => rfl) found
    rw [same] at standing
    split at standing
    · exact (Option.some.inj standing).symm
    · contradiction
  · have front : segments reference = ["#", "components", s.name, name] ++ steps := spelled
    obtain ⟨rest, led⟩ := segments_reference_of_deep
      (Rules.slash_not_mem_of_replacement targets ident) front deep
    exact ⟨rest, led, iff rest led⟩
  · intro untargeted unchanged
    have kept : rules.key (.string name) = .string name := by
      apply Rules.key_of_kept
      rw [Value.spelling?, Option.bind_some, Rules.replacement_of_targets, if_neg]
      exact fun listed => untargeted listed.1
    rw [resolves_of_segments spelled, Rules.resolve_definition, Option.isSome_iff_exists] at leads
    obtain ⟨target, reached⟩ := leads
    obtain ⟨body, defined, inside⟩ := Option.bind_eq_some_iff.1 reached
    have led : segments (rules.reference reference) =
        "#" :: "components" :: s.name :: name :: steps := by rw [unchanged, spelled]
    have stays := iff steps led
    rw [unchanged] at stays
    exact stays.2 ⟨body, Rules.mem_new_entries_of_kept kept defined, by rw [inside]; rfl⟩

theorem of_targets_single : Rules.ofTargets "Realtime" ["T"] = [⟨"T", "Realtime"⟩] := by
  have once : ["T"].eraseDups = ["T"] := by decide
  simp [Rules.ofTargets, once]

/-- A property with the name of a target is reached as before. -/
theorem deep_reference_property :
    let root : Value := .mapping [(.string "components", .mapping [(.string "schemas", .mapping [
      (.string "Outer", .mapping [(.string "properties", .mapping [(.string "T", .null)])]),
      (.string "A", .mapping [
        (.string "$ref", .string "#/components/schemas/Outer/properties/T")])])])]
    let rules := Rules.ofTargets "Realtime" ["T"]
    let place := [Descent.entry 0, .entry 0, .entry 1]
    let reference := "#/components/schemas/Outer/properties/T"
    referenceAt? (rules.tree root) place 0 = some reference ∧
      resolves (rules.tree root) reference = true := by
  intro root rules place reference
  have wellKeyed : root.WellKeyed := by
    simp [root, Value.WellKeyed, Value.WellKeyedEntries, Value.same]
  have apart : ∀ s, rules.collisions (Rules.definitionsOf root s) = [] := by
    intro s
    simp only [rules, of_targets_single]
    cases s <;> rfl
  have unchanged : rules.reference reference = reference := by
    simp only [rules, of_targets_single]
    decide +kernel
  have word : "Realtime".toList.all Text.isIdentChar = true := by decide +kernel
  obtain ⟨same, _, _, kept⟩ := deep_reference_iff "Realtime" ["T"] root (List.all_eq_true.1 word)
    wellKeyed apart place 0 reference .schemas "Outer" ["properties", "T"] (by decide +kernel)
    (by decide +kernel) (by decide) (by decide +kernel)
  rw [unchanged] at same
  exact ⟨same (by decide), kept (by decide) unchanged⟩

/-- A definition gets a new name, and a reference to something inside it keeps the old one. -/
theorem deep_reference_dangles :
    let root : Value := .mapping [(.string "components", .mapping [(.string "schemas", .mapping [
      (.string "T", .mapping [(.string "properties", .mapping [(.string "x", .null)])]),
      (.string "A", .mapping [(.string "$ref", .string "#/components/schemas/T/properties/x")])])])]
    let rules := Rules.ofTargets "Realtime" ["T"]
    let place := [Descent.entry 0, .entry 0, .entry 1]
    let reference := "#/components/schemas/T/properties/x"
    root.WellKeyed ∧ (∀ s, rules.collisions (Rules.definitionsOf root s) = []) ∧
      referenceAt? root place 0 = some reference ∧ resolves root reference = true ∧
      referenceAt? (rules.tree root) place 0 = some reference ∧
      resolves (rules.tree root) reference = false := by
  intro root rules place reference
  simp only [rules, of_targets_single]
  refine ⟨?_, ?_, by decide +kernel, by decide +kernel, by decide +kernel, by decide +kernel⟩
  · simp [root, Value.WellKeyed, Value.WellKeyedEntries, Value.same]
  · intro s
    cases s <;> rfl

end Rename

end MessageSchema
