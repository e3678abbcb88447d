import MessageSchema.Proofs.RenamedDocuments

/-!
Renaming twice. One rename after the other is a single rename by all rules as long as the second
leaves alone what the first has made. Keys that meet are merged between the two, which does no harm
because a name that has met another is final. Documents are well-keyed here, as all are that are
read.
-/

namespace MessageSchema.Rename

set_option autoImplicit false

open Yaml

namespace Rules

theorem compose_of_targets {lead : String} {first second : List String}
    (ident : ∀ c ∈ lead.toList, Text.isIdentChar c = true)
    (settled : ∀ target ∈ first, target ≠ "" → lead ++ target ∉ second) :
    Compose (ofTargets lead first) (ofTargets lead second) (ofTargets lead (first ++ second)) := by
  have given : ∀ targets name new, (ofTargets lead targets).replacement? name = some new →
      (name ∈ targets ∧ name ≠ "") ∧ lead ++ name = new := by
    intro targets name new renamed
    rw [replacement_of_targets] at renamed
    split at renamed
    · next listed => exact ⟨listed, Option.some.inj renamed⟩
    · contradiction
  constructor
  · intro name
    simp only [replacement_of_targets, List.mem_append]
    by_cases filled : name = ""
    · simp [filled]
    · by_cases listed : name ∈ first
      · simp [filled, listed]
      · simp [filled, listed]
  · intro name new renamed
    obtain ⟨⟨listed, filled⟩, rfl⟩ := given first name new renamed
    have absent := settled name listed filled
    rw [replacement_of_targets, if_neg]
    exact fun found => absent found.1
  · intro name other new renamed renamed'
    obtain ⟨_, rfl⟩ := given first name new renamed
    obtain ⟨_, same⟩ := given second other _ renamed'
    exact ((String.append_right_inj lead).1 same).symm
  · exact slash_not_mem_of_replacement first ident

/-- Nothing but a new name of the first rules itself is that name after the second. -/
theorem Compose.same_key_iff {first second both : Rules} (compose : Compose first second both)
    {old new : String} (renamed : first.replacement? old = some new) (key : Value) :
    (Value.string new).same (second.key (first.key key)) =
      (Value.string new).same (first.key key) := by
  have settled : ∀ name given, first.replacement? name = some given →
      second.key (.string given) = .string given := fun name given replaced =>
    key_of_kept (compose.settled name given replaced)
  rw [Bool.eq_iff_iff, Value.string_same, Value.string_same]
  cases spelled : key.spelling?.bind first.replacement? with
  | some given =>
      obtain ⟨name, named, replaced⟩ := Option.bind_eq_some_iff.1 spelled
      rw [key_of_spelling named replaced, settled name given replaced]
  | none =>
      rw [key_of_kept spelled]
      constructor
      · intro met
        cases again : key.spelling?.bind second.replacement? with
        | none => rwa [key_of_kept again] at met
        | some given =>
            obtain ⟨name, named, replaced⟩ := Option.bind_eq_some_iff.1 again
            rw [key_of_spelling named replaced, Value.string.injEq] at met
            have same := compose.apart old name new renamed (met ▸ replaced)
            rw [named, Option.bind_some, ← same, renamed] at spelled
            contradiction
      · intro met
        rw [← met, settled old new renamed]

/-- Merging the keys that meet under the first rules, before the second are applied, makes no
difference. -/
theorem Compose.definitions {first second both : Rules} (compose : Compose first second both)
    {entries : Mapping} (wellKeyed : (Value.mapping entries).WellKeyed) :
    second.definitions (first.definitions entries) = both.definitions entries := by
  have keyed : ∀ entry ∈ entries, entry.1.WellKeyed := fun entry member =>
    ((Value.well_keyed_entries_iff entries).1 wellKeyed.2 entry member).1
  have image : ∀ entry ∈ Mapping.mapKeys first.key entries, (second.key entry.1).WellKeyed := by
    intro entry member
    obtain ⟨source, sourceMember, rfl⟩ := List.mem_map.1 member
    exact well_keyed_key second (well_keyed_key first (keyed source sourceMember))
  -- Keys that differed and meet now do so in a new name, and new names are settled.
  have settled : (Mapping.mapKeys first.key entries).Pairwise fun a b => a.1.same b.1 = true →
      ∀ entry ∈ Mapping.mapKeys first.key entries,
        a.1.same entry.1 = (second.key a.1).same (second.key entry.1) := by
    refine List.pairwise_map.2 (wellKeyed.1.imp ?_)
    intro a b different met entry member
    obtain ⟨source, _, rfl⟩ := List.mem_map.1 member
    obtain ⟨old, new, renamed, given⟩ : ∃ old new, first.replacement? old = some new ∧
        first.key a.1 = .string new := by
      rcases first.key_cases a.1 with keptA | renamedA
      · rcases first.key_cases b.1 with keptB | ⟨old, new, renamed, given⟩
        · simp [keptA, keptB, different] at met
        · exact ⟨old, new, renamed, Value.same_string.1 (given ▸ met)⟩
      · exact renamedA
    have kept : second.key (.string new) = .string new :=
      key_of_kept (compose.settled old new renamed)
    simp only [given, kept]
    exact (compose.same_key_iff renamed source.1).symm
  have twice : Mapping.mapKeys second.key (Mapping.mapKeys first.key entries) =
      Mapping.mapKeys both.key entries := by
    simp only [Mapping.mapKeys, List.map_map]
    apply List.map_congr_left
    intro entry _
    simp only [Function.comp, compose.key]
  calc
    second.definitions (first.definitions entries) =
        Mapping.insertAll [] (Mapping.mapKeys second.key
          (Mapping.ofEntries (Mapping.mapKeys first.key entries))) := rfl
    _ = Mapping.insertAll [] (Mapping.mapKeys second.key (Mapping.mapKeys first.key entries)) :=
      Mapping.insert_all_map_keys_of_entries second.key (fun _ member => by simp at member) image
        settled
    _ = both.definitions entries := by
      rw [twice]
      rfl

theorem Compose.rename_keys {first second both : Rules} (compose : Compose first second both)
    {root : Value} (wellKeyed : root.WellKeyed) :
    second.renameKeys (first.renameKeys root) = both.renameKeys root := by
  have sections : second.renameSections ∘ first.renameSections =
      onSections (second.definitions ∘ first.definitions) := by
    funext components
    exact on_sections_on_sections first.definitions second.definitions components
  rw [Rules.renameKeys, Rules.renameKeys, Rules.renameKeys, on_components_on_components, sections]
  apply on_components_congr wellKeyed
  intro s
  exact compose.definitions (well_keyed_definitions_of wellKeyed s)

/-! A change of definitions that commutes with a change of references does so in the whole document:
none of the keys on the way to a definition introduces a reference. -/

section

variable {change : Mapping → Mapping} {renamed : String → String}
  (commute : ∀ entries, change (mapReferencesEntries renamed entries) =
    mapReferencesEntries renamed (change entries))

include commute in
theorem on_definitions_map_references (value : Value) :
    onDefinitions change (mapReferences renamed value) =
      mapReferences renamed (onDefinitions change value) := by
  cases value with
  | mapping entries => exact congrArg Value.mapping (commute entries)
  | _ => rfl

include commute in
theorem under_tags_map_references : (value : Value) →
    (mapReferences renamed value).underTags (onDefinitions change) =
      mapReferences renamed (value.underTags (onDefinitions change))
  | .tagged tag value => by
      simp only [mapReferences, Value.underTags, under_tags_map_references value]
  | .null => rfl
  | .bool _ => rfl
  | .number _ => rfl
  | .string _ => rfl
  | .sequence _ => rfl
  | .mapping entries => congrArg Value.mapping (commute entries)

theorem adjust_map_references_entries {name : String} (plain : name ≠ referenceKey)
    {update : Value → Value}
    (follows : ∀ value, update (mapReferences renamed value) = mapReferences renamed (update value))
    (entries : Mapping) :
    Mapping.adjust (mapReferencesEntries renamed entries) name update =
      mapReferencesEntries renamed (entries.adjust name update) := by
  simp only [map_references_entries_eq_map, Mapping.adjust, List.map_map]
  apply List.map_congr_left
  intro entry _
  simp only [Function.comp]
  cases hit : entry.1.isString name with
  | true =>
      have other : isReferenceKey entry.1 = false := by
        rw [Value.is_string_iff.1 hit, is_reference_key_string]
        simpa using plain
      simp [map_under_of_other other, follows]
  | false => simp

include commute in
theorem on_sections_map_references_entries (components : Mapping) :
    onSections change (mapReferencesEntries renamed components) =
      mapReferencesEntries renamed (onSections change components) := by
  have follows := on_definitions_map_references commute
  unfold onSections
  rw [adjust_map_references_entries (by decide) follows,
    adjust_map_references_entries (by decide) follows]

include commute in
theorem on_components_map_references (root : Value) :
    onComponents change (mapReferences renamed root) =
      mapReferences renamed (onComponents change root) := by
  apply under_tags_map_references
  intro entries
  exact adjust_map_references_entries (by decide) (under_tags_map_references commute) entries

end

theorem definitions_map_references_entries {rules : Rules}
    (plain : ∀ key, isReferenceKey (rules.key key) = isReferenceKey key)
    (change : String → String) (entries : Mapping) :
    rules.definitions (mapReferencesEntries change entries) =
      mapReferencesEntries change (rules.definitions entries) := by
  have keys : rules.renamedEntries (mapReferencesEntries change entries) =
      mapReferencesEntries change (rules.renamedEntries entries) :=
    (map_references_entries_map_keys change rules.key entries plain).symm
  rw [definitions, definitions, keys, map_references_entries_of_entries]

theorem rename_keys_map_references {rules : Rules}
    (plain : ∀ key, isReferenceKey (rules.key key) = isReferenceKey key)
    (change : String → String) (root : Value) :
    rules.renameKeys (mapReferences change root) =
      mapReferences change (rules.renameKeys root) := by
  apply on_components_map_references
  intro components
  have definitions := definitions_map_references_entries plain change
  exact on_sections_map_references_entries definitions components

theorem spelling_of_is_reference_key {key : Value} {name : String}
    (spelled : key.spelling? = some name) (introduces : isReferenceKey key = true) :
    name = referenceKey := by
  cases key with
  | string text =>
      have same : text = name := by simpa [Value.spelling?] using spelled
      rw [is_reference_key_string, same] at introduces
      exact beq_iff_eq.1 introduces
  | number n => simp [isReferenceKey, Value.text?, Value.untag] at introduces
  | bool b => simp [isReferenceKey, Value.text?, Value.untag] at introduces
  | _ => simp [Value.spelling?] at spelled

theorem append_ne_reference_key {lead name : String}
    (ident : ∀ c ∈ lead.toList, Text.isIdentChar c = true) (other : name ≠ referenceKey) :
    lead ++ name ≠ referenceKey := by
  intro same
  have lists : lead.toList ++ name.toList = '$' :: ['r', 'e', 'f'] := by
    rw [← String.toList_append, same]
    rfl
  cases front : lead.toList with
  | nil =>
      rw [String.toList_eq_nil_iff.1 front, String.empty_append] at same
      exact other same
  | cons first rest =>
      rw [front, List.cons_append, List.cons.injEq] at lists
      have allowed := ident first (by simp [front])
      rw [lists.1] at allowed
      contradiction

/-- Renaming neither makes a key that introduces references nor takes one away. -/
theorem is_reference_key_key {lead : String} {targets : List String}
    (ident : ∀ c ∈ lead.toList, Text.isIdentChar c = true) (plain : referenceKey ∉ targets)
    (key : Value) : isReferenceKey ((ofTargets lead targets).key key) = isReferenceKey key := by
  cases given : key.spelling?.bind (ofTargets lead targets).replacement? with
  | none => rw [key_of_kept given]
  | some new =>
      obtain ⟨name, spelled, renamed⟩ := Option.bind_eq_some_iff.1 given
      rw [key_of_spelling spelled renamed]
      rw [replacement_of_targets] at renamed
      split at renamed
      · next listed =>
          have other : name ≠ referenceKey := fun same => plain (same ▸ listed.1)
          have old : isReferenceKey key = false := by
            rw [← Bool.not_eq_true]
            intro introduces
            exact other (spelling_of_is_reference_key spelled introduces)
          rw [old, ← Option.some.inj renamed, is_reference_key_string, beq_eq_false_iff_ne]
          exact append_ne_reference_key ident other
      · contradiction

/-- Two renames in turn are the one they compose to. -/
theorem Compose.tree {first second both : Rules} (compose : Compose first second both)
    (plain : ∀ key, isReferenceKey (second.key key) = isReferenceKey key) {root : Value}
    (wellKeyed : root.WellKeyed) : second.tree (first.tree root) = both.tree root := by
  have references : second.reference ∘ first.reference = both.reference := by
    funext reference
    rw [Function.comp, compose.reference]
  rw [tree_eq second (well_keyed_tree first wellKeyed), tree_eq first wellKeyed,
    rename_keys_map_references plain, map_references_comp, references, compose.rename_keys wellKeyed,
    tree_eq both wellKeyed]

theorem tree_append {lead : String} {first second : List String}
    (ident : ∀ c ∈ lead.toList, Text.isIdentChar c = true) (plain : referenceKey ∉ second)
    (settled : ∀ target ∈ first, target ≠ "" → lead ++ target ∉ second) {root : Value}
    (wellKeyed : root.WellKeyed) :
    (ofTargets lead second).tree ((ofTargets lead first).tree root) =
      (ofTargets lead (first ++ second)).tree root :=
  (compose_of_targets ident settled).tree (is_reference_key_key ident plain) wellKeyed

theorem tree_congr {rules others : Rules} (agree : rules.replacement? = others.replacement?)
    (empty : rules.isEmpty = others.isEmpty) (root : Value) :
    rules.tree root = others.tree root := by
  have keys : rules.key = others.key := by
    funext key
    simp only [Rules.key, agree]
  have references : rules.reference = others.reference := by
    funext reference
    simp only [Rules.reference, agree]
  have definitions : rules.definitions = others.definitions := by
    funext entries
    simp only [Rules.definitions, renamedEntries, keys]
  simp only [tree, empty, references, Rules.renameKeys, rename_sections_eq, definitions]

theorem tree_of_targets_congr (lead : String) {targets others : List String}
    (same : ∀ target, target ∈ targets ↔ target ∈ others) (root : Value) :
    (ofTargets lead targets).tree root = (ofTargets lead others).tree root := by
  apply tree_congr
  · funext name
    simp only [replacement_of_targets, same]
  · rw [Bool.eq_iff_iff, is_empty_of_targets, is_empty_of_targets]
    simp only [same]

/-- The document whose only definition is a schema of this name. -/
def singleSchema (name : String) : Value :=
  .mapping [(.string "components", .mapping [(.string "schemas", .mapping [
    (.string name, .null)])])]

theorem well_keyed_single_schema (name : String) : (singleSchema name).WellKeyed := by
  simp [singleSchema, Value.WellKeyed, Value.WellKeyedEntries]

theorem map_references_single_schema (change : String → String) (name : String) :
    mapReferences change (singleSchema name) = singleSchema name := by
  simp [singleSchema, mapReferences, map_references_entries_eq_map, mapUnder]

theorem rename_keys_single_schema (rules : Rules) (name : String) :
    rules.renameKeys (singleSchema name) = singleSchema (rules.rename name) := by
  have definitions : rules.definitions [(.string name, .null)] =
      [(.string (rules.rename name), .null)] := by
    rw [← key_string]
    rfl
  rw [Rules.renameKeys, rename_sections_eq]
  simp [singleSchema, onComponents, Value.underTags, onDefinitions, Mapping.adjust,
    Value.isString, on_sections_eq_map, definitions]

theorem tree_single_schema (rules : Rules) (name : String) :
    rules.tree (singleSchema name) = singleSchema (rules.rename name) := by
  rw [tree_eq rules (well_keyed_single_schema name), rename_keys_single_schema,
    map_references_single_schema]

theorem single_schema_injective : Function.Injective singleSchema := by
  intro a b same
  simpa [singleSchema] using same

theorem tree_tree_iff {lead : String} {targets : List String} (filled : lead ≠ "")
    (ident : ∀ c ∈ lead.toList, Text.isIdentChar c = true) (plain : referenceKey ∉ targets) :
    (∀ root : Value, root.WellKeyed →
        (ofTargets lead targets).tree ((ofTargets lead targets).tree root) =
          (ofTargets lead targets).tree root) ↔
      ∀ target ∈ targets, target ≠ "" → lead ++ target ∉ targets := by
  constructor
  · intro again target listed named found
    have stable := again (singleSchema target) (well_keyed_single_schema target)
    have step : ∀ name ∈ targets, name ≠ "" →
        (ofTargets lead targets).rename name = lead ++ name := by
      intro name member given
      rw [rename, replacement_of_targets, if_pos ⟨member, given⟩, Option.getD_some]
    have longer : lead ++ target ≠ "" := by
      intro empty
      exact filled (String.append_eq_empty_iff.1 empty).1
    simp only [tree_single_schema, step target listed named, step _ found longer] at stable
    have same : target = lead ++ target :=
      ((String.append_right_inj lead).1 (single_schema_injective stable)).symm
    have sizes := congrArg String.length same
    rw [String.length_append] at sizes
    have none : lead.length = 0 := by omega
    exact filled (String.length_eq_zero_iff.1 none)
  · intro settled root wellKeyed
    rw [tree_append ident plain settled wellKeyed]
    apply tree_of_targets_congr
    simp

end Rules

/-- Renames with one lead compose unless the second takes up a name that the first has made, they
depend on the set of their targets, and a rename can be repeated exactly when no new name is itself
a target. The empty target is none. -/
theorem renames_compose (lead : String) (filled : lead ≠ "")
    (ident : ∀ c ∈ lead.toList, Text.isIdentChar c = true) :
    (∀ first second : List String, referenceKey ∉ second →
      (∀ target ∈ first, target ≠ "" → lead ++ target ∉ second) →
      ∀ root : Value, root.WellKeyed →
        (Rules.ofTargets lead second).tree ((Rules.ofTargets lead first).tree root) =
          (Rules.ofTargets lead (first ++ second)).tree root) ∧
    (∀ targets others : List String, (∀ target, target ∈ targets ↔ target ∈ others) →
      ∀ root : Value,
        (Rules.ofTargets lead targets).tree root = (Rules.ofTargets lead others).tree root) ∧
    ∀ targets : List String, referenceKey ∉ targets →
      ((∀ root : Value, root.WellKeyed →
          (Rules.ofTargets lead targets).tree ((Rules.ofTargets lead targets).tree root) =
            (Rules.ofTargets lead targets).tree root) ↔
        ∀ target ∈ targets, target ≠ "" → lead ++ target ∉ targets) := by
  refine ⟨?_, ?_, ?_⟩
  · intro first second plain settled root wellKeyed
    exact Rules.tree_append ident plain settled wellKeyed
  · intro targets others same root
    exact Rules.tree_of_targets_congr lead same root
  · intro targets plain
    exact Rules.tree_tree_iff filled ident plain

/-- Two renames that compose, and a target made by another with which one cannot be repeated. -/
theorem renames_compose_chained :
    let root : Value := .mapping [(.string "components", .mapping [(.string "schemas", .mapping [
      (.string "A", .mapping [(.string "$ref", .string "#/components/schemas/B")]),
      (.string "B", .null)])])]
    (Rules.ofTargets "Realtime" ["B"]).tree ((Rules.ofTargets "Realtime" ["A"]).tree root) =
        (Rules.ofTargets "Realtime" ["A", "B"]).tree root ∧
      ¬∀ root : Value, root.WellKeyed →
        (Rules.ofTargets "Realtime" ["A", "RealtimeA"]).tree
            ((Rules.ofTargets "Realtime" ["A", "RealtimeA"]).tree root) =
          (Rules.ofTargets "Realtime" ["A", "RealtimeA"]).tree root := by
  intro root
  have word : "Realtime".toList.all Text.isIdentChar = true := by decide +kernel
  have wellKeyed : root.WellKeyed := by
    simp [root, Value.WellKeyed, Value.WellKeyedEntries, Value.same]
  obtain ⟨compose, _, repeatable⟩ :=
    renames_compose "Realtime" (by decide) (List.all_eq_true.1 word)
  constructor
  · exact compose ["A"] ["B"] (by decide) (by decide) root wellKeyed
  · intro again
    have unmade := (repeatable ["A", "RealtimeA"] (by decide)).1 again
    exact unmade "A" (by decide) (by decide) (by decide)

end MessageSchema.Rename
