import MessageSchema.Proofs.References
import MessageSchema.Proofs.RenameRules

/-!
A document after renaming, layer by layer: the root and its components are seen through tags, a
section is not. Each layer passes a change on to one place and leaves the rest as it was, so what the
rules do to a section is all that has to be known of it.
-/

namespace MessageSchema.Rename

set_option autoImplicit false

open Yaml

/-- The entries of an untagged mapping, and none of anything else. -/
def plainEntries : Option Value → Mapping
  | some (.mapping entries) => entries
  | _ => []

theorem find_adjust_self (entries : Mapping) (name : String) (change : Value → Value) :
    (entries.adjust name change).find? name = (entries.find? name).map change := by
  induction entries with
  | nil => rfl
  | cons entry rest ih =>
      simp only [Mapping.adjust, Mapping.find?, List.map_cons, List.find?_cons] at ih ⊢
      cases hit : entry.1.isString name with
      | true => simp [hit]
      | false => simpa [hit] using ih

theorem find_adjust_other (entries : Mapping) {name other : String} (change : Value → Value)
    (different : name ≠ other) :
    (entries.adjust name change).find? other = entries.find? other := by
  induction entries with
  | nil => rfl
  | cons entry rest ih =>
      simp only [Mapping.adjust, Mapping.find?, List.map_cons, List.find?_cons] at ih ⊢
      cases hit : entry.1.isString name with
      | true =>
          have miss : entry.1.isString other = false := by
            rw [Value.is_string_iff.1 hit]
            simpa [Value.isString] using different
          simpa [miss] using ih
      | false =>
          cases found : entry.1.isString other with
          | true => simp [found]
          | false => simpa [found] using ih

namespace Rules

theorem entries_under_tags (change : Mapping → Mapping) :
    (value : Value) →
      (value.underTags (onDefinitions change)).entries? = value.entries?.map change
  | .tagged _ value => entries_under_tags change value
  | .null => rfl
  | .bool _ => rfl
  | .number _ => rfl
  | .string _ => rfl
  | .sequence _ => rfl
  | .mapping _ => rfl

theorem plain_entries_on_definitions {change : Mapping → Mapping} (blank : change [] = [])
    (value : Option Value) :
    plainEntries (value.map (onDefinitions change)) = change (plainEntries value) := by
  rcases value with _ | value
  · exact blank.symm
  · cases value with
    | mapping _ => rfl
    | _ => exact blank.symm

theorem plain_entries_under_tags {change : Mapping → Mapping} (blank : change [] = [])
    (value : Option Value) :
    plainEntries (value.map (Value.underTags (onDefinitions change))) =
      change (plainEntries value) := by
  rcases value with _ | value
  · exact blank.symm
  · cases value with
    | mapping _ => rfl
    | _ => exact blank.symm

theorem get_on_components (change : Mapping → Mapping) (root : Value) :
    (onComponents change root).get? "components" =
      (root.get? "components").map (Value.underTags (onDefinitions change)) := by
  unfold Value.get? onComponents
  rw [entries_under_tags]
  cases root.entries? with
  | none => rfl
  | some entries => exact find_adjust_self entries "components" _

/-- Applies a change to the definitions of either section. -/
def onSections (change : Mapping → Mapping) (components : Mapping) : Mapping :=
  (components.adjust "schemas" (onDefinitions change)).adjust "messages" (onDefinitions change)

theorem rename_sections_eq (rules : Rules) :
    rules.renameSections = onSections rules.definitions := rfl

theorem find_on_sections {change : Mapping → Mapping} (components : Mapping) (s : Section) :
    (onSections change components).find? s.name =
      (components.find? s.name).map (onDefinitions change) := by
  unfold onSections
  cases s with
  | schemas =>
      rw [find_adjust_other _ _ (by decide)]
      exact find_adjust_self _ _ _
  | messages =>
      refine (find_adjust_self _ _ _).trans ?_
      rw [find_adjust_other _ _ (by decide)]
      rfl

/-! Two changes in turn are one change by both, at each layer. -/

theorem on_definitions_on_definitions (first second : Mapping → Mapping) (value : Value) :
    onDefinitions second (onDefinitions first value) = onDefinitions (second ∘ first) value := by
  cases value <;> rfl

theorem under_tags_under_tags (first second : Mapping → Mapping) :
    (value : Value) →
      (value.underTags (onDefinitions first)).underTags (onDefinitions second) =
        value.underTags (onDefinitions (second ∘ first))
  | .tagged tag value => by simp only [Value.underTags, under_tags_under_tags first second value]
  | .null => rfl
  | .bool _ => rfl
  | .number _ => rfl
  | .string _ => rfl
  | .sequence _ => rfl
  | .mapping _ => rfl

theorem adjust_adjust (entries : Mapping) (name : String) (first second : Value → Value) :
    (entries.adjust name first).adjust name second = entries.adjust name (second ∘ first) := by
  simp only [Mapping.adjust, List.map_map]
  apply List.map_congr_left
  intro entry _
  cases hit : entry.1.isString name <;> simp [hit]

theorem adjust_comm (entries : Mapping) {name other : String} (first second : Value → Value)
    (different : name ≠ other) :
    (entries.adjust name first).adjust other second =
      (entries.adjust other second).adjust name first := by
  simp only [Mapping.adjust, List.map_map]
  apply List.map_congr_left
  intro entry _
  simp only [Function.comp]
  cases hit : entry.1.isString name with
  | true =>
      have miss : entry.1.isString other = false := by
        rw [Value.is_string_iff.1 hit]
        simpa [Value.isString] using different
      simp [hit, miss]
  | false => cases found : entry.1.isString other <;> simp [hit, found]

theorem on_sections_on_sections (first second : Mapping → Mapping) (components : Mapping) :
    onSections second (onSections first components) = onSections (second ∘ first) components := by
  have inner : onDefinitions second ∘ onDefinitions first = onDefinitions (second ∘ first) :=
    funext (on_definitions_on_definitions first second)
  unfold onSections
  rw [adjust_comm (components.adjust "schemas" (onDefinitions first)) _ _ (by decide),
    adjust_adjust, adjust_adjust, inner]

theorem on_components_on_components (first second : Mapping → Mapping) (root : Value) :
    onComponents second (onComponents first root) = onComponents (second ∘ first) root := by
  unfold onComponents
  rw [under_tags_under_tags]
  congr 2
  funext entries
  simp only [Function.comp, adjust_adjust]
  congr 1
  funext value
  exact under_tags_under_tags first second value

/-! What becomes of a document depends only on what becomes of its definitions. -/

theorem under_tags_congr {first second : Value → Value} :
    (value : Value) → first value.untag = second value.untag →
      value.underTags first = value.underTags second
  | .tagged tag value, agree => by
      simp only [Value.underTags, under_tags_congr value agree]
  | .null, agree => agree
  | .bool _, agree => agree
  | .number _, agree => agree
  | .string _, agree => agree
  | .sequence _, agree => agree
  | .mapping _, agree => agree

theorem on_definitions_congr {first second : Mapping → Mapping} {value : Value}
    (agree : ∀ entries, value = .mapping entries → first entries = second entries) :
    onDefinitions first value = onDefinitions second value := by
  cases value with
  | mapping entries => exact congrArg Value.mapping (agree entries rfl)
  | _ => rfl

theorem adjust_congr {first second : Value → Value} {entries : Mapping}
    (distinct : Mapping.Distinct entries) {name : String}
    (agree : ∀ value, entries.find? name = some value → first value = second value) :
    entries.adjust name first = entries.adjust name second := by
  apply List.map_congr_left
  intro entry member
  cases hit : entry.1.isString name with
  | true =>
      have found := Mapping.value_at_of_mem distinct member
      rw [Value.is_string_iff.1 hit, ← Mapping.find_eq_value_at] at found
      simp only [agree entry.2 found]
  | false => simp

theorem on_sections_eq_map (change : Mapping → Mapping) (components : Mapping) :
    onSections change components = components.map fun entry =>
      if entry.1.isString "schemas" || entry.1.isString "messages" then
        (entry.1, onDefinitions change entry.2)
      else entry := by
  simp only [onSections, Mapping.adjust, List.map_map]
  apply List.map_congr_left
  intro entry _
  simp only [Function.comp]
  cases hit : entry.1.isString "schemas" with
  | true =>
      have miss : entry.1.isString "messages" = false := by
        rw [Value.is_string_iff.1 hit]
        decide
      simp [miss]
  | false => simp

theorem on_sections_congr {first second : Mapping → Mapping} {components : Mapping}
    (distinct : Mapping.Distinct components)
    (agree : ∀ (s : Section) entries, components.find? s.name = some (.mapping entries) →
      first entries = second entries) :
    onSections first components = onSections second components := by
  have inner : ∀ (s : Section) (entry : Value × Value), entry ∈ components →
      entry.1 = .string s.name → onDefinitions first entry.2 = onDefinitions second entry.2 := by
    intro s entry member named
    have found := Mapping.value_at_of_mem distinct member
    rw [named, ← Mapping.find_eq_value_at] at found
    apply on_definitions_congr
    intro entries same
    exact agree s entries (same ▸ found)
  rw [on_sections_eq_map, on_sections_eq_map]
  apply List.map_congr_left
  intro entry member
  cases schemas : entry.1.isString "schemas" with
  | true => simp [inner .schemas entry member (Value.is_string_iff.1 schemas)]
  | false =>
      cases messages : entry.1.isString "messages" with
      | true => simp [inner .messages entry member (Value.is_string_iff.1 messages)]
      | false => simp

theorem on_components_congr {first second : Mapping → Mapping} {root : Value}
    (wellKeyed : root.WellKeyed)
    (agree : ∀ s, first (definitionsOf root s) = second (definitionsOf root s)) :
    onComponents (onSections first) root = onComponents (onSections second) root := by
  apply under_tags_congr
  apply on_definitions_congr
  intro entries outer
  have seen : root.entries? = some entries := by simp [Value.entries?, outer]
  have distinct := (well_keyed_of_entries wellKeyed seen).1
  apply adjust_congr distinct
  intro value found
  have reached : root.get? "components" = some value := by rw [Value.get?, seen]; exact found
  apply under_tags_congr
  apply on_definitions_congr
  intro components inner
  have components? : value.entries? = some components := by simp [Value.entries?, inner]
  apply on_sections_congr (well_keyed_of_entries (well_keyed_of_get wellKeyed reached) components?).1
  intro s definitions named
  have there : definitionsOf root s = definitions := by
    simp [definitionsOf, reached, components?, named]
  exact there ▸ agree s

theorem well_keyed_definitions_of {root : Value} (wellKeyed : root.WellKeyed) (s : Section) :
    (Value.mapping (definitionsOf root s)).WellKeyed := by
  unfold definitionsOf
  split
  · exact ⟨List.Pairwise.nil, trivial⟩
  · next components reached =>
      obtain ⟨value, outer, inner⟩ := Option.bind_eq_some_iff.1 reached
      have inside := well_keyed_of_entries (well_keyed_of_get wellKeyed outer) inner
      split
      · next definitions found => exact well_keyed_of_find inside found
      · exact ⟨List.Pairwise.nil, trivial⟩

theorem on_definitions_id (value : Value) : onDefinitions id value = value := by
  cases value <;> rfl

theorem under_tags_on_definitions_id : (value : Value) → value.underTags (onDefinitions id) = value
  | .tagged tag value => by simp only [Value.underTags, under_tags_on_definitions_id value]
  | .null => rfl
  | .bool _ => rfl
  | .number _ => rfl
  | .string _ => rfl
  | .sequence _ => rfl
  | .mapping _ => rfl

theorem on_sections_id (components : Mapping) : onSections id components = components := by
  rw [on_sections_eq_map]
  simp [on_definitions_id]

theorem on_components_id (root : Value) : onComponents id root = root := by
  have inner : Value.underTags (onDefinitions id) = id := funext under_tags_on_definitions_id
  have outer : (fun entries : Mapping => entries.adjust "components" id) = id := by
    funext entries
    simp [Mapping.adjust]
  unfold onComponents
  rw [inner, outer, under_tags_on_definitions_id]

/-! What is done to a well-keyed document leaves it well-keyed if it repeats no key in a section. -/

theorem well_keyed_under_tags {change : Value → Value}
    (kept : ∀ value, value.WellKeyed → (change value).WellKeyed) :
    (value : Value) → value.WellKeyed → (value.underTags change).WellKeyed
  | .tagged _ value, wellKeyed => well_keyed_under_tags kept value wellKeyed
  | .null, wellKeyed => kept _ wellKeyed
  | .bool _, wellKeyed => kept _ wellKeyed
  | .number _, wellKeyed => kept _ wellKeyed
  | .string _, wellKeyed => kept _ wellKeyed
  | .sequence _, wellKeyed => kept _ wellKeyed
  | .mapping _, wellKeyed => kept _ wellKeyed

theorem well_keyed_on_definitions {change : Mapping → Mapping}
    (kept : ∀ entries, (Value.mapping entries).WellKeyed →
      (Value.mapping (change entries)).WellKeyed)
    (value : Value) (wellKeyed : value.WellKeyed) : (onDefinitions change value).WellKeyed := by
  cases value with
  | mapping entries => exact kept entries wellKeyed
  | _ => exact wellKeyed

theorem well_keyed_adjust {change : Value → Value}
    (kept : ∀ value, value.WellKeyed → (change value).WellKeyed) {entries : Mapping}
    (wellKeyed : (Value.mapping entries).WellKeyed) (name : String) :
    (Value.mapping (entries.adjust name change)).WellKeyed := by
  have inside := (Value.well_keyed_entries_iff entries).1 wellKeyed.2
  constructor
  · apply List.pairwise_map.2 (wellKeyed.1.imp _)
    intro a b different
    split <;> split <;> exact different
  · apply (Value.well_keyed_entries_iff _).2
    intro entry member
    obtain ⟨source, sourceMember, rfl⟩ := List.mem_map.1 member
    have parts := inside source sourceMember
    split
    · exact ⟨parts.1, kept _ parts.2⟩
    · exact parts

theorem well_keyed_definitions (rules : Rules) {entries : Mapping}
    (wellKeyed : (Value.mapping entries).WellKeyed) :
    (Value.mapping (rules.definitions entries)).WellKeyed := by
  have inside := (Value.well_keyed_entries_iff entries).1 wellKeyed.2
  refine Mapping.well_keyed_of_entries ((Value.well_keyed_entries_iff _).2 fun entry member => ?_)
  obtain ⟨origin, originMember, rfl⟩ := List.mem_map.1 member
  exact ⟨well_keyed_key rules (inside origin originMember).1, (inside origin originMember).2⟩

theorem well_keyed_rename_keys (rules : Rules) {root : Value} (wellKeyed : root.WellKeyed) :
    (rules.renameKeys root).WellKeyed := by
  have definitions := well_keyed_on_definitions fun entries => well_keyed_definitions rules
  have sections : ∀ entries, (Value.mapping entries).WellKeyed →
      (Value.mapping (rules.renameSections entries)).WellKeyed := by
    intro entries inside
    exact well_keyed_adjust definitions (well_keyed_adjust definitions inside "schemas") "messages"
  have components := well_keyed_under_tags (well_keyed_on_definitions sections)
  apply well_keyed_under_tags _ root wellKeyed
  apply well_keyed_on_definitions
  intro entries inside
  exact well_keyed_adjust components inside "components"

theorem rename_keys_nil {root : Value} (wellKeyed : root.WellKeyed) :
    Rules.renameKeys [] root = root := by
  have kept : ∀ entries, (Value.mapping entries).WellKeyed →
      Rules.definitions [] entries = id entries := by
    intro entries inside
    have same : Mapping.mapKeys (Rules.key []) entries = entries := by
      have none : Rules.key [] = id := funext fun key => key_of_kept (by
        cases key.spelling? <;> rfl)
      rw [none, Mapping.map_keys_id]
    calc
      Rules.definitions [] entries = Mapping.ofEntries (Mapping.mapKeys (Rules.key []) entries) :=
        rfl
      _ = entries := by rw [same, Mapping.of_entries_of_distinct inside.1]
  calc
    Rules.renameKeys [] root = onComponents (onSections (Rules.definitions [])) root := rfl
    _ = onComponents (onSections id) root :=
      on_components_congr wellKeyed fun s => kept _ (well_keyed_definitions_of wellKeyed s)
    _ = root := by rw [show onSections id = id from funext on_sections_id, on_components_id]

theorem well_keyed_tree (rules : Rules) {root : Value} (wellKeyed : root.WellKeyed) :
    (rules.tree root).WellKeyed := by
  unfold tree
  split
  · exact wellKeyed
  · exact well_keyed_map_references _ _ (well_keyed_rename_keys rules wellKeyed)

theorem definitions_of_collisions {rules : Rules} {entries : Mapping}
    (apart : rules.collisions entries = []) :
    rules.definitions entries = rules.renamedEntries entries :=
  Mapping.insert_all_of_replaced apart

theorem rename_keys_of_collisions {rules : Rules} {root : Value} (wellKeyed : root.WellKeyed)
    (apart : ∀ s, rules.collisions (definitionsOf root s) = []) :
    rules.renameKeys root = onComponents (onSections rules.renamedEntries) root := by
  rw [Rules.renameKeys, rename_sections_eq]
  apply on_components_congr wellKeyed
  intro s
  exact definitions_of_collisions (apart s)

/-- On well-keyed documents renaming is one rule for keys and one for references, also without any
rule. -/
theorem tree_eq (rules : Rules) {root : Value} (wellKeyed : root.WellKeyed) :
    rules.tree root = mapReferences rules.reference (rules.renameKeys root) := by
  unfold Rules.tree
  split
  · next none =>
      have same : Rules.reference [] = id := funext fun reference => reference_of_kept (by
        cases definition? reference <;> rfl)
      rw [List.isEmpty_iff.1 none, rename_keys_nil wellKeyed, same, map_references_id]
  · rfl

end Rules

end MessageSchema.Rename

namespace MessageSchema.Spec

open Yaml Rename

theorem entries_eq (spec : Spec) (s : Section) :
    spec.entries s =
      plainEntries ((plainEntries (spec.root.get? "components")).find? s.name) := by
  unfold Spec.entries Spec.lookup Spec.components
  rcases spec.root.get? "components" with _ | outer
  · rfl
  · cases outer <;> try rfl
    rename_i entries
    simp only [Lookup.ofValue?, plainEntries]
    rcases Mapping.find? entries s.name with _ | inner
    · rfl
    · cases inner <;> rfl

theorem entries_cases (spec : Spec) (s : Section) :
    spec.entries s = [] ∨ ∃ components, spec.root.get? "components" = some (.mapping components) ∧
      Mapping.find? components s.name = some (.mapping (spec.entries s)) := by
  rw [entries_eq]
  cases spec.root.get? "components" with
  | none => exact Or.inl rfl
  | some outer =>
      cases outer with
      | mapping components =>
          cases inner : Mapping.find? components s.name with
          | none => exact Or.inl (by simp [plainEntries, inner])
          | some found =>
              cases found with
              | mapping definitions =>
                  exact Or.inr ⟨components, rfl, by simp [plainEntries, inner]⟩
              | _ => exact Or.inl (by simp [plainEntries, inner])
      | _ => exact Or.inl rfl

theorem entries_map_references (change : String → String) (root : Value) (s : Section) :
    (Spec.mk (mapReferences change root)).entries s =
      mapReferencesEntries change ((Spec.mk root).entries s) := by
  have components : "components" ≠ referenceKey := by decide
  have inner : s.name ≠ referenceKey := by cases s <;> decide
  have plain : ∀ value : Option Value, plainEntries (value.map (mapReferences change)) =
      mapReferencesEntries change (plainEntries value) := by
    rintro (_ | value)
    · rfl
    · cases value <;> rfl
  rw [entries_eq, entries_eq, get_map_references_of_other change root components, plain,
    find_map_references_entries, ← plain]
  congr 2
  funext found
  apply map_under_of_other
  rw [is_reference_key_string]
  simpa using inner

theorem entries_rename_keys (rules : Rules) (root : Value) (s : Section) :
    (Spec.mk (rules.renameKeys root)).entries s = rules.definitions ((Spec.mk root).entries s) := by
  rw [entries_eq, entries_eq, Rules.renameKeys, Rules.get_on_components,
    Rules.rename_sections_eq, Rules.plain_entries_under_tags rfl, Rules.find_on_sections,
    Rules.plain_entries_on_definitions rfl]

theorem entries_tree (rules : Rules) {root : Value} (wellKeyed : root.WellKeyed) (s : Section) :
    (Spec.mk (rules.tree root)).entries s =
      mapReferencesEntries rules.reference (rules.definitions ((Spec.mk root).entries s)) := by
  rw [Rules.tree_eq rules wellKeyed, entries_map_references, entries_rename_keys]

end MessageSchema.Spec
