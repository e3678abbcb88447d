import MessageSchema.Proofs.RenamedDocuments

/-!
Places of a document. A place is found by the numbers of entries and items, so it is there whatever
the keys are, and renaming moves nothing as long as no two keys meet. What is seen at the place of a
reference afterwards is the changed reference.
-/

namespace MessageSchema

set_option autoImplicit false

open Yaml Rename

namespace Yaml

def Value.items? (value : Value) : Option (List Value) :=
  match value.untag with
  | .sequence items => some items
  | _ => none

/-- A step down to the value of an entry, or to an item, by its number. -/
inductive Descent where
  | entry (index : Nat)
  | item (index : Nat)

def Value.entriesAt? : Value → List Descent → Option Mapping
  | value, [] => value.entries?
  | value, .entry index :: rest =>
      (value.entries?.bind (·[index]?)).bind fun entry => entry.2.entriesAt? rest
  | value, .item index :: rest =>
      (value.items?.bind (·[index]?)).bind fun item => item.entriesAt? rest

end Yaml

namespace Rename

def referenceOf? (entry : Value × Value) : Option String :=
  match isReferenceKey entry.1, entry.2 with
  | true, .string reference => some reference
  | _, _ => none

theorem reference_of_eq_some_iff {entry : Value × Value} {reference : String} :
    referenceOf? entry = some reference ↔
      isReferenceKey entry.1 = true ∧ entry.2 = .string reference := by
  unfold referenceOf?
  split
  · next text introduces given => simp [introduces, given]
  · next other =>
      constructor
      · intro impossible
        contradiction
      · rintro ⟨introduces, given⟩
        exact absurd given (other reference introduces)

def referenceAt? (root : Value) (place : List Descent) (index : Nat) : Option String :=
  ((root.entriesAt? place).bind (·[index]?)).bind referenceOf?

end Rename

namespace Yaml.Value

mutual

/-- The value with the keys of all its mappings changed. -/
def withKeys (change : Value → Value) : Value → Value
  | sequence items => sequence (withKeysItems change items)
  | mapping entries => mapping (withKeysEntries change entries)
  | tagged tag value => tagged tag (withKeys change value)
  | null => null
  | bool b => bool b
  | number n => number n
  | string text => string text

def withKeysItems (change : Value → Value) : List Value → List Value
  | [] => []
  | item :: rest => withKeys change item :: withKeysItems change rest

def withKeysEntries (change : Value → Value) : List (Value × Value) → List (Value × Value)
  | [] => []
  | (key, value) :: rest => (change key, withKeys change value) :: withKeysEntries change rest

end

theorem with_keys_items_eq_map (change : Value → Value) (items : List Value) :
    withKeysItems change items = items.map (withKeys change) := by
  induction items with
  | nil => rfl
  | cons item rest ih => simp only [withKeysItems, ih, List.map_cons]

theorem with_keys_entries_eq_map (change : Value → Value) (entries : Mapping) :
    withKeysEntries change entries =
      entries.map fun entry => (change entry.1, entry.2.withKeys change) := by
  induction entries with
  | nil => rfl
  | cons entry rest ih =>
      rcases entry with ⟨key, value⟩
      simp only [withKeysEntries, ih, List.map_cons]

theorem untag_with_keys (change : Value → Value) :
    (value : Value) → (value.withKeys change).untag = value.untag.withKeys change
  | tagged _ value => by simp only [withKeys, untag, untag_with_keys change value]
  | null => rfl
  | bool _ => rfl
  | number _ => rfl
  | string _ => rfl
  | sequence _ => rfl
  | mapping _ => rfl

theorem with_keys_eq_string {change : Value → Value} {value : Value} {text : String}
    (same : value.withKeys change = string text) : value = string text := by
  cases value <;> simp_all [withKeys]

theorem entries_at_with_keys (change : Value → Value) (value : Value) (place : List Descent) :
    (value.withKeys change).entriesAt? place =
      (value.entriesAt? place).map (withKeysEntries change) := by
  induction place generalizing value with
  | nil =>
      unfold entriesAt? entries?
      rw [untag_with_keys]
      cases value.untag <;> rfl
  | cons step rest ih =>
      cases step with
      | entry index =>
          have entries : (value.withKeys change).entries? =
              value.entries?.map (withKeysEntries change) := by
            unfold entries?
            rw [untag_with_keys]
            cases value.untag <;> rfl
          rw [entriesAt?, entriesAt?, entries]
          cases value.entries? with
          | none => rfl
          | some entries =>
              simp only [Option.map_some, Option.bind_some, with_keys_entries_eq_map,
                List.getElem?_map]
              cases entries[index]? with
              | none => rfl
              | some entry => exact ih entry.2
      | item index =>
          have items : (value.withKeys change).items? =
              value.items?.map (withKeysItems change) := by
            unfold items?
            rw [untag_with_keys]
            cases value.untag <;> rfl
          rw [entriesAt?, entriesAt?, items]
          cases value.items? with
          | none => rfl
          | some items =>
              simp only [Option.map_some, Option.bind_some, with_keys_items_eq_map,
                List.getElem?_map]
              cases items[index]? with
              | none => rfl
              | some item => exact ih item

end Yaml.Value

namespace Rename

theorem entries_at_map_under (change : String → String) (key value : Value)
    (place : List Descent) :
    (mapUnder change key value).entriesAt? place =
      (mapReferences change value).entriesAt? place := by
  have leaf : ∀ text, (Value.string text).entriesAt? place = none := by
    intro text
    rcases place with _ | ⟨_ | _, _⟩ <;> rfl
  unfold mapUnder
  split
  · rw [mapReferences, leaf, leaf]
  · rfl

theorem entries_at_map_references (change : String → String) (value : Value)
    (place : List Descent) :
    (mapReferences change value).entriesAt? place =
      (value.entriesAt? place).map (mapReferencesEntries change) := by
  induction place generalizing value with
  | nil => exact entries_map_references change value
  | cons step rest ih =>
      cases step with
      | entry index =>
          rw [Value.entriesAt?, Value.entriesAt?, entries_map_references]
          cases value.entries? with
          | none => rfl
          | some entries =>
              simp only [Option.map_some, Option.bind_some, map_references_entries_eq_map,
                List.getElem?_map]
              cases entries[index]? with
              | none => rfl
              | some entry =>
                  simp only [Option.map_some, Option.bind_some, entries_at_map_under, ih]
      | item index =>
          have items : (mapReferences change value).items? =
              value.items?.map (mapReferencesItems change) := by
            unfold Value.items?
            rw [untag_map_references]
            cases value.untag <;> rfl
          rw [Value.entriesAt?, Value.entriesAt?, items]
          cases value.items? with
          | none => rfl
          | some items =>
              simp only [Option.map_some, Option.bind_some, map_references_items_eq_map,
                List.getElem?_map]
              cases items[index]? with
              | none => rfl
              | some item => exact ih item

namespace Rules

section

variable {blind : Value → Value}

theorem with_keys_under_tags {change : Value → Value}
    (kept : ∀ value, (change value).withKeys blind = value.withKeys blind) :
    (value : Value) → (value.underTags change).withKeys blind = value.withKeys blind
  | .tagged tag value => by
      simp only [Value.underTags, Value.withKeys, with_keys_under_tags kept value]
  | .null => kept _
  | .bool _ => kept _
  | .number _ => kept _
  | .string _ => kept _
  | .sequence _ => kept _
  | .mapping _ => kept _

theorem with_keys_on_definitions {change : Mapping → Mapping}
    (kept : ∀ entries, Value.withKeysEntries blind (change entries) =
      Value.withKeysEntries blind entries) (value : Value) :
    (onDefinitions change value).withKeys blind = value.withKeys blind := by
  cases value with
  | mapping entries => exact congrArg Value.mapping (kept entries)
  | _ => rfl

theorem with_keys_entries_adjust {change : Value → Value}
    (kept : ∀ value, (change value).withKeys blind = value.withKeys blind) (entries : Mapping)
    (name : String) :
    Value.withKeysEntries blind (entries.adjust name change) =
      Value.withKeysEntries blind entries := by
  simp only [Value.with_keys_entries_eq_map, Mapping.adjust, List.map_map]
  apply List.map_congr_left
  intro entry _
  simp only [Function.comp]
  split
  · rw [kept]
  · rfl

/-- To whom new keys look like the old ones, the document is as before. -/
theorem with_keys_rename_keys {rules : Rules} {root : Value} (wellKeyed : root.WellKeyed)
    (apart : ∀ s, rules.collisions (definitionsOf root s) = [])
    (kept : ∀ key, blind (rules.key key) = blind key) :
    (rules.renameKeys root).withKeys blind = root.withKeys blind := by
  have definitions : ∀ entries, Value.withKeysEntries blind (rules.renamedEntries entries) =
      Value.withKeysEntries blind entries := by
    intro entries
    simp only [Value.with_keys_entries_eq_map, renamedEntries, List.map_map, Function.comp_def, kept]
  have sections : ∀ components,
      Value.withKeysEntries blind (onSections rules.renamedEntries components) =
        Value.withKeysEntries blind components := by
    intro components
    have inner := with_keys_on_definitions definitions
    exact (with_keys_entries_adjust inner _ "messages").trans
      (with_keys_entries_adjust inner _ "schemas")
  rw [rename_keys_of_collisions wellKeyed apart]
  apply with_keys_under_tags
  apply with_keys_on_definitions
  intro entries
  apply with_keys_entries_adjust
  exact with_keys_under_tags (with_keys_on_definitions sections)

end

/-- Where a reference stood, the changed reference stands, unless the key there introduces none any
more. -/
theorem exists_key_tree {rules : Rules} {root : Value} (wellKeyed : root.WellKeyed)
    (apart : ∀ s, rules.collisions (definitionsOf root s) = []) (blind : Value → Value)
    (kept : ∀ key, blind (rules.key key) = blind key) {place : List Descent} {index : Nat}
    {reference : String} (found : referenceAt? root place index = some reference) :
    ∃ old new, isReferenceKey old = true ∧ blind new = blind old ∧
      referenceAt? (rules.tree root) place index =
        if isReferenceKey new then some (rules.reference reference) else none := by
  obtain ⟨entry, standing, given⟩ := Option.bind_eq_some_iff.1 found
  obtain ⟨entries, there, hit⟩ := Option.bind_eq_some_iff.1 standing
  obtain ⟨introduces, text⟩ := reference_of_eq_some_iff.1 given
  have images : ((rules.renameKeys root).entriesAt? place).map (Value.withKeysEntries blind) =
      some (Value.withKeysEntries blind entries) := by
    rw [← Value.entries_at_with_keys, with_keys_rename_keys wellKeyed apart kept,
      Value.entries_at_with_keys, there, Option.map_some]
  obtain ⟨renamed, there', same⟩ := Option.map_eq_some_iff.1 images
  have image : (renamed[index]?).map (fun entry => (blind entry.1, entry.2.withKeys blind)) =
      some (blind entry.1, .string reference) := by
    rw [← List.getElem?_map, ← Value.with_keys_entries_eq_map, same, Value.with_keys_entries_eq_map,
      List.getElem?_map, hit, Option.map_some, text]
    rfl
  obtain ⟨⟨new, value⟩, hit', both⟩ := Option.map_eq_some_iff.1 image
  rw [Prod.mk.injEq] at both
  obtain ⟨alike, leaf⟩ := both
  have value' := Value.with_keys_eq_string leaf
  simp only at value'
  subst value'
  refine ⟨entry.1, new, introduces, alike, ?_⟩
  rw [tree_eq rules wellKeyed, referenceAt?, entries_at_map_references, there', Option.map_some,
    Option.bind_some, map_references_entries_eq_map, List.getElem?_map, hit', Option.map_some,
    Option.bind_some]
  cases introduced : isReferenceKey new <;> simp [referenceOf?, mapUnder, mapReferences, introduced]

end Rules

end Rename

end MessageSchema
