import MessageSchema.Proofs.Mappings
import MessageSchema.Rename.Reference

/-!
Changing references, seen from the entries of a mapping. A change of references keeps every key, so
it commutes with whatever is done to a mapping by its keys.
-/

namespace MessageSchema.Rename

set_option autoImplicit false

open Yaml

/-- The value of an entry after a change of references. A plain string under the key of references
is one itself. -/
def mapUnder (change : String → String) (key value : Value) : Value :=
  match isReferenceKey key, value with
  | true, .string reference => .string (change reference)
  | _, _ => mapReferences change value

def referencesUnder (key value : Value) : List String :=
  match isReferenceKey key, value with
  | true, .string reference => [reference]
  | _, _ => references value

theorem map_references_entries_eq_map (change : String → String) (entries : Mapping) :
    mapReferencesEntries change entries =
      entries.map fun entry => (entry.1, mapUnder change entry.1 entry.2) := by
  induction entries with
  | nil => rfl
  | cons entry rest ih =>
      rcases entry with ⟨key, value⟩
      simp only [mapReferencesEntries, ih, List.map_cons]
      rfl

theorem references_entries_eq_flat_map (entries : Mapping) :
    referencesEntries entries = entries.flatMap fun entry => referencesUnder entry.1 entry.2 := by
  induction entries with
  | nil => rfl
  | cons entry rest ih =>
      rcases entry with ⟨key, value⟩
      simp only [referencesEntries, ih, List.flatMap_cons]
      rfl

theorem map_references_items_eq_map (change : String → String) (items : List Value) :
    mapReferencesItems change items = items.map (mapReferences change) := by
  induction items with
  | nil => rfl
  | cons item rest ih => simp only [mapReferencesItems, ih, List.map_cons]

theorem map_under_of_other {key : Value} (other : isReferenceKey key = false)
    (change : String → String) (value : Value) :
    mapUnder change key value = mapReferences change value := by
  simp [mapUnder, other]

theorem is_reference_key_string (text : String) :
    isReferenceKey (.string text) = (text == referenceKey) := by
  simp [isReferenceKey, Value.text?, Value.untag]

theorem references_subset_references_under (key value : Value) :
    ∀ reference ∈ references value, reference ∈ referencesUnder key value := by
  intro reference member
  unfold referencesUnder
  split
  · simp [references] at member
  · exact member

theorem references_subset_of_entry {entries : Mapping} {entry : Value × Value}
    (member : entry ∈ entries) :
    ∀ reference ∈ references entry.2, reference ∈ referencesEntries entries := by
  intro reference found
  rw [references_entries_eq_flat_map]
  exact List.mem_flatMap.2 ⟨entry, member, references_subset_references_under _ _ _ found⟩

theorem references_map_under (change : String → String) (key value : Value) :
    ∀ reference ∈ references (mapUnder change key value),
      ∃ source ∈ references value, change source = reference := by
  intro reference member
  unfold mapUnder at member
  split at member
  · simp [references] at member
  · rw [references_map_references] at member
    exact List.mem_map.1 member

theorem untag_map_references (change : String → String) :
    (value : Value) → (mapReferences change value).untag = mapReferences change value.untag
  | .tagged _ value => by simp only [mapReferences, Value.untag, untag_map_references change value]
  | .null => rfl
  | .bool _ => rfl
  | .number _ => rfl
  | .string _ => rfl
  | .sequence _ => rfl
  | .mapping _ => rfl

theorem entries_map_references (change : String → String) (value : Value) :
    (mapReferences change value).entries? =
      value.entries?.map (mapReferencesEntries change) := by
  unfold Value.entries?
  rw [untag_map_references]
  cases value.untag <;> rfl

theorem find_map_references_entries (change : String → String) (entries : Mapping) (name : String) :
    Mapping.find? (mapReferencesEntries change entries) name =
      (Mapping.find? entries name).map (mapUnder change (.string name)) := by
  induction entries with
  | nil => rfl
  | cons entry rest ih =>
      simp only [map_references_entries_eq_map, Mapping.find?, List.map_cons, List.find?_cons]
        at ih ⊢
      cases hit : entry.1.isString name with
      | true => simp [Value.is_string_iff.1 hit]
      | false => simpa using ih

theorem get_map_references (change : String → String) (value : Value) (name : String) :
    (mapReferences change value).get? name =
      (value.get? name).map (mapUnder change (.string name)) := by
  unfold Value.get?
  rw [entries_map_references]
  cases value.entries? with
  | none => rfl
  | some entries => exact find_map_references_entries change entries name

theorem get_map_references_of_other (change : String → String) (value : Value) {name : String}
    (other : name ≠ referenceKey) :
    (mapReferences change value).get? name = (value.get? name).map (mapReferences change) := by
  rw [get_map_references]
  have plain : isReferenceKey (.string name) = false := by
    rw [is_reference_key_string]
    simpa using other
  congr 1
  funext found
  exact map_under_of_other plain change found

theorem map_references_entries_of_kept {change : String → String} {entries : Mapping}
    (kept : ∀ entry ∈ entries, mapUnder change entry.1 entry.2 = entry.2) :
    mapReferencesEntries change entries = entries := by
  have same : entries.map (fun entry => (entry.1, mapUnder change entry.1 entry.2)) =
      entries.map id :=
    List.map_congr_left fun entry member => Prod.ext rfl (kept entry member)
  rw [map_references_entries_eq_map, same, List.map_id]

theorem map_under_map_under (first second : String → String) (key value : Value) :
    mapUnder second key (mapUnder first key value) = mapUnder (second ∘ first) key value := by
  cases introduces : isReferenceKey key with
  | false => simp only [map_under_of_other introduces, map_references_comp]
  | true =>
      cases value with
      | string text => simp [mapUnder, introduces]
      | _ => simp [mapUnder, introduces, mapReferences, map_references_items_comp,
          map_references_entries_comp, map_references_comp]

mutual

/-- Changes that agree on the references of a value do the same to it. -/
theorem map_references_congr {first second : String → String} : (value : Value) →
    (∀ reference ∈ references value, first reference = second reference) →
      mapReferences first value = mapReferences second value
  | .sequence items, agree => by
      simp only [mapReferences, map_references_items_congr items agree]
  | .mapping entries, agree => by
      simp only [mapReferences, map_references_entries_congr entries agree]
  | .tagged _ value, agree => by simp only [mapReferences, map_references_congr value agree]
  | .null, _ => rfl
  | .bool _, _ => rfl
  | .number _, _ => rfl
  | .string _, _ => rfl

theorem map_references_items_congr {first second : String → String} : (items : List Value) →
    (∀ reference ∈ referencesItems items, first reference = second reference) →
      mapReferencesItems first items = mapReferencesItems second items
  | [], _ => rfl
  | item :: rest, agree => by
      obtain ⟨now, others⟩ := List.forall_mem_append.1 agree
      simp only [mapReferencesItems, map_references_congr item now,
        map_references_items_congr rest others]

theorem map_references_entries_congr {first second : String → String} :
    (entries : List (Value × Value)) →
      (∀ reference ∈ referencesEntries entries, first reference = second reference) →
        mapReferencesEntries first entries = mapReferencesEntries second entries
  | [], _ => rfl
  | (key, value) :: rest, agree => by
      obtain ⟨now, others⟩ := List.forall_mem_append.1 agree
      have inside := references_subset_references_under key value
      have inner := map_references_congr value fun reference member =>
        now reference (inside reference member)
      simp only [mapReferencesEntries, inner, map_references_entries_congr rest others]
      congr 2
      split
      · next introduces =>
          rw [introduces] at now
          exact congrArg Value.string (now _ (List.mem_singleton_self _))
      · rfl

end

theorem map_references_of_fixed {change : String → String} {value : Value}
    (fixed : ∀ reference ∈ references value, change reference = reference) :
    mapReferences change value = value :=
  (map_references_congr value fixed).trans (map_references_id value)

theorem text_of_same : (a b : Value) → a.same b = true → a.text? = b.text?
  | .tagged _ a, b, equal => by
      cases b <;> simp only [Value.same, Bool.false_eq_true, Bool.and_eq_true] at equal
      have inner := text_of_same a _ equal.2
      simpa only [Value.text?, Value.untag] using inner
  | .string _, b, equal => by rw [Value.string_same.1 equal]
  | .null, b, equal => by cases b <;> simp [Value.same, Value.text?, Value.untag] at equal ⊢
  | .bool _, b, equal => by cases b <;> simp [Value.same, Value.text?, Value.untag] at equal ⊢
  | .number _, b, equal => by cases b <;> simp [Value.same, Value.text?, Value.untag] at equal ⊢
  | .sequence _, b, equal => by
      cases b <;> simp [Value.same, Value.text?, Value.untag] at equal ⊢
  | .mapping _, b, equal => by cases b <;> simp [Value.same, Value.text?, Value.untag] at equal ⊢

theorem map_under_of_same (change : String → String) {a b : Value} (equal : a.same b = true)
    (value : Value) : mapUnder change a value = mapUnder change b value := by
  simp only [mapUnder, isReferenceKey, text_of_same a b equal]

theorem map_references_entries_insert (change : String → String) (entries : Mapping)
    (key value : Value) :
    mapReferencesEntries change (Mapping.insert entries key value) =
      Mapping.insert (mapReferencesEntries change entries) key (mapUnder change key value) := by
  induction entries with
  | nil => rfl
  | cons entry rest ih =>
      simp only [map_references_entries_eq_map, Mapping.insert, List.map_cons] at ih ⊢
      split
      · next equal => rw [List.map_cons, map_under_of_same change equal value]
      · rw [List.map_cons, ih]

theorem map_references_entries_insert_all (change : String → String) (entries added : Mapping) :
    mapReferencesEntries change (Mapping.insertAll entries added) =
      Mapping.insertAll (mapReferencesEntries change entries)
        (mapReferencesEntries change added) := by
  induction added generalizing entries with
  | nil => rfl
  | cons entry rest ih =>
      rw [Mapping.insert_all_cons, ih, map_references_entries_insert]
      rfl

theorem map_references_entries_of_entries (change : String → String) (entries : Mapping) :
    mapReferencesEntries change (Mapping.ofEntries entries) =
      Mapping.ofEntries (mapReferencesEntries change entries) :=
  map_references_entries_insert_all change [] entries

theorem map_references_entries_map_keys (change : String → String) (rekey : Value → Value)
    (entries : Mapping) (kept : ∀ key, isReferenceKey (rekey key) = isReferenceKey key) :
    mapReferencesEntries change (Mapping.mapKeys rekey entries) =
      Mapping.mapKeys rekey (mapReferencesEntries change entries) := by
  simp only [map_references_entries_eq_map, Mapping.mapKeys, List.map_map]
  apply List.map_congr_left
  intro entry _
  simp only [Function.comp, mapUnder, kept]

mutual

/-- A change of references touches no key. -/
theorem well_keyed_map_references (change : String → String) :
    (value : Value) → value.WellKeyed → (mapReferences change value).WellKeyed
  | .sequence items, wellKeyed => well_keyed_map_references_items change items wellKeyed
  | .mapping entries, wellKeyed => by
      refine ⟨?_, well_keyed_map_references_entries change entries wellKeyed.2⟩
      rw [map_references_entries_eq_map]
      exact List.pairwise_map.2 wellKeyed.1
  | .tagged _ value, wellKeyed => well_keyed_map_references change value wellKeyed
  | .null, _ => trivial
  | .bool _, _ => trivial
  | .number _, _ => trivial
  | .string _, _ => trivial

theorem well_keyed_map_references_items (change : String → String) :
    (items : List Value) → Value.WellKeyedItems items →
      Value.WellKeyedItems (mapReferencesItems change items)
  | [], _ => trivial
  | item :: rest, wellKeyed =>
      ⟨well_keyed_map_references change item wellKeyed.1,
        well_keyed_map_references_items change rest wellKeyed.2⟩

theorem well_keyed_map_references_entries (change : String → String) :
    (entries : List (Value × Value)) → Value.WellKeyedEntries entries →
      Value.WellKeyedEntries (mapReferencesEntries change entries)
  | [], _ => trivial
  | (key, value) :: rest, wellKeyed => by
      have inner := well_keyed_map_references change value wellKeyed.1.2
      refine ⟨⟨wellKeyed.1.1, ?_⟩, well_keyed_map_references_entries change rest wellKeyed.2⟩
      split
      · trivial
      · exact inner

end

end MessageSchema.Rename
