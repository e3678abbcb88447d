import MessageSchema.Rename.Rule
import MessageSchema.Yaml.Value

/-!
References. A reference names a definition when it is a bare name, or a path whose last step leads
into one of the two sections with definitions; a path that goes on from there points at something
inside a definition and names none.
-/

namespace MessageSchema.Rename

set_option autoImplicit false

open Yaml

def referenceKey : String := "$ref"

def definitionPaths : List String := ["#/components/schemas", "#/components/messages"]

/-- A path up to and including its last slash, and the step after it. -/
def splitLast (path : List Char) : List Char × List Char :=
  let step := (path.reverse.takeWhile (· != '/')).reverse
  (path.take (path.length - step.length), step)

theorem split_last_append (path : List Char) : (splitLast path).1 ++ (splitLast path).2 = path := by
  simp only [splitLast]
  have whole : path = (path.reverse.dropWhile (· != '/')).reverse ++
      (path.reverse.takeWhile (· != '/')).reverse := by
    rw [← List.reverse_append, List.takeWhile_append_dropWhile, List.reverse_reverse]
  have front : path.take (path.length - (path.reverse.takeWhile (· != '/')).reverse.length) =
      (path.reverse.dropWhile (· != '/')).reverse := by
    conv => lhs; arg 2; rw [whole]
    conv => lhs; arg 1; rw [whole]
    simp
  rw [front]
  exact whole.symm

/-- Whether what stands before a step leads into a section with definitions. The front ends with a
slash unless it is empty. -/
def leadsToDefinition (front : List Char) : Bool :=
  front.isEmpty || definitionPaths.any fun path => (path.toList ++ ['/']).isSuffixOf front

def definition? (reference : String) : Option String :=
  let (front, step) := splitLast reference.toList
  if leadsToDefinition front then some (String.ofList step) else none

def withDefinition (reference name : String) : String :=
  String.ofList ((splitLast reference.toList).1 ++ name.toList)

def Rules.reference (rules : Rules) (reference : String) : String :=
  match (definition? reference).bind rules.replacement? with
  | some name => withDefinition reference name
  | none => reference

/-- Whether a key introduces a reference, seen through tags. -/
def isReferenceKey (key : Value) : Bool := key.text? == some referenceKey

mutual

/-- Changes the references that are reached through values of mappings, items of sequences and
tags. -/
def mapReferences (change : String → String) : Value → Value
  | .sequence items => .sequence (mapReferencesItems change items)
  | .mapping entries => .mapping (mapReferencesEntries change entries)
  | .tagged tag value => .tagged tag (mapReferences change value)
  | .null => .null
  | .bool b => .bool b
  | .number n => .number n
  | .string text => .string text

def mapReferencesItems (change : String → String) : List Value → List Value
  | [] => []
  | item :: rest => mapReferences change item :: mapReferencesItems change rest

def mapReferencesEntries (change : String → String) :
    List (Value × Value) → List (Value × Value)
  | [] => []
  | (key, value) :: rest =>
      let changed :=
        match isReferenceKey key, value with
        | true, .string reference => .string (change reference)
        | _, _ => mapReferences change value
      (key, changed) :: mapReferencesEntries change rest

end

mutual

/-- The references that are reached in this way, in document order. -/
def references : Value → List String
  | .sequence items => referencesItems items
  | .mapping entries => referencesEntries entries
  | .tagged _ value => references value
  | _ => []

def referencesItems : List Value → List String
  | [] => []
  | item :: rest => references item ++ referencesItems rest

def referencesEntries : List (Value × Value) → List String
  | [] => []
  | (key, value) :: rest =>
      let found :=
        match isReferenceKey key, value with
        | true, .string reference => [reference]
        | _, _ => references value
      found ++ referencesEntries rest

end

mutual

theorem map_references_id : (value : Value) → mapReferences id value = value
  | .sequence items => by simp only [mapReferences, map_references_items_id items]
  | .mapping entries => by simp only [mapReferences, map_references_entries_id entries]
  | .tagged _ value => by simp only [mapReferences, map_references_id value]
  | .null => rfl
  | .bool _ => rfl
  | .number _ => rfl
  | .string _ => rfl

theorem map_references_items_id : (items : List Value) → mapReferencesItems id items = items
  | [] => rfl
  | item :: rest => by
      simp only [mapReferencesItems, map_references_id item, map_references_items_id rest]

theorem map_references_entries_id :
    (entries : List (Value × Value)) → mapReferencesEntries id entries = entries
  | [] => rfl
  | (key, value) :: rest => by
      simp only [mapReferencesEntries, map_references_id value, map_references_entries_id rest]
      split <;> rfl

end

mutual

theorem map_references_comp (first second : String → String) :
    (value : Value) →
      mapReferences second (mapReferences first value) = mapReferences (second ∘ first) value
  | .sequence items => by simp only [mapReferences, map_references_items_comp first second items]
  | .mapping entries => by
      simp only [mapReferences, map_references_entries_comp first second entries]
  | .tagged _ value => by simp only [mapReferences, map_references_comp first second value]
  | .null => rfl
  | .bool _ => rfl
  | .number _ => rfl
  | .string _ => rfl

theorem map_references_items_comp (first second : String → String) :
    (items : List Value) →
      mapReferencesItems second (mapReferencesItems first items) =
        mapReferencesItems (second ∘ first) items
  | [] => rfl
  | item :: rest => by
      simp only [mapReferencesItems, map_references_comp first second item,
        map_references_items_comp first second rest]

theorem map_references_entries_comp (first second : String → String) :
    (entries : List (Value × Value)) →
      mapReferencesEntries second (mapReferencesEntries first entries) =
        mapReferencesEntries (second ∘ first) entries
  | [] => rfl
  | (key, value) :: rest => by
      have inner := map_references_comp first second value
      simp only [mapReferencesEntries, map_references_entries_comp first second rest]
      congr 2
      cases isReferenceKey key with
      | false => exact inner
      | true =>
          cases value with
          | string text => rfl
          | _ => exact inner

end

mutual

/-- A change reaches exactly the references that are listed, and keeps their order. -/
theorem references_map_references (change : String → String) :
    (value : Value) → references (mapReferences change value) = (references value).map change
  | .sequence items => by
      simp only [mapReferences, references, references_items_map_references change items]
  | .mapping entries => by
      simp only [mapReferences, references, references_entries_map_references change entries]
  | .tagged _ value => by
      simp only [mapReferences, references, references_map_references change value]
  | .null => rfl
  | .bool _ => rfl
  | .number _ => rfl
  | .string _ => rfl

theorem references_items_map_references (change : String → String) :
    (items : List Value) →
      referencesItems (mapReferencesItems change items) = (referencesItems items).map change
  | [] => rfl
  | item :: rest => by
      simp only [mapReferencesItems, referencesItems, references_map_references change item,
        references_items_map_references change rest, List.map_append]

theorem references_entries_map_references (change : String → String) :
    (entries : List (Value × Value)) →
      referencesEntries (mapReferencesEntries change entries) =
        (referencesEntries entries).map change
  | [] => rfl
  | (key, value) :: rest => by
      have inner := references_map_references change value
      simp only [mapReferencesEntries, referencesEntries,
        references_entries_map_references change rest, List.map_append]
      congr 1
      cases isReferenceKey key with
      | false => exact inner
      | true =>
          cases value with
          | string text => rfl
          | _ => exact inner

end

end MessageSchema.Rename
