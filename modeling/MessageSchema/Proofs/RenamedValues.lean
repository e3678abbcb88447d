import MessageSchema.Proofs.Collisions
import MessageSchema.Proofs.NamedDefinitions

/-!
All that renaming does to a document, as a relation between the values before and after it. Tags,
scalars, items and the keys of mappings stay as they are. What changes are the keys of definitions,
where those that become equal are merged, and plain strings under the key of references. The
relation holds of a document and nothing but the result, and each entry that a merger takes away is
logged.
-/

namespace MessageSchema

set_option autoImplicit false

open Yaml

namespace Rename

/-- Where a value stands, as far as renaming goes. -/
inductive Layer where
  | document
  | components
  /-- A section whose keys are the names of definitions. -/
  | definitions
  | inner

namespace Layer

/-- The document and its components are seen through tags, a section is not. -/
def underTag : Layer → Layer
  | definitions => inner
  | layer => layer

def under : Layer → Value → Layer
  | document, key => if key.isString "components" then components else inner
  | components, key => if sections.any fun s => key.isString s.name then definitions else inner
  | _, _ => inner

end Layer

mutual

/-- What a value becomes when some names get a lead. -/
inductive Becomes (lead : String) (targets : List String) : Layer → Value → Value → Prop
  | null (layer : Layer) : Becomes lead targets layer .null .null
  | bool (layer : Layer) (b : Bool) : Becomes lead targets layer (.bool b) (.bool b)
  | number (layer : Layer) (n : Number) : Becomes lead targets layer (.number n) (.number n)
  | string (layer : Layer) (text : String) :
      Becomes lead targets layer (.string text) (.string text)
  | sequence (layer : Layer) {items items' : List Value}
      (each : ItemsBecome lead targets items items') :
      Becomes lead targets layer (.sequence items) (.sequence items')
  | tagged {layer : Layer} (tag : Tag) {value value' : Value}
      (inside : Becomes lead targets layer.underTag value value') :
      Becomes lead targets layer (.tagged tag value) (.tagged tag value')
  | mapping {layer : Layer} {entries entries' : List (Value × Value)}
      (other : layer ≠ .definitions) (each : EntriesBecome lead targets layer entries entries') :
      Becomes lead targets layer (.mapping entries) (.mapping entries')
  | definitions {entries rekeyed merged entries' : List (Value × Value)}
      (keys : List.Forall₂ (fun old new => KeyBecomes lead targets old.1 new.1 ∧ new.2 = old.2)
        entries rekeyed)
      (merges : Mapping.Merges rekeyed merged)
      (each : EntriesBecome lead targets .inner merged entries') :
      Becomes lead targets .definitions (.mapping entries) (.mapping entries')

inductive ItemsBecome (lead : String) (targets : List String) : List Value → List Value → Prop
  | nil : ItemsBecome lead targets [] []
  | cons {item item' : Value} {rest rest' : List Value}
      (first : Becomes lead targets .inner item item')
      (others : ItemsBecome lead targets rest rest') :
      ItemsBecome lead targets (item :: rest) (item' :: rest')

/-- What entries become, each under the key that it has. -/
inductive EntriesBecome (lead : String) (targets : List String) :
    Layer → List (Value × Value) → List (Value × Value) → Prop
  | nil (layer : Layer) : EntriesBecome lead targets layer [] []
  | reference {layer : Layer} {key : Value} {old new : String} {rest rest' : List (Value × Value)}
      (introduces : isReferenceKey key = true) (changed : ReferenceBecomes lead targets old new)
      (others : EntriesBecome lead targets layer rest rest') :
      EntriesBecome lead targets layer ((key, .string old) :: rest) ((key, .string new) :: rest')
  | value {layer : Layer} {key value value' : Value} {rest rest' : List (Value × Value)}
      (plain : isReferenceKey key = true → ∀ text, value ≠ .string text)
      (inside : Becomes lead targets (layer.under key) value value')
      (others : EntriesBecome lead targets layer rest rest') :
      EntriesBecome lead targets layer ((key, value) :: rest) ((key, value') :: rest')

end

variable {lead : String} {targets : List String}

theorem map_under_of_plain {key value : Value}
    (plain : isReferenceKey key = true → ∀ text, value ≠ .string text) (change : String → String) :
    mapUnder change key value = mapReferences change value := by
  unfold mapUnder
  split
  · next text introduces => exact absurd rfl (plain introduces text)
  · rfl

theorem entries_become_iff {layer : Layer} {change : Value → Value → Value}
    (plain : ∀ key value text, change key value = .string text ↔ value = .string text)
    {entries : Mapping} (each : ∀ entry ∈ entries, ∀ new,
      Becomes lead targets (layer.under entry.1) entry.2 new ↔
        new = mapReferences (Rules.ofTargets lead targets).reference (change entry.1 entry.2))
    (entries' : Mapping) :
    EntriesBecome lead targets layer entries entries' ↔
      entries' = mapReferencesEntries (Rules.ofTargets lead targets).reference
        (entries.map fun entry => (entry.1, change entry.1 entry.2)) := by
  induction entries generalizing entries' with
  | nil =>
      constructor
      · rintro ⟨⟩
        rfl
      · rintro rfl
        exact .nil layer
  | cons entry rest ih =>
      rcases entry with ⟨key, value⟩
      obtain ⟨first, others⟩ := List.forall_mem_cons.1 each
      rw [map_references_entries_eq_map] at ih ⊢
      constructor
      · intro becomes
        cases becomes with
        | reference introduces changed later =>
            rw [(ih others _).1 later, (Rules.reference_becomes_iff _ _).1 changed]
            simp [mapUnder, introduces, (plain key _ _).2 rfl]
        | value other inside later =>
            have under := @map_under_of_plain key (change key value) fun introduces text same =>
              other introduces text ((plain key value text).1 same)
            rw [(ih others _).1 later, (first _).1 inside, List.map_cons, List.map_cons, under]
      · rintro rfl
        have later := (ih others _).2 rfl
        by_cases introduces : isReferenceKey key = true ∧ ∃ text, value = .string text
        · obtain ⟨introduces, text, rfl⟩ := introduces
          have under : mapUnder (Rules.ofTargets lead targets).reference key
              (change key (.string text)) =
                .string ((Rules.ofTargets lead targets).reference text) := by
            simp [mapUnder, introduces, (plain key _ _).2 rfl]
          rw [List.map_cons, List.map_cons, under]
          exact .reference introduces ((Rules.reference_becomes_iff _ _).2 rfl) later
        · have other : isReferenceKey key = true → ∀ text, value ≠ .string text :=
            fun given text same => introduces ⟨given, text, same⟩
          have under := @map_under_of_plain key (change key value) fun given text same =>
            other given text ((plain key value text).1 same)
          rw [List.map_cons, List.map_cons, under]
          exact .value other ((first _).2 rfl) later

theorem items_become_iff {items : List Value} (each : ∀ item ∈ items, ∀ new,
      Becomes lead targets .inner item new ↔
        new = mapReferences (Rules.ofTargets lead targets).reference item)
    (items' : List Value) :
    ItemsBecome lead targets items items' ↔
      items' = mapReferencesItems (Rules.ofTargets lead targets).reference items := by
  induction items generalizing items' with
  | nil =>
      constructor
      · rintro ⟨⟩
        rfl
      · rintro rfl
        exact .nil
  | cons item rest ih =>
      obtain ⟨first, others⟩ := List.forall_mem_cons.1 each
      rw [mapReferencesItems]
      constructor
      · intro becomes
        cases becomes with
        | cons now later => rw [(first _).1 now, (ih others _).1 later]
      · rintro rfl
        exact .cons ((first _).2 rfl) ((ih others _).2 rfl)

mutual

/-- Away from the definitions nothing changes but references. -/
theorem becomes_inner_iff : (value : Value) → ∀ new, Becomes lead targets .inner value new ↔
    new = mapReferences (Rules.ofTargets lead targets).reference value
  | .null, _ => ⟨fun | .null _ => rfl, fun same => same ▸ .null _⟩
  | .bool b, _ => ⟨fun | .bool _ _ => rfl, fun same => same ▸ .bool _ b⟩
  | .number n, _ => ⟨fun | .number _ _ => rfl, fun same => same ▸ .number _ n⟩
  | .string text, _ => ⟨fun | .string _ _ => rfl, fun same => same ▸ .string _ text⟩
  | .tagged tag value, new => by
      have inside := becomes_inner_iff value
      constructor
      · intro becomes
        cases becomes with
        | tagged _ changed => exact congrArg (Value.tagged tag) ((inside _).1 changed)
      · rintro rfl
        exact .tagged tag ((inside _).2 rfl)
  | .sequence items, new => by
      have each := items_become_iff (becomes_items_iff items)
      constructor
      · intro becomes
        cases becomes with
        | sequence _ changed => exact congrArg Value.sequence ((each _).1 changed)
      · rintro rfl
        exact .sequence _ ((each _).2 rfl)
  | .mapping entries, new => by
      have each := @entries_become_iff lead targets .inner (fun _ value => value)
        (fun _ _ _ => Iff.rfl) entries (becomes_entries_iff entries)
      rw [List.map_id'] at each
      constructor
      · intro becomes
        cases becomes with
        | mapping _ changed => exact congrArg Value.mapping ((each _).1 changed)
      · rintro rfl
        exact .mapping (by simp) ((each _).2 rfl)

theorem becomes_items_iff : (items : List Value) → ∀ item ∈ items, ∀ new,
    Becomes lead targets .inner item new ↔
      new = mapReferences (Rules.ofTargets lead targets).reference item
  | [], _, member => by simp at member
  | first :: rest, item, member => by
      rcases List.mem_cons.1 member with same | later
      · exact same ▸ becomes_inner_iff first
      · exact becomes_items_iff rest item later

theorem becomes_entries_iff : (entries : List (Value × Value)) → ∀ entry ∈ entries, ∀ new,
    Becomes lead targets .inner entry.2 new ↔
      new = mapReferences (Rules.ofTargets lead targets).reference entry.2
  | [], _, member => by simp at member
  | (key, value) :: rest, entry, member => by
      rcases List.mem_cons.1 member with same | later
      · exact same ▸ becomes_inner_iff value
      · exact becomes_entries_iff rest entry later

end

theorem becomes_leaf_iff {value : Value} (single : ∀ entries, value ≠ .mapping entries)
    (untagged : ∀ tag inside, value ≠ .tagged tag inside) (layer : Layer) (new : Value) :
    Becomes lead targets layer value new ↔ Becomes lead targets .inner value new := by
  cases value with
  | null => exact ⟨fun | .null _ => .null _, fun | .null _ => .null _⟩
  | bool b => exact ⟨fun | .bool _ _ => .bool _ b, fun | .bool _ _ => .bool _ b⟩
  | number n => exact ⟨fun | .number _ _ => .number _ n, fun | .number _ _ => .number _ n⟩
  | string text =>
      exact ⟨fun | .string _ _ => .string _ text, fun | .string _ _ => .string _ text⟩
  | sequence items =>
      exact ⟨fun | .sequence _ each => .sequence _ each, fun | .sequence _ each => .sequence _ each⟩
  | mapping entries => exact absurd rfl (single entries)
  | tagged tag inside => exact absurd rfl (untagged tag inside)

theorem forall₂_eq_map {α β : Type} {r : α → β → Prop} {f : α → β}
    (single : ∀ a b, r a b ↔ b = f a) (items : List α) (items' : List β) :
    List.Forall₂ r items items' ↔ items' = items.map f := by
  induction items generalizing items' with
  | nil => simp
  | cons item rest ih => cases items' <;> simp [single, ih]

/-- In a section the keys change, and what is merged is merged before its references change. -/
theorem becomes_definitions_iff {value : Value} (wellKeyed : value.WellKeyed) (new : Value) :
    Becomes lead targets .definitions value new ↔
      new = mapReferences (Rules.ofTargets lead targets).reference
        (Rules.onDefinitions (Rules.ofTargets lead targets).definitions value) := by
  have inner := @becomes_inner_iff lead targets
  cases value with
  | mapping entries =>
      have keyed : Mapping.Keyed ((Rules.ofTargets lead targets).renamedEntries entries) :=
        Mapping.keyed_map_keys fun entry member => Rules.well_keyed_key _
          ((Value.well_keyed_entries_iff entries).1 wellKeyed.2 entry member).1
      have rekeyed_iff := @forall₂_eq_map _ _
        (fun old new : Value × Value => KeyBecomes lead targets old.1 new.1 ∧ new.2 = old.2)
        (fun entry => ((Rules.ofTargets lead targets).key entry.1, entry.2))
        (fun old new => by rw [Rules.key_becomes_iff, Prod.ext_iff]) entries
      have each := fun merged : Mapping => @entries_become_iff lead targets .inner
        (fun _ value => value) (fun _ _ _ => Iff.rfl) merged fun entry _ => inner entry.2
      simp only [List.map_id'] at each
      constructor
      · intro becomes
        cases becomes with
        | mapping other _ => exact absurd rfl other
        | definitions keys merges changed =>
            obtain rfl := (rekeyed_iff _).1 keys
            obtain rfl := (Mapping.merges_iff keyed _).1 merges
            exact congrArg Value.mapping ((each _ _).1 changed)
      · rintro rfl
        exact .definitions ((rekeyed_iff _).2 rfl) ((Mapping.merges_iff keyed _).2 rfl)
          ((each _ _).2 rfl)
  | tagged tag value =>
      rw [← inner]
      exact ⟨fun | .tagged _ inside => .tagged tag inside,
        fun | .tagged _ inside => .tagged tag inside⟩
  | _ => exact (becomes_leaf_iff (by simp) (by simp) _ _).trans (inner _ _)

theorem becomes_under_tags_iff {layer : Layer} (seen : layer.underTag = layer)
    (other : layer ≠ .definitions) {change : Mapping → Mapping}
    (each : ∀ entries, (Value.mapping entries).WellKeyed → ∀ entries',
      EntriesBecome lead targets layer entries entries' ↔
        entries' = mapReferencesEntries (Rules.ofTargets lead targets).reference (change entries)) :
    (value : Value) → value.WellKeyed → ∀ new, Becomes lead targets layer value new ↔
      new = mapReferences (Rules.ofTargets lead targets).reference
        (value.underTags (Rules.onDefinitions change))
  | .tagged tag value, wellKeyed, new => by
      have inside := becomes_under_tags_iff seen other each value wellKeyed
      constructor
      · intro becomes
        cases becomes with
        | tagged _ changed =>
            rw [seen] at changed
            exact congrArg (Value.tagged tag) ((inside _).1 changed)
      · rintro rfl
        refine .tagged tag ?_
        rw [seen]
        exact (inside _).2 rfl
  | .mapping entries, wellKeyed, new => by
      have changes := each entries wellKeyed
      constructor
      · intro becomes
        cases becomes with
        | mapping _ changed => exact congrArg Value.mapping ((changes _).1 changed)
        | definitions => exact absurd rfl other
      · rintro rfl
        exact .mapping other ((changes _).2 rfl)
  | .null, _, _ => (becomes_leaf_iff (by simp) (by simp) _ _).trans (becomes_inner_iff _ _)
  | .bool _, _, _ => (becomes_leaf_iff (by simp) (by simp) _ _).trans (becomes_inner_iff _ _)
  | .number _, _, _ => (becomes_leaf_iff (by simp) (by simp) _ _).trans (becomes_inner_iff _ _)
  | .string _, _, _ => (becomes_leaf_iff (by simp) (by simp) _ _).trans (becomes_inner_iff _ _)
  | .sequence _, _, _ => (becomes_leaf_iff (by simp) (by simp) _ _).trans (becomes_inner_iff _ _)

theorem on_definitions_eq_string (change : Mapping → Mapping) {value : Value} {text : String} :
    Rules.onDefinitions change value = .string text ↔ value = .string text := by
  cases value <;> simp [Rules.onDefinitions]

theorem under_tags_eq_string (change : Mapping → Mapping) {value : Value} {text : String} :
    value.underTags (Rules.onDefinitions change) = .string text ↔ value = .string text := by
  cases value <;> simp [Value.underTags, Rules.onDefinitions]

/-- Where a layer leads on to another one under some keys, the values there change as that one does,
and in all others nothing changes but references. -/
theorem entries_become_under_iff {layer inside : Layer} {leads : Value → Bool}
    {change : Value → Value}
    (under : ∀ key, layer.under key = if leads key then inside else .inner)
    (plain : ∀ value text, change value = .string text ↔ value = .string text)
    (each : ∀ value : Value, value.WellKeyed → ∀ new, Becomes lead targets inside value new ↔
      new = mapReferences (Rules.ofTargets lead targets).reference (change value))
    {entries : Mapping} (wellKeyed : (Value.mapping entries).WellKeyed) (entries' : Mapping) :
    EntriesBecome lead targets layer entries entries' ↔
      entries' = mapReferencesEntries (Rules.ofTargets lead targets).reference (entries.map
        fun entry => (entry.1, if leads entry.1 then change entry.2 else entry.2)) := by
  refine @entries_become_iff lead targets layer
    (fun key value => if leads key then change value else value)
    (fun key value text => ?_) entries (fun entry member new => ?_) entries'
  · split
    · exact plain value text
    · rfl
  · rw [under]
    split
    · exact each entry.2 ((Value.well_keyed_entries_iff entries).1 wellKeyed.2 entry member).2 new
    · exact becomes_inner_iff entry.2 new

theorem entries_become_components_iff {entries : Mapping}
    (wellKeyed : (Value.mapping entries).WellKeyed) (entries' : Mapping) :
    EntriesBecome lead targets .components entries entries' ↔
      entries' = mapReferencesEntries (Rules.ofTargets lead targets).reference
        ((Rules.ofTargets lead targets).renameSections entries) := by
  rw [entries_become_under_iff (fun _ => rfl) (fun _ _ => on_definitions_eq_string _)
    (fun _ => becomes_definitions_iff) wellKeyed, Rules.rename_sections_eq, Rules.on_sections_eq_map]
  simp only [sections, List.any_cons, List.any_nil, Bool.or_false, Section.name, apply_ite]

theorem entries_become_document_iff {entries : Mapping}
    (wellKeyed : (Value.mapping entries).WellKeyed) (entries' : Mapping) :
    EntriesBecome lead targets .document entries entries' ↔
      entries' = mapReferencesEntries (Rules.ofTargets lead targets).reference
        (entries.adjust "components" (Value.underTags (Rules.onDefinitions
          (Rules.ofTargets lead targets).renameSections))) := by
  rw [entries_become_under_iff (fun _ => rfl) (fun _ _ => under_tags_eq_string _)
    (becomes_under_tags_iff rfl (by simp) fun _ => entries_become_components_iff) wellKeyed]
  simp only [Mapping.adjust, apply_ite]

/-- A document becomes what the rules make of it and nothing else. -/
theorem becomes_document_iff {root : Value} (wellKeyed : root.WellKeyed) (new : Value) :
    Becomes lead targets .document root new ↔ new = (Rules.ofTargets lead targets).tree root := by
  rw [Rules.tree_eq _ wellKeyed]
  exact becomes_under_tags_iff rfl (by simp) (fun _ => entries_become_document_iff) root wellKeyed new

/-- As many entries are lost as new names meet an equal one. -/
theorem length_definitions_of_tree (rules : Rules) {root : Value} (wellKeyed : root.WellKeyed)
    (s : Section) :
    (Rules.definitionsOf root s).length = (Rules.definitionsOf (rules.tree root) s).length +
      (rules.collisions (Rules.definitionsOf root s)).length := by
  have sizes := Mapping.length_insert_all_add_replaced []
    (rules.renamedEntries (Rules.definitionsOf root s))
  rw [List.length_nil, Nat.zero_add, Rules.length_renamed_entries] at sizes
  rw [Rules.definitions_of_tree rules wellKeyed, map_references_entries_eq_map, List.length_map,
    Rules.definitions, Rules.collisions, Mapping.ofEntries, sizes]

/-- What renaming does to a document: its definitions get the new names of their keys, the
references that name a target follow, and everything else is as before. Each definition that is lost
to another one of the same new name is logged. -/
theorem becomes_apply_tree {root : Value} (wellKeyed : root.WellKeyed) (lead : String)
    (targets : List String) :
    let renamed := (Rules.ofTargets lead targets).applyTree root
    (∀ new, Becomes lead targets .document root new ↔ new = renamed.value) ∧
      ∃ (met : Section → List Value) (applied : Rules),
        renamed.log = (met .schemas ++ met .messages).map .collided ++
          applied.map (fun rule => .renamed rule.target rule.replacement) ∧
        ∀ s, (Rules.definitionsOf root s).length =
          (Rules.definitionsOf renamed.value s).length + (met s).length := by
  intro renamed
  refine ⟨becomes_document_iff wellKeyed, ?_⟩
  cases none : (Rules.ofTargets lead targets).isEmpty with
  | true =>
      refine ⟨fun _ => [], [], ?_, fun s => ?_⟩
      · simp [renamed, Rules.applyTree, Rules.treeLog, none]
      · simp [renamed, Rules.applyTree, Rules.tree, none]
  | false =>
      refine ⟨fun s => (Rules.ofTargets lead targets).collisions (Rules.definitionsOf root s),
        (Rules.ofTargets lead targets).filter fun rule =>
          (Rules.ofTargets lead targets).matchesTree root rule, ?_,
        length_definitions_of_tree _ wellKeyed⟩
      simp [renamed, Rules.applyTree, Rules.treeLog, none, sections]

/-- Tagged components, a number and a string among the keys that get new names, two definitions that
meet, and a name that merely contains a target. -/
theorem becomes_apply_tree_merged :
    let reference (text : String) : Value := .mapping [(.string "$ref", .string text)]
    let root : Value := .mapping [
      (.string "components", .tagged ⟨"c"⟩ (.mapping [(.string "schemas", .mapping [
        (.string "T", reference "T"), (.number (.int 7), .null),
        (.string "RealtimeT", reference "#/components/schemas/MyT"), (.string "MyT", .null)])])),
      (.string "x", .sequence [reference "#/components/schemas/T", reference "#/paths/T"])]
    let new : Value := .mapping [
      (.string "components", .tagged ⟨"c"⟩ (.mapping [(.string "schemas", .mapping [
        (.string "RealtimeT", reference "#/components/schemas/MyT"), (.string "Realtime7", .null),
        (.string "MyT", .null)])])),
      (.string "x", .sequence [reference "#/components/schemas/RealtimeT", reference "#/paths/T"])]
    root.WellKeyed ∧ Becomes "Realtime" ["T", "7"] .document root new ∧
      ∃ met : Section → List Value, (met .schemas).length = 1 ∧
        ∀ key ∈ met .schemas,
          .collided key ∈ ((Rules.ofTargets "Realtime" ["T", "7"]).applyTree root).log := by
  intro reference root new
  have wellKeyed : root.WellKeyed := by
    simp [root, reference, Value.WellKeyed, Value.WellKeyedEntries, Value.WellKeyedItems,
      Value.same]
  have rules : Rules.ofTargets "Realtime" ["T", "7"] = [⟨"T", "Realtime"⟩, ⟨"7", "Realtime"⟩] :=
    Rules.of_targets_of_sorted _ (by decide) (by decide) (by decide +kernel)
  have value : new = ((Rules.ofTargets "Realtime" ["T", "7"]).applyTree root).value := by
    rw [rules]
    rfl
  obtain ⟨single, met, applied, logged, sizes⟩ := becomes_apply_tree wellKeyed "Realtime" ["T", "7"]
  refine ⟨wellKeyed, (single new).2 value, met, ?_, ?_⟩
  · have size := sizes .schemas
    rw [← value] at size
    have before : (Rules.definitionsOf root .schemas).length = 4 := rfl
    have after : (Rules.definitionsOf new .schemas).length = 3 := rfl
    omega
  · intro key member
    rw [logged]
    simp [member]

end Rename

end MessageSchema
