import MessageSchema.Proofs.References

/-!
Where references stand. A string under the key of references is one wherever its mapping stands,
inside a key too, and whether or not the string is tagged. A change of references reaches the plain
strings outside keys. It misses the others, and leaves them as they are.
-/

namespace MessageSchema.Rename

set_option autoImplicit false

open Yaml

/-- A reference stands somewhere in a value. -/
inductive Refers (reference : String) : Value → Prop where
  | entry {entries : Mapping} {key value : Value} (member : (key, value) ∈ entries)
      (introduces : key.text? = some "$ref") (given : value.text? = some reference) :
      Refers reference (.mapping entries)
  | key {entries : Mapping} {key value : Value} (member : (key, value) ∈ entries)
      (inside : Refers reference key) : Refers reference (.mapping entries)
  | value {entries : Mapping} {key value : Value} (member : (key, value) ∈ entries)
      (inside : Refers reference value) : Refers reference (.mapping entries)
  | item {items : List Value} {item : Value} (member : item ∈ items)
      (inside : Refers reference item) : Refers reference (.sequence items)
  | tagged {tag : Tag} {value : Value} (inside : Refers reference value) :
      Refers reference (.tagged tag value)

/-- A reference stands where a change of references gets at it: it is a plain string, and no key is on
the way to it. -/
inductive Reached (reference : String) : Value → Prop where
  | entry {entries : Mapping} {key : Value} (member : (key, .string reference) ∈ entries)
      (introduces : key.text? = some "$ref") : Reached reference (.mapping entries)
  | value {entries : Mapping} {key value : Value} (member : (key, value) ∈ entries)
      (inside : Reached reference value) : Reached reference (.mapping entries)
  | item {items : List Value} {item : Value} (member : item ∈ items)
      (inside : Reached reference item) : Reached reference (.sequence items)
  | tagged {tag : Tag} {value : Value} (inside : Reached reference value) :
      Reached reference (.tagged tag value)

/-- A reference stands where a change of references does not get at it: it is tagged, or inside a
key. -/
inductive Missed (reference : String) : Value → Prop where
  | entry {entries : Mapping} {key value : Value} {tag : Tag}
      (member : (key, .tagged tag value) ∈ entries) (introduces : key.text? = some "$ref")
      (given : value.text? = some reference) : Missed reference (.mapping entries)
  | key {entries : Mapping} {key value : Value} (member : (key, value) ∈ entries)
      (inside : Refers reference key) : Missed reference (.mapping entries)
  | value {entries : Mapping} {key value : Value} (member : (key, value) ∈ entries)
      (inside : Missed reference value) : Missed reference (.mapping entries)
  | item {items : List Value} {item : Value} (member : item ∈ items)
      (inside : Missed reference item) : Missed reference (.sequence items)
  | tagged {tag : Tag} {value : Value} (inside : Missed reference value) :
      Missed reference (.tagged tag value)

variable {reference : String}

theorem Reached.refers {value : Value} (reached : Reached reference value) :
    Refers reference value := by
  induction reached with
  | entry member introduces => exact .entry member introduces rfl
  | value member _ ih => exact .value member ih
  | item member _ ih => exact .item member ih
  | tagged _ ih => exact .tagged ih

theorem Missed.refers {value : Value} (missed : Missed reference value) :
    Refers reference value := by
  induction missed with
  | entry member introduces given => exact .entry member introduces given
  | key member inside => exact .key member inside
  | value member _ ih => exact .value member ih
  | item member _ ih => exact .item member ih
  | tagged _ ih => exact .tagged ih

/-- Every reference is either reached or missed where it stands. -/
theorem refers_iff (value : Value) :
    Refers reference value ↔ Reached reference value ∨ Missed reference value := by
  constructor
  · intro refers
    induction refers with
    | @entry entries key value member introduces given =>
        cases value with
        | string text =>
            have same : text = reference := Option.some.inj given
            exact Or.inl (.entry (same ▸ member) introduces)
        | tagged tag inner => exact Or.inr (.entry member introduces given)
        | _ => cases given
    | key member inside => exact Or.inr (.key member inside)
    | value member _ ih => exact ih.imp (.value member) (.value member)
    | item member _ ih => exact ih.imp (.item member) (.item member)
    | tagged _ ih => exact ih.imp .tagged .tagged
  · rintro (reached | missed)
    · exact reached.refers
    · exact missed.refers

/-! ### One layer at a time -/

theorem refers_mapping_iff (entries : Mapping) :
    Refers reference (.mapping entries) ↔ ∃ entry ∈ entries,
      (entry.1.text? = some "$ref" ∧ entry.2.text? = some reference) ∨
        Refers reference entry.1 ∨ Refers reference entry.2 := by
  constructor
  · intro refers
    cases refers with
    | entry member introduces given => exact ⟨_, member, Or.inl ⟨introduces, given⟩⟩
    | key member inside => exact ⟨_, member, Or.inr (Or.inl inside)⟩
    | value member inside => exact ⟨_, member, Or.inr (Or.inr inside)⟩
  · rintro ⟨entry, member, ⟨introduces, given⟩ | inside | inside⟩
    · exact .entry member introduces given
    · exact .key member inside
    · exact .value member inside

theorem missed_mapping_iff (entries : Mapping) :
    Missed reference (.mapping entries) ↔ ∃ entry ∈ entries,
      (entry.1.text? = some "$ref" ∧ entry.2.text? = some reference ∧
        entry.2 ≠ .string reference) ∨ Refers reference entry.1 ∨ Missed reference entry.2 := by
  constructor
  · intro missed
    cases missed with
    | entry member introduces given => exact ⟨_, member, Or.inl ⟨introduces, given, by simp⟩⟩
    | key member inside => exact ⟨_, member, Or.inr (Or.inl inside)⟩
    | value member inside => exact ⟨_, member, Or.inr (Or.inr inside)⟩
  · rintro ⟨⟨key, value⟩, member, ⟨introduces, given, tagged⟩ | inside | inside⟩
    · cases value with
      | string text =>
          have same : text = reference := Option.some.inj given
          exact absurd (congrArg Value.string same) tagged
      | tagged tag inner => exact .entry member introduces given
      | _ => cases given
    · exact .key member inside
    · exact .value member inside

theorem refers_sequence_iff (items : List Value) :
    Refers reference (.sequence items) ↔ ∃ item ∈ items, Refers reference item := by
  constructor
  · intro refers
    cases refers with
    | item member inside => exact ⟨_, member, inside⟩
  · rintro ⟨item, member, inside⟩
    exact .item member inside

theorem missed_sequence_iff (items : List Value) :
    Missed reference (.sequence items) ↔ ∃ item ∈ items, Missed reference item := by
  constructor
  · intro missed
    cases missed with
    | item member inside => exact ⟨_, member, inside⟩
  · rintro ⟨item, member, inside⟩
    exact .item member inside

theorem missed_tagged_iff (tag : Tag) (value : Value) :
    Missed reference (.tagged tag value) ↔ Missed reference value := by
  constructor
  · intro missed
    cases missed with
    | tagged inside => exact inside
  · exact .tagged

theorem not_refers_string (text : String) : ¬Refers reference (.string text) := nofun

theorem not_refers_number (number : Number) : ¬Refers reference (.number number) := nofun

theorem not_missed_string (text : String) : ¬Missed reference (.string text) :=
  fun missed => not_refers_string text missed.refers

/-! ### What a change of references does -/

theorem references_items_eq_flat_map (items : List Value) :
    referencesItems items = items.flatMap references := by
  induction items with
  | nil => rfl
  | cons item rest ih => rw [referencesItems, ih, List.flatMap_cons]

theorem introduces_iff (key : Value) : isReferenceKey key = true ↔ key.text? = some "$ref" :=
  beq_iff_eq

theorem Reached.mem {value : Value} (reached : Reached reference value) :
    reference ∈ references value := by
  induction reached with
  | @entry entries key member introduces =>
      rw [references, references_entries_eq_flat_map]
      refine List.mem_flatMap.2 ⟨_, member, ?_⟩
      simp only [referencesUnder, (introduces_iff key).2 introduces, List.mem_singleton]
  | value member _ ih => exact references_subset_of_entry member _ ih
  | item member _ ih =>
      rw [references, references_items_eq_flat_map]
      exact List.mem_flatMap.2 ⟨_, member, ih⟩
  | tagged _ ih => exact ih

theorem mem_references_under {key value : Value} (member : reference ∈ referencesUnder key value) :
    key.text? = some "$ref" ∧ value = .string reference ∨ reference ∈ references value := by
  unfold referencesUnder at member
  split at member
  · next introduces =>
      rw [List.mem_singleton.1 member]
      exact Or.inl ⟨(introduces_iff key).1 introduces, rfl⟩
  · exact Or.inr member

/-- Induction on a value, through the items of sequences and the values of mappings. -/
@[elab_as_elim]
theorem value_induction {holds : Value → Prop} (null : holds .null) (bool : ∀ b, holds (.bool b))
    (number : ∀ n, holds (.number n)) (string : ∀ text, holds (.string text))
    (sequence : ∀ items, (∀ item ∈ items, holds item) → holds (.sequence items))
    (mapping : ∀ entries : Mapping, (∀ entry ∈ entries, holds entry.2) → holds (.mapping entries))
    (tagged : ∀ tag value, holds value → holds (.tagged tag value)) (value : Value) :
    holds value := by
  cases value with
  | null => exact null
  | bool b => exact bool b
  | number n => exact number n
  | string text => exact string text
  | sequence items =>
      apply sequence
      intro item member
      exact value_induction null bool number string sequence mapping tagged item
  | mapping entries =>
      apply mapping
      intro entry member
      exact value_induction null bool number string sequence mapping tagged entry.2
  | tagged tag value =>
      apply tagged
      exact value_induction null bool number string sequence mapping tagged value
termination_by sizeOf value
decreasing_by
  · have smaller := List.sizeOf_lt_of_mem member
    rw [Value.sequence.sizeOf_spec]
    omega
  · have smaller := List.sizeOf_lt_of_mem member
    rcases entry with ⟨key, value⟩
    rw [Prod.mk.sizeOf_spec] at smaller
    rw [Value.mapping.sizeOf_spec]
    show sizeOf value < _
    omega
  · rw [Value.tagged.sizeOf_spec]
    omega

theorem reached_of_mem (value : Value) (member : reference ∈ references value) :
    Reached reference value := by
  induction value using value_induction with
  | sequence items each =>
      rw [references, references_items_eq_flat_map] at member
      rcases List.mem_flatMap.1 member with ⟨item, inside, found⟩
      exact .item inside (each item inside found)
  | mapping entries each =>
      rw [references, references_entries_eq_flat_map] at member
      rcases List.mem_flatMap.1 member with ⟨entry, inside, found⟩
      rcases mem_references_under found with ⟨introduces, same⟩ | within
      · exact .entry (same ▸ inside) introduces
      · exact .value inside (each entry inside within)
  | tagged tag value ih => exact .tagged (ih member)
  | _ => cases member

/-- The references that are listed are those that are reached. -/
theorem reached_iff (value : Value) : Reached reference value ↔ reference ∈ references value :=
  ⟨Reached.mem, reached_of_mem value⟩

variable (change : String → String)

theorem reached_map_references (value : Value) :
    Reached reference (mapReferences change value) ↔
      ∃ source, Reached source value ∧ change source = reference := by
  simp only [reached_iff, references_map_references, List.mem_map]

theorem text_map_references (value : Value) : (mapReferences change value).text? = value.text? := by
  unfold Value.text?
  rw [untag_map_references]
  cases value.untag <;> rfl

/-- Under a key nothing is done to a value that is missed, whether or not the key introduces it. -/
theorem missed_map_under_iff {key value : Value}
    (inner : Missed reference (mapReferences change value) ↔ Missed reference value) :
    Missed reference (mapUnder change key value) ↔ Missed reference value := by
  unfold mapUnder
  split
  · exact ⟨fun missed => absurd missed (not_missed_string _),
      fun missed => absurd missed (not_missed_string _)⟩
  · exact inner

theorem map_under_cases (key value : Value) :
    (∃ text new : String, value = .string text ∧ mapUnder change key value = .string new) ∨
      mapUnder change key value = mapReferences change value := by
  unfold mapUnder
  split
  · exact Or.inl ⟨_, _, rfl, rfl⟩
  · exact Or.inr rfl

theorem string_of_map_references {value : Value} {text : String}
    (string : mapReferences change value = .string text) : value = .string text := by
  cases value with
  | string _ => exact string
  | _ => cases string

theorem not_hidden_string (text : String) :
    ¬((Value.string text).text? = some reference ∧ Value.string text ≠ .string reference) := by
  rintro ⟨given, other⟩
  exact other (congrArg Value.string (Option.some.inj given))

/-- A tagged string stays one, and nothing else becomes one. -/
theorem hidden_map_under_iff (key value : Value) :
    (mapUnder change key value).text? = some reference ∧
        mapUnder change key value ≠ .string reference ↔
      value.text? = some reference ∧ value ≠ .string reference := by
  rcases map_under_cases change key value with ⟨text, new, rfl, same⟩ | same
  · rw [same]
    exact iff_of_false (not_hidden_string new) (not_hidden_string text)
  · rw [same, text_map_references]
    apply and_congr_right
    intro _
    apply not_congr
    constructor
    · exact string_of_map_references change
    · rintro rfl
      rfl

theorem missed_map_references (value : Value) :
    Missed reference (mapReferences change value) ↔ Missed reference value := by
  induction value using value_induction with
  | sequence items each =>
      rw [mapReferences, map_references_items_eq_map, missed_sequence_iff, missed_sequence_iff]
      simp only [List.mem_map, exists_exists_and_eq_and]
      exact exists_congr fun item => and_congr_right fun member => each item member
  | mapping entries each =>
      rw [mapReferences, map_references_entries_eq_map, missed_mapping_iff, missed_mapping_iff]
      simp only [List.mem_map, exists_exists_and_eq_and]
      apply exists_congr
      intro entry
      apply and_congr_right
      intro member
      exact or_congr (and_congr_right fun introduces => hidden_map_under_iff change entry.1 entry.2)
        (or_congr_right (missed_map_under_iff change (each entry member)))
  | tagged tag value ih => rw [mapReferences, missed_tagged_iff, missed_tagged_iff, ih]
  | _ => exact Iff.rfl

theorem missed_map_under (key value : Value) :
    Missed reference (mapUnder change key value) ↔ Missed reference value :=
  missed_map_under_iff change (missed_map_references change value)

theorem reached_map_under {key value : Value} (reached : Reached reference (mapUnder change key value)) :
    ∃ source, Reached source value ∧ change source = reference := by
  rcases references_map_under change key value reference reached.mem with ⟨source, member, same⟩
  exact ⟨source, reached_of_mem value member, same⟩

theorem Reached.map_under {key value : Value} (reached : Reached reference value) :
    Reached (change reference) (mapUnder change key value) := by
  rcases map_under_cases change key value with ⟨text, new, rfl, same⟩ | same
  · exact absurd reached.refers (not_refers_string text)
  · rw [same]
    exact (reached_map_references change value).2 ⟨reference, reached, rfl⟩

/-! ### Parts of a document -/

/-- What holds of a mapping when it holds of one of its values, and of a tagged value when it holds of
the value, holds of a document when it does of a value that is looked up in it. -/
theorem holds_of_get {holds : Value → Prop}
    (mapping : ∀ (entries : Mapping) (key value : Value), (key, value) ∈ entries → holds value →
      holds (.mapping entries))
    (tagged : ∀ (tag : Tag) (value : Value), holds value → holds (.tagged tag value))
    {value found : Value} {name : String} (seen : value.get? name = some found)
    (inside : holds found) : holds value := by
  have untagged : ∀ value : Value, holds value.untag → holds value := by
    intro value given
    induction value using Value.untag.induct with
    | case1 tag value ih => exact tagged tag value (ih given)
    | case2 value other =>
        unfold Value.untag at given
        split at given
        · next tag inner => exact absurd rfl (other tag inner)
        · exact given
  rcases Option.bind_eq_some_iff.1 seen with ⟨entries, opened, hit⟩
  rcases Option.map_eq_some_iff.1 hit with ⟨entry, first, rfl⟩
  unfold Value.entries? at opened
  split at opened
  · next whole untag =>
      cases opened
      apply untagged
      rw [untag]
      exact mapping _ entry.1 entry.2 (List.mem_of_find?_eq_some first) inside
  · cases opened

end MessageSchema.Rename
