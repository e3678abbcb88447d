import MessageSchema.Proofs.OutputSchemas
import MessageSchema.Proofs.ReferenceOccurrences
import MessageSchema.Proofs.RenamedValues

/-!
References of a run point at what they pointed at before, if renaming gets at them. Every body of the
output is a body of the description with its references changed, every reference that is reached is
changed the way its definition is, and no definition is lost on the way to the output. A reference
that is missed keeps its name, so it is lost with a definition that is renamed.
-/

namespace MessageSchema

set_option autoImplicit false

open Yaml Rename

def schemaReference (name : String) : String := "#/components/schemas/" ++ name

theorem schema_reference_injective : Function.Injective schemaReference := by
  intro a b same
  exact (String.append_right_inj _).1 same

namespace Rename

theorem split_last_schema_reference {name : String} (clean : '/' ∉ name.toList) :
    splitLast (schemaReference name).toList = ("#/components/schemas/".toList, name.toList) := by
  have ends : "#/components/schemas/".toList.getLast? = some '/' := by simp
  have parts := split_last_of_append clean (Or.inr ends)
  rwa [← String.toList_append] at parts

theorem definition_schema_reference {name : String} (clean : '/' ∉ name.toList) :
    definition? (schemaReference name) = some name := by
  have leads : leadsToDefinition "#/components/schemas/".toList = true := by rfl
  simp only [definition?, split_last_schema_reference clean, leads, if_true, String.ofList_toList]

theorem with_definition_schema_reference {name : String} (clean : '/' ∉ name.toList)
    (new : String) : withDefinition (schemaReference name) new = schemaReference new := by
  unfold withDefinition
  rw [split_last_schema_reference clean, ← String.toList_append, String.ofList_toList]
  rfl

theorem reference_schema_reference (rules : Rules) {name : String} (clean : '/' ∉ name.toList) :
    rules.reference (schemaReference name) = schemaReference (rules.rename name) := by
  unfold Rules.rename
  cases renamed : rules.replacement? name with
  | some new =>
      rw [Rules.reference_of_definition (definition_schema_reference clean) renamed]
      exact with_definition_schema_reference clean new
  | none =>
      apply Rules.reference_of_kept
      rw [definition_schema_reference clean, Option.bind_some, renamed]

theorem schema_reference_of_reference {rules : Rules} {reference new : String}
    (cleanRules : ∀ name new, '/' ∉ name.toList → rules.replacement? name = some new →
      '/' ∉ new.toList)
    (clean : '/' ∉ new.toList) (changed : rules.reference reference = schemaReference new) :
    ∃ name, '/' ∉ name.toList ∧ reference = schemaReference name ∧ rules.rename name = new := by
  cases kept : (definition? reference).bind rules.replacement? with
  | none =>
      rw [Rules.reference_of_kept kept] at changed
      refine ⟨new, clean, changed, ?_⟩
      rw [changed, definition_schema_reference clean, Option.bind_some] at kept
      rw [Rules.rename, kept, Option.getD_none]
  | some given =>
      obtain ⟨name, named, renamed⟩ := Option.bind_eq_some_iff.1 kept
      have cleanName := slash_not_mem_of_definition named
      have cleanGiven := cleanRules name given cleanName renamed
      rw [Rules.reference_of_definition named renamed] at changed
      -- Both spellings of the changed reference fall apart at the same last slash.
      have parts := split_last_with_definition reference cleanGiven
      rw [changed, split_last_schema_reference clean, Prod.mk.injEq] at parts
      have same : given = new := String.toList_inj.1 parts.2.symm
      have step : (splitLast reference.toList).2 = name.toList := by
        simp only [definition?] at named
        split at named
        · rw [← Option.some.inj named, String.toList_ofList]
        · contradiction
      have whole := split_last_append reference.toList
      rw [← parts.1, step, ← String.toList_append] at whole
      exact ⟨name, cleanName, (String.toList_inj.1 whole).symm, by
        rw [Rules.rename, renamed, Option.getD_some, same]⟩

/-- What a description says in one of its sections it says in the document. -/
theorem holds_of_section {holds : Value → Prop}
    (mapping : ∀ (entries : Mapping) (key value : Value), (key, value) ∈ entries → holds value →
      holds (.mapping entries))
    (tagged : ∀ (tag : Tag) (value : Value), holds value → holds (.tagged tag value))
    {spec : Spec} (s : Section) {entry : Value × Value} (member : entry ∈ spec.sectionEntries s.name)
    (inside : holds entry.2) : holds spec.root := by
  rw [← spec.entries_eq_section_entries] at member
  rcases spec.entries_cases s with none | ⟨components, outer, inner⟩
  · rw [none] at member
    cases member
  · apply holds_of_get mapping tagged outer
    rcases Option.map_eq_some_iff.1 inner with ⟨found, first, same⟩
    apply mapping components found.1 found.2 (List.mem_of_find?_eq_some first)
    rw [same]
    exact mapping _ entry.1 entry.2 member inside

theorem Reached.of_section {spec : Spec} (s : Section) {entry : Value × Value}
    (member : entry ∈ spec.sectionEntries s.name) {reference : String}
    (inside : Reached reference entry.2) : Reached reference spec.root :=
  holds_of_section (fun _ _ _ => .value) (fun _ _ => .tagged) s member inside

theorem Missed.of_section {spec : Spec} (s : Section) {entry : Value × Value}
    (member : entry ∈ spec.sectionEntries s.name) {reference : String}
    (inside : Missed reference entry.2) : Missed reference spec.root :=
  holds_of_section (fun _ _ _ => .value) (fun _ _ => .tagged) s member inside

end Rename

namespace Spec

theorem respelled_eq_string_iff (key : Value) (name : String) :
    respelled key = .string name ↔ key.spelling? = some name := by
  unfold respelled
  split
  · next given spelled => simp [spelled]
  · next unspelled =>
      constructor
      · rintro rfl
        simp [Value.spelling?] at unspelled
      · intro spelled
        simp [spelled] at unspelled

theorem respelled_key (rules : Rules) {key : Value} {name : String}
    (spelled : key.spelling? = some name) :
    respelled (rules.key key) = .string (rules.rename name) := by
  rw [respelled_eq_string_iff, rules.spelling_key, spelled, Option.map_some]

end Spec

namespace Rename.Rules

/-- An entry of a renamed section has the new key of the first entry that gets an equal one, and the
body of the last with its references changed. -/
theorem entry_of_renamed (rules : Rules) {root : Value} (wellKeyed : root.WellKeyed) {s : Section}
    {entry : Value × Value} (member : entry ∈ (Spec.mk (rules.tree root)).entries s) :
    (∃ first ∈ (Spec.mk root).entries s, entry.1 = rules.key first.1) ∧
      ∃ last ∈ (Spec.mk root).entries s, entry.1.same (rules.key last.1) = true ∧
        entry.2 = mapUnder rules.reference entry.1 last.2 := by
  rw [Spec.entries_tree rules wellKeyed, map_references_entries_eq_map] at member
  obtain ⟨renamed, renamedMember, rfl⟩ := List.mem_map.1 member
  obtain ⟨source, sourceMember, key⟩ := Mapping.mem_keys_of_entries renamedMember
  obtain ⟨first, firstMember, rfl⟩ := List.mem_map.1 sourceMember
  obtain ⟨source, sourceMember, value, equal⟩ := Mapping.source_of_mem_of_entries renamedMember
  obtain ⟨last, lastMember, rfl⟩ := List.mem_map.1 sourceMember
  exact ⟨⟨first, firstMember, key.symm⟩, last, lastMember, equal, by rw [← value]⟩

/-- What stands in a section after renaming stood there before under a key that is now equal to its
own, and has had its references changed. -/
theorem origin_of_renamed (rules : Rules) {root : Value} (wellKeyed : root.WellKeyed) {s : Section}
    {entry : Value × Value} (member : entry ∈ (Spec.mk (rules.tree root)).entries s) :
    ∃ origin ∈ (Spec.mk root).entries s,
      entry.2 = mapUnder rules.reference (rules.key origin.1) origin.2 := by
  obtain ⟨_, last, lastMember, equal, value⟩ := rules.entry_of_renamed wellKeyed member
  exact ⟨last, lastMember, value.trans (map_under_of_same _ equal _)⟩

theorem keys_spelled_schemas_tree (rules : Rules) {root : Value} (wellKeyed : root.WellKeyed) :
    Mapping.keys (Spec.mk (rules.tree root)).spelledSchemas =
      (Value.firsts (((Spec.mk root).entries .schemas).map fun entry => rules.key entry.1)).map
        Spec.respelled := by
  have keys : Mapping.keys (rules.definitions ((Spec.mk root).entries .schemas)) =
      Value.firsts (((Spec.mk root).entries .schemas).map fun entry => rules.key entry.1) := by
    rw [definitions, Mapping.keys_of_entries, renamedEntries, Mapping.keys, List.map_map]
    rfl
  rw [← keys, Spec.spelled_schemas_eq, Spec.entries_tree rules wellKeyed, Mapping.keys,
    Mapping.mapKeys, List.map_map, map_references_entries_eq_map, List.map_map, Mapping.keys,
    List.map_map]
  rfl

theorem key_eq_of_same {rules : Rules} {entries : Mapping} (distinct : Mapping.Distinct entries)
    (keyed : Mapping.Keyed entries) {a b : Value × Value} (memberA : a ∈ entries)
    (memberB : b ∈ entries) (equal : (rules.key a.1).same (rules.key b.1) = true) :
    rules.key a.1 = rules.key b.1 := by
  rcases rules.key_cases a.1 with keptA | ⟨_, new, _, renamedA⟩
  · rcases rules.key_cases b.1 with keptB | ⟨_, new, _, renamedB⟩
    · rw [keptA, keptB] at equal
      rw [Mapping.eq_of_same distinct keyed memberA memberB equal]
    · rw [renamedB] at equal ⊢
      exact Value.same_string.1 equal
  · rw [renamedA] at equal ⊢
    exact Value.string_same.1 equal

/-- No definition gets lost by renaming: under the new name of each there is one. -/
theorem rename_mem_keys (rules : Rules) {root : Value} (wellKeyed : root.WellKeyed)
    {entry : Value × Value} {name : String} (member : entry ∈ (Spec.mk root).entries .schemas)
    (spelled : entry.1.spelling? = some name) :
    .string (rules.rename name) ∈ Mapping.keys (Spec.mk (rules.tree root)).spelledSchemas := by
  obtain ⟨distinct, keyed⟩ := Spec.distinct_entries wellKeyed .schemas
  have listed : rules.key entry.1 ∈
      ((Spec.mk root).entries .schemas).map fun entry => rules.key entry.1 :=
    List.mem_map_of_mem member
  obtain ⟨first, firstMember, equal⟩ := Value.equal_mem_firsts listed
  obtain ⟨other, otherMember, rfl⟩ := List.mem_map.1 (Value.mem_of_mem_firsts firstMember)
  have same := key_eq_of_same distinct keyed otherMember member equal
  rw [keys_spelled_schemas_tree rules wellKeyed, ← Spec.respelled_key rules spelled, ← same]
  exact List.mem_map_of_mem firstMember

end Rename.Rules

namespace Spec

/-- No two schemas have the same spelling once the rules have been applied. -/
def SpelledApart (spec : Spec) (rules : Rules) : Prop :=
  (rules.renamedEntries (spec.entries .schemas)).Pairwise fun a b =>
    ∀ name, a.1.spelling? = some name → b.1.spelling? ≠ some name

theorem distinct_renamed {spec : Spec} {rules : Rules} (wellKeyed : spec.root.WellKeyed)
    (apart : spec.SpelledApart rules) :
    Mapping.Distinct (rules.renamedEntries (spec.entries .schemas)) := by
  have distinct := (distinct_entries wellKeyed .schemas).1
  refine List.pairwise_map.2 ((distinct.and (List.pairwise_map.1 apart)).imp ?_)
  rintro a b ⟨different, unlike⟩
  rw [← Bool.not_eq_true]
  intro equal
  rcases rules.key_cases a.1 with keptA | ⟨_, new, _, renamedA⟩
  · rcases rules.key_cases b.1 with keptB | ⟨_, new, _, renamedB⟩
    · simp [keptA, keptB, different] at equal
    · have met : rules.key a.1 = .string new := Value.same_string.1 (renamedB ▸ equal)
      exact unlike new (by rw [met]; rfl) (by rw [renamedB]; rfl)
  · have met : Value.string new = rules.key b.1 := Value.string_same.1 (renamedA ▸ equal)
    exact unlike new (by rw [renamedA]; rfl) (by rw [← met]; rfl)

theorem distinct_respelled {spec : Spec} {rules : Rules} (wellKeyed : spec.root.WellKeyed)
    (apart : spec.SpelledApart rules) :
    Mapping.Distinct
      (Mapping.mapKeys respelled (rules.renamedEntries (spec.entries .schemas))) := by
  have distinct := distinct_renamed wellKeyed apart
  refine List.pairwise_map.2 ((distinct.and apart).imp ?_)
  rintro a b ⟨different, unlike⟩
  rw [← Bool.not_eq_true]
  intro equal
  cases spelledA : a.1.spelling? with
  | some name =>
      have given := (respelled_eq_string_iff a.1 name).2 spelledA
      simp only [given, Value.string_same] at equal
      exact unlike name spelledA ((respelled_eq_string_iff b.1 name).1 equal.symm)
  | none =>
      have keptA : respelled a.1 = a.1 := by simp [respelled, spelledA]
      cases spelledB : b.1.spelling? with
      | some name =>
          have given := (respelled_eq_string_iff b.1 name).2 spelledB
          simp only [given, keptA, Value.same_string] at equal
          simp [equal, Value.spelling?] at spelledA
      | none =>
          have keptB : respelled b.1 = b.1 := by simp [respelled, spelledB]
          simp [keptA, keptB, different] at equal

/-- What a payload schema is made from, before its references are changed. -/
def payloadOf (value : Value) : Value := (value.get? "payload").getD (.mapping [])

theorem mem_named_payloads {spec : Spec} {named : Value × Value}
    (member : named ∈ spec.namedPayloads) :
    ∃ entry ∈ spec.entries .messages, ∃ name, entry.1.spelling? = some name ∧
      named = (.string name, payloadOf entry.2) := by
  rw [named_payloads_eq] at member
  obtain ⟨entry, entryMember, given⟩ := List.mem_filterMap.1 member
  obtain ⟨name, spelled, same⟩ := Option.map_eq_some_iff.1 given
  exact ⟨entry, entryMember, name, spelled, same.symm⟩

theorem payload_of_map_under (change : String → String) (key value : Value) :
    payloadOf (mapUnder change key value) = mapReferences change (payloadOf value) := by
  have inside : (mapUnder change key value).get? "payload" =
      (value.get? "payload").map (mapReferences change) := by
    unfold mapUnder
    split
    · rfl
    · exact get_map_references_of_other change _ (show "payload" ≠ referenceKey by decide)
  unfold payloadOf
  rw [inside]
  cases value.get? "payload" <;> rfl

theorem spelled_schemas_tree {spec : Spec} {rules : Rules} (wellKeyed : spec.root.WellKeyed)
    (apart : spec.SpelledApart rules) :
    (Spec.mk (rules.tree spec.root)).spelledSchemas =
      (spec.entries .schemas).map fun entry =>
        (respelled (rules.key entry.1),
          mapUnder rules.reference (rules.key entry.1) entry.2) := by
  rw [spelled_schemas_eq, entries_tree rules wellKeyed, Rules.definitions,
    Mapping.of_entries_of_distinct (distinct_renamed wellKeyed apart), map_references_entries_eq_map,
    Mapping.mapKeys, Rules.renamedEntries, List.map_map, List.map_map]
  rfl

theorem distinct_spelled_schemas_tree {spec : Spec} {rules : Rules}
    (wellKeyed : spec.root.WellKeyed) (apart : spec.SpelledApart rules) :
    Mapping.Distinct (Spec.mk (rules.tree spec.root)).spelledSchemas := by
  have distinct := distinct_respelled wellKeyed apart
  rw [Mapping.mapKeys, Rules.renamedEntries, List.map_map] at distinct
  rw [spelled_schemas_tree wellKeyed apart]
  exact List.pairwise_map.2 (List.pairwise_map.1 distinct)

end Spec

namespace Rename

theorem entry_becomes_iff {lead : String} {targets : List String} (key old new : Value) :
    EntriesBecome lead targets .inner [(key, old)] [(key, new)] ↔
      new = mapUnder (Rules.ofTargets lead targets).reference key old := by
  have each := @entries_become_iff lead targets .inner (fun _ value => value)
    (fun _ _ _ => Iff.rfl) [(key, old)] (becomes_entries_iff _) [(key, new)]
  rw [each, map_references_entries_eq_map]
  simp

/-- What is said in the payload of a message is said in the message, if it is not said in an empty
mapping. -/
theorem holds_of_payload_of {holds : Value → Prop}
    (mapping : ∀ (entries : Mapping) (key value : Value), (key, value) ∈ entries → holds value →
      holds (.mapping entries))
    (tagged : ∀ (tag : Tag) (value : Value), holds value → holds (.tagged tag value))
    (empty : ¬holds (.mapping [])) {value : Value} (inside : holds (Spec.payloadOf value)) :
    holds value := by
  unfold Spec.payloadOf at inside
  cases found : value.get? "payload" with
  | some payload =>
      rw [found] at inside
      exact holds_of_get mapping tagged found inside
  | none =>
      rw [found] at inside
      exact absurd inside empty

theorem Reached.of_payload_of {reference : String} {value : Value}
    (inside : Reached reference (Spec.payloadOf value)) : Reached reference value :=
  holds_of_payload_of (fun _ _ _ => .value) (fun _ _ => .tagged)
    (by simp [reached_iff, references, referencesEntries]) inside

theorem Missed.of_payload_of {reference : String} {value : Value}
    (inside : Missed reference (Spec.payloadOf value)) : Missed reference value :=
  holds_of_payload_of (fun _ _ _ => .value) (fun _ _ => .tagged) (by simp [missed_mapping_iff]) inside

end Rename

namespace Spec

/-- The description has a schema of this name. -/
def Defines (spec : Spec) (name : String) : Prop :=
  ∃ entry ∈ spec.sectionEntries "schemas", entry.1.spelling? = some name

/-- All references to schemas, wherever in the description they stand, are to schemas that it has. -/
def Closed (spec : Spec) : Prop :=
  ∀ name, '/' ∉ name.toList → Refers (schemaReference name) spec.root → spec.Defines name

theorem defines_iff (spec : Spec) (name : String) :
    spec.Defines name ↔ .string name ∈ Mapping.keys spec.schemas := by
  have keys : Mapping.keys spec.schemas = Value.firsts (Mapping.keys spec.spelledSchemas) := by
    rw [spelled_schemas_eq]
    exact Mapping.keys_of_entries _
  have section_eq : spec.sectionEntries "schemas" = spec.entries .schemas :=
    (spec.entries_eq_section_entries .schemas).symm
  rw [keys, Value.string_mem_firsts_iff, spelled_schemas_eq, Mapping.keys, Mapping.mapKeys,
    List.map_map, List.mem_map, Defines, section_eq]
  apply exists_congr
  intro entry
  exact and_congr_right fun _ => (respelled_eq_string_iff _ _).symm

end Spec

/-- All references to schemas in the bodies of a catalog are to schemas that it has. -/
def Catalog.Closed (catalog : Catalog) : Prop :=
  ∀ entry ∈ catalog, ∀ name, '/' ∉ name.toList → Refers (schemaReference name) entry.2 →
    .string name ∈ Mapping.keys catalog

namespace Settings

/-- What a name is in the output. -/
def newName (s : Settings) (name : String) : String :=
  if name ∈ s.targets then s.lead ++ name else name

/-- No two schemas of the description have the same name in the output. -/
def SpelledApart (s : Settings) (spec : Spec) : Prop :=
  (spec.sectionEntries "schemas").Pairwise fun a b => ∀ name other,
    a.1.spelling? = some name → b.1.spelling? = some other → s.newName name ≠ s.newName other

/-- A body is what a schema of the description becomes. -/
def BodyBecomes (s : Settings) (source : Value × Value) (body : Value) : Prop :=
  ∃ key, KeyBecomes s.lead s.targets source.1 key ∧
    EntriesBecome s.lead s.targets .inner [(key, source.2)] [(key, body)]

/-- A body of the output is what a schema or the payload of a message becomes, or else the envelope or
an enumeration. -/
def Origin (s : Settings) (spec : Spec) (body : Value) : Prop :=
  (∃ source ∈ spec.sectionEntries "schemas", s.BodyBecomes source body) ∨
    (∃ source ∈ spec.sectionEntries "messages",
      Becomes s.lead s.targets .inner (Spec.payloadOf source.2) body) ∨
    body = messageEnvelope ∨ ∃ names, body = oneOf names

theorem body_becomes_iff (s : Settings) (source : Value × Value) (body : Value) :
    s.BodyBecomes source body ↔
      body = mapUnder s.rules.reference (s.rules.key source.1) source.2 := by
  constructor
  · rintro ⟨key, rekeyed, becomes⟩
    rw [(entry_becomes_iff _ _ _).1 becomes, (Rules.key_becomes_iff _ _).1 rekeyed]
    rfl
  · intro same
    exact ⟨_, (Rules.key_becomes_iff _ _).2 rfl, (entry_becomes_iff _ _ _).2 same⟩

theorem origin_of_shows {s : Settings} {spec : Spec} {catalog : Mapping}
    (wellKeyed : spec.root.WellKeyed) (shows : s.Shows ⟨s.rules.tree spec.root⟩ catalog) :
    ∀ entry ∈ catalog, s.Origin spec entry.2 := by
  intro entry member
  have body := (shows.body entry member).symm
  rcases Option.or_eq_some_iff.1 body with own | ⟨_, rest⟩
  · rcases Mapping.exists_of_last_at own with ⟨spelled, spelledMember, _, same⟩
    rw [Spec.spelled_schemas_eq] at spelledMember
    rcases List.mem_map.1 spelledMember with ⟨renamed, renamedMember, rfl⟩
    rcases s.rules.origin_of_renamed wellKeyed renamedMember with ⟨origin, originMember, value⟩
    rw [Spec.entries_eq_section_entries] at originMember
    exact Or.inl ⟨origin, originMember, (s.body_becomes_iff _ _).2 (same ▸ value)⟩
  · rcases Option.or_eq_some_iff.1 rest with synthetic | ⟨_, payload⟩
    · rcases Mapping.exists_of_value_at synthetic with ⟨source, sourceMember, _, same⟩
      simp only [Settings.synthetic, List.mem_cons, List.not_mem_nil, or_false] at sourceMember
      rw [← same]
      rcases sourceMember with rfl | rfl | rfl | rfl
      · exact Or.inr (Or.inr (Or.inl rfl))
      all_goals exact Or.inr (Or.inr (Or.inr ⟨_, rfl⟩))
    · rcases Mapping.exists_of_last_at payload with ⟨named, namedMember, _, same⟩
      rcases Spec.mem_named_payloads namedMember with ⟨renamed, renamedMember, name, _, rfl⟩
      rcases s.rules.origin_of_renamed wellKeyed renamedMember with ⟨origin, originMember, value⟩
      rw [Spec.entries_eq_section_entries] at originMember
      have changed : entry.2 = mapReferences s.rules.reference (Spec.payloadOf origin.2) := by
        rw [← Spec.payload_of_map_under, ← value, ← same]
      exact Or.inr (Or.inl ⟨origin, originMember, (becomes_inner_iff _ _).2 changed⟩)

end Settings

theorem references_message_envelope : references messageEnvelope = [schemaReference "Messages"] := rfl

theorem not_missed_message_envelope (reference : String) : ¬Missed reference messageEnvelope := by
  simp [messageEnvelope, missed_mapping_iff, not_refers_string, not_missed_string, Value.text?, Value.untag]

theorem text_string (text : String) : (Value.string text).text? = some text := rfl

theorem text_mapping (entries : Mapping) : (Value.mapping entries).text? = none := rfl

theorem not_refers_one_of (reference : String) (names : List String) :
    ¬Refers reference (oneOf names) := by
  simp [oneOf, refers_mapping_iff, refers_sequence_iff, not_refers_string, Value.text?, Value.untag]

namespace Settings.Origin

variable {s : Settings} {spec : Spec} {body : Value} {reference : String}

/-- A reference that is reached in the output is what one of the description has become, or that of
the envelope. -/
theorem reached (origin : s.Origin spec body) (reached : Reached reference body) :
    (∃ source, Reached source spec.root ∧ s.rules.reference source = reference) ∨
      reference = schemaReference "Messages" := by
  rcases origin with ⟨source, member, becomes⟩ | ⟨source, member, becomes⟩ | rfl | ⟨names, rfl⟩
  · rw [(s.body_becomes_iff _ _).1 becomes] at reached
    rcases reached_map_under _ reached with ⟨old, inside, changed⟩
    exact Or.inl ⟨old, inside.of_section .schemas member, changed⟩
  · rw [(becomes_inner_iff _ _).1 becomes] at reached
    rcases (reached_map_references _ _).1 reached with ⟨old, inside, changed⟩
    exact Or.inl ⟨old, inside.of_payload_of.of_section .messages member, changed⟩
  · have listed := (reached_iff _).1 reached
    rw [references_message_envelope] at listed
    exact Or.inr (List.mem_singleton.1 listed)
  · exact absurd reached.refers (not_refers_one_of reference names)

/-- A reference that is missed in the output stands in the description as it is, missed too. -/
theorem missed (origin : s.Origin spec body) (missed : Missed reference body) :
    Missed reference spec.root := by
  rcases origin with ⟨source, member, becomes⟩ | ⟨source, member, becomes⟩ | rfl | ⟨names, rfl⟩
  · rw [(s.body_becomes_iff _ _).1 becomes] at missed
    exact ((missed_map_under _ _ _).1 missed).of_section .schemas member
  · rw [(becomes_inner_iff _ _).1 becomes] at missed
    exact ((missed_map_references _ _).1 missed).of_payload_of.of_section .messages member
  · exact absurd missed (not_missed_message_envelope reference)
  · exact absurd missed.refers (not_refers_one_of reference names)

end Settings.Origin

namespace Settings

theorem new_name_eq {s : Settings} (filled : ∀ target ∈ s.targets, target ≠ "") :
    s.rules.rename = s.newName := funext (Rules.rename_of_targets filled)

theorem spelled_apart_rules {s : Settings} {spec : Spec}
    (filled : ∀ target ∈ s.targets, target ≠ "") (apart : s.SpelledApart spec) :
    spec.SpelledApart s.rules := by
  have entries : spec.entries .schemas = spec.sectionEntries "schemas" :=
    spec.entries_eq_section_entries .schemas
  rw [Spec.SpelledApart, entries, Rules.renamedEntries]
  apply List.pairwise_map.2
  apply apart.imp
  intro a b unlike name spelled other
  rw [Rules.spelling_key, new_name_eq filled] at spelled other
  rcases Option.map_eq_some_iff.1 spelled with ⟨x, first, rfl⟩
  rcases Option.map_eq_some_iff.1 other with ⟨y, second, same⟩
  exact unlike x y first second same.symm

theorem new_name_mem_keys {s : Settings} {spec : Spec} {catalog : Mapping}
    (wellKeyed : spec.root.WellKeyed) (filled : ∀ target ∈ s.targets, target ≠ "")
    (shows : s.Shows ⟨s.rules.tree spec.root⟩ catalog) {name : String} (defined : spec.Defines name) :
    .string (s.newName name) ∈ Mapping.keys catalog := by
  rcases defined with ⟨source, member, spelled⟩
  have listed : source ∈ (Spec.mk spec.root).entries .schemas := by
    rw [Spec.entries_eq_section_entries]
    exact member
  have own := s.rules.rename_mem_keys wellKeyed listed spelled
  rw [new_name_eq filled] at own
  rw [shows.keys, Value.string_mem_firsts_iff]
  exact List.mem_append_right _ own

theorem closed_of_shows {s : Settings} {spec : Spec} {catalog : Mapping}
    (cleanRules : ∀ name new, '/' ∉ name.toList → s.rules.replacement? name = some new →
      '/' ∉ new.toList)
    (filled : ∀ target ∈ s.targets, target ≠ "") (wellKeyed : spec.root.WellKeyed)
    (shows : s.Shows ⟨s.rules.tree spec.root⟩ catalog)
    (closed : ∀ name, '/' ∉ name.toList → Reached (schemaReference name) spec.root →
      spec.Defines name) {body : Value}
    (origin : s.Origin spec body) {name : String} (clean : '/' ∉ name.toList)
    (reached : Reached (schemaReference name) body) : .string name ∈ Mapping.keys catalog := by
  rcases origin.reached reached with ⟨source, inside, changed⟩ | messages
  · rcases schema_reference_of_reference cleanRules clean changed with ⟨old, cleanOld, rfl, rfl⟩
    rw [new_name_eq filled]
    exact new_name_mem_keys wellKeyed filled shows (closed old cleanOld inside)
  · rw [schema_reference_injective messages, shows.keys, Value.string_mem_firsts_iff]
    apply List.mem_append_left
    apply List.mem_append_right
    decide

theorem definition_of_shows {s : Settings} {spec : Spec} {catalog : Mapping}
    (wellKeyed : spec.root.WellKeyed) (shows : s.Shows ⟨s.rules.tree spec.root⟩ catalog)
    (apart : spec.SpelledApart s.rules) {source : Value × Value} {name : String}
    (member : source ∈ spec.entries .schemas) (spelled : source.1.spelling? = some name) :
    (.string (s.rules.rename name), mapUnder s.rules.reference (s.rules.key source.1) source.2) ∈
      catalog := by
  have listed := s.rules.rename_mem_keys wellKeyed member spelled
  have shown : .string (s.rules.rename name) ∈ Mapping.keys catalog := by
    rw [shows.keys, Value.string_mem_firsts_iff]
    exact List.mem_append_right _ listed
  rcases List.mem_map.1 shown with ⟨entry, entryMember, key⟩
  have apart' := Spec.distinct_spelled_schemas_tree wellKeyed apart
  have keyed := Spec.keyed_spelled_schemas
    (Spec.distinct_entries (s.rules.well_keyed_tree wellKeyed) .schemas).2
  have own : (Value.string (s.rules.rename name),
      mapUnder s.rules.reference (s.rules.key source.1) source.2) ∈
        (Spec.mk (s.rules.tree spec.root)).spelledSchemas := by
    rw [Spec.spelled_schemas_tree wellKeyed apart, ← Spec.respelled_key s.rules spelled]
    exact List.mem_map_of_mem member
  have body := shows.body entry entryMember
  rw [key, Mapping.last_at_of_distinct apart' keyed (Value.well_keyed_string _),
    Mapping.value_at_of_mem apart' own, Option.some_or, Option.some.injEq] at body
  have whole := Prod.ext key body
  exact whole ▸ entryMember

theorem BodyBecomes.reached_iff {s : Settings} {source : Value × Value} {body : Value}
    (becomes : s.BodyBecomes source body) (reference : String) :
    Reached reference body ↔
      ∃ old, Reached old source.2 ∧ ReferenceBecomes s.lead s.targets old reference := by
  rw [(s.body_becomes_iff _ _).1 becomes]
  constructor
  · intro reached
    rcases reached_map_under _ reached with ⟨old, inside, changed⟩
    exact ⟨old, inside, (Rules.reference_becomes_iff _ _).2 changed.symm⟩
  · rintro ⟨old, inside, changed⟩
    rw [(Rules.reference_becomes_iff _ _).1 changed]
    exact inside.map_under _

theorem BodyBecomes.missed_iff {s : Settings} {source : Value × Value} {body : Value}
    (becomes : s.BodyBecomes source body) (reference : String) :
    Missed reference body ↔ Missed reference source.2 := by
  rw [(s.body_becomes_iff _ _).1 becomes]
  exact missed_map_under _ _ _

/-- The references of a catalog, compared with those of the description it was made from. -/
structure KeepsReferences (s : Settings) (spec : Spec) (catalog : Mapping) : Prop where
  distinct : Mapping.Distinct catalog
  origin : ∀ entry ∈ catalog, s.Origin spec entry.2
  reached : (∀ name, '/' ∉ name.toList → Reached (schemaReference name) spec.root →
      spec.Defines name) →
    ∀ entry ∈ catalog, ∀ name, '/' ∉ name.toList → Reached (schemaReference name) entry.2 →
      .string name ∈ Mapping.keys catalog
  missed : ∀ entry ∈ catalog, ∀ reference, Missed reference entry.2 → Missed reference spec.root
  reference : ∀ name, '/' ∉ name.toList → ∀ new,
    ReferenceBecomes s.lead s.targets (schemaReference name) new ↔
      new = schemaReference (s.newName name)
  definition : s.SpelledApart spec → ∀ source ∈ spec.sectionEntries "schemas", ∀ name,
    source.1.spelling? = some name →
      ∃ body, (.string (s.newName name), body) ∈ catalog ∧ s.BodyBecomes source body ∧
        (∀ reference, Reached reference body ↔
          ∃ old, Reached old source.2 ∧ ReferenceBecomes s.lead s.targets old reference) ∧
        ∀ reference, Missed reference body ↔ Missed reference source.2

/-- A catalog is closed if the targets whose references it misses are still among its keys. -/
theorem KeepsReferences.closed_iff {s : Settings} {spec : Spec} {catalog : Mapping}
    (keeps : s.KeepsReferences spec catalog) (closed : spec.Closed)
    (follows : ∀ name, spec.Defines name → .string (s.newName name) ∈ Mapping.keys catalog) :
    Catalog.Closed catalog ↔ ∀ entry ∈ catalog, ∀ target ∈ s.targets, '/' ∉ target.toList →
      Missed (schemaReference target) entry.2 → .string target ∈ Mapping.keys catalog := by
  constructor
  · intro whole entry member target _ clean missed
    exact whole entry member target clean missed.refers
  · intro kept entry member name clean refers
    rcases (refers_iff _).1 refers with reached | missed
    · exact keeps.reached (fun name clean reached => closed name clean reached.refers) entry member
        name clean reached
    · by_cases listed : name ∈ s.targets
      · exact kept entry member name listed clean missed
      · have there := follows name (closed name clean (keeps.missed entry member _ missed).refers)
        rwa [newName, if_neg listed] at there

theorem keeps_references_of_shows {s : Settings} {spec : Spec} {catalog : Mapping}
    (accepted : s.validated = .ok s) (wellKeyed : spec.root.WellKeyed)
    (shows : s.Shows ⟨s.rules.tree spec.root⟩ catalog) : s.KeepsReferences spec catalog := by
  rcases checked_of_validated accepted with ⟨ident, -, filled⟩
  have cleanRules := Rules.slash_not_mem_of_replacement s.targets ident
  have origin := origin_of_shows wellKeyed shows
  constructor
  · exact shows.distinct
  · exact origin
  · intro closed entry member name clean
    exact closed_of_shows cleanRules filled wellKeyed shows closed (origin entry member) clean
  · intro entry member reference
    exact (origin entry member).missed
  · intro name clean new
    have changed := reference_schema_reference s.rules clean
    rw [new_name_eq filled] at changed
    rw [Rules.reference_becomes_iff, ← changed]
    rfl
  · intro apart source member name spelled
    have becomes := (s.body_becomes_iff source _).2 rfl
    have listed : source ∈ spec.entries .schemas := by
      rw [Spec.entries_eq_section_entries]
      exact member
    have found := definition_of_shows wellKeyed shows (spelled_apart_rules filled apart) listed spelled
    rw [new_name_eq filled] at found
    exact ⟨_, found, becomes, becomes.reached_iff, becomes.missed_iff⟩

end Settings

/-- References of the output that are reached lead to schemas of the output, to the same ones as
before and under their new names. One that is missed keeps its name: all references lead to schemas
just if none that is missed is to a target that the output no longer has. -/
theorem references_of_output (s : Settings) (spec template : String) (output : Output)
    (accepted : s.validated = .ok s) (mode : s.mode = .tree)
    (success : (transform s spec template).value = .ok output) :
    ∃ parsed catalog, Spec.ofText spec = .ok parsed ∧
      (output.document.get? "components").bind (·.get? "schemas") = some (.mapping catalog) ∧
      s.KeepsReferences parsed catalog ∧
      (parsed.Closed → (Catalog.Closed catalog ↔
        ∀ entry ∈ catalog, ∀ target ∈ s.targets, '/' ∉ target.toList →
          Missed (schemaReference target) entry.2 → .string target ∈ Mapping.keys catalog)) := by
  rcases transform_ok success with ⟨parsed, base, read, -, assembled, -⟩
  rw [Settings.prepare_of_tree mode] at read
  have wellKeyed := well_keyed_of_spec_text read
  have shows := s.shows_build_catalog (keyed_rename_spec s wellKeyed .schemas)
  have shown := get_schemas_assemble assembled
  rw [Settings.rename_spec_of_tree mode] at shows shown
  have keeps := Settings.keeps_references_of_shows accepted wellKeyed shows
  rcases Settings.checked_of_validated accepted with ⟨-, -, filled⟩
  refine ⟨parsed, _, read, shown, keeps, ?_⟩
  intro closed
  exact keeps.closed_iff closed fun name => Settings.new_name_mem_keys wellKeyed filled shows

/-- A schema that refers to itself, and another that refers to it and, in a key, to a schema that keeps
its name. -/
theorem references_of_output_renamed :
    let s : Settings := { publish := [], targets := ["T"], lead := "R" }
    let spec := "components:\n schemas:\n  T: [\x7b$ref: \"#/components/schemas/T\"\x7d]\n" ++
      "  A: \x7b$ref: \"#/components/schemas/T\", ? \x7b$ref: \"#/components/schemas/A\"\x7d : x\x7d"
    let catalog : Mapping := [
      (.string "RealtimeMessage", messageEnvelope), (.string "ServerMessages", oneOf []),
      (.string "ClientMessages", oneOf []), (.string "Messages", oneOf []),
      (.string "RT", .sequence [.mapping [(.string "$ref", .string (schemaReference "RT"))]]),
      (.string "A", .mapping [(.string "$ref", .string (schemaReference "RT")),
        (.mapping [(.string "$ref", .string (schemaReference "A"))], .string "x")])]
    ∃ parsed output, Spec.ofText spec = .ok parsed ∧ parsed.Closed ∧
      (transform s spec "openapi: 3").value = .ok output ∧
      (output.document.get? "components").bind (·.get? "schemas") = some (.mapping catalog) ∧
      Catalog.Closed catalog ∧ s.KeepsReferences parsed catalog := by
  intro s spec catalog
  have accepted : s.validated = .ok s :=
    (Settings.validated_eq_ok_iff s s).2 ⟨by decide +kernel, rfl⟩
  have computed : (transform s spec "openapi: 3").value.toOption.map (fun output =>
      (output.document.get? "components").bind (·.get? "schemas")) = some (some (.mapping catalog)) := by
    decide +kernel
  have root : (Spec.ofText spec).toOption.map (·.root) =
      some (.mapping [(.string "components", .mapping [(.string "schemas", .mapping [
        (.string "T", .sequence [.mapping [(.string "$ref", .string (schemaReference "T"))]]),
        (.string "A", .mapping [(.string "$ref", .string (schemaReference "T")),
          (.mapping [(.string "$ref", .string (schemaReference "A"))], .string "x")])])])]) := by
    decide +kernel
  rcases Option.map_eq_some_iff.1 computed with ⟨output, run, document⟩
  have success := ok_of_to_option run
  rcases references_of_output s spec "openapi: 3" output accepted rfl success with
    ⟨parsed, shownCatalog, read, shown, keeps, closed_iff⟩
  have same : shownCatalog = catalog := by
    rw [document] at shown
    exact (Value.mapping.inj (Option.some.inj shown)).symm
  rw [same] at keeps closed_iff
  rw [read] at root
  have rooted : parsed.root = _ := Option.some.inj root
  have closed : parsed.Closed := by
    intro name _ refers
    rw [rooted] at refers
    have named : "T" = name ∨ "A" = name := by
      simpa [refers_mapping_iff, refers_sequence_iff, not_refers_string, text_string, text_mapping,
        schema_reference_injective.eq_iff] using refers
    rw [Spec.Defines, Spec.sectionEntries, rooted]
    rcases named with rfl | rfl
    · exact ⟨_, List.mem_cons_self, rfl⟩
    · exact ⟨_, List.mem_cons_of_mem _ List.mem_cons_self, rfl⟩
  -- The only reference that is missed is that in a key, to a schema which is no target.
  have missed : ∀ entry ∈ catalog, ∀ name, Missed (schemaReference name) entry.2 → "A" = name := by
    have enumeration : ∀ reference, ¬Missed reference (oneOf []) := fun reference missed =>
      not_refers_one_of reference [] missed.refers
    simp [catalog, missed_mapping_iff, missed_sequence_iff, refers_mapping_iff, not_refers_string,
      not_missed_string, text_string, text_mapping, schema_reference_injective.eq_iff,
      not_missed_message_envelope, enumeration]
  refine ⟨parsed, output, read, closed, success, document, (closed_iff closed).2 ?_, keeps⟩
  intro entry member target listed _ found
  rw [← missed entry member target found]
  decide

/-- A reference in a key is missed, so that it leads nowhere when its definition is renamed. -/
theorem references_of_output_missed :
    let s : Settings := { publish := [], targets := ["T"], lead := "R" }
    let spec := "components:\n schemas:\n  T: 1\n  A: \x7b? \x7b$ref: \"#/components/schemas/T\"\x7d : x\x7d"
    let catalog : Mapping := [
      (.string "RealtimeMessage", messageEnvelope), (.string "ServerMessages", oneOf []),
      (.string "ClientMessages", oneOf []), (.string "Messages", oneOf []),
      (.string "RT", .number (.int 1)),
      (.string "A", .mapping [
        (.mapping [(.string "$ref", .string (schemaReference "T"))], .string "x")])]
    ∃ parsed output, s.validated = .ok s ∧ Spec.ofText spec = .ok parsed ∧ parsed.Closed ∧
      (transform s spec "openapi: 3").value = .ok output ∧
      (output.document.get? "components").bind (·.get? "schemas") = some (.mapping catalog) ∧
      ¬Catalog.Closed catalog := by
  intro s spec catalog
  have accepted : s.validated = .ok s :=
    (Settings.validated_eq_ok_iff s s).2 ⟨by decide +kernel, rfl⟩
  have computed : (transform s spec "openapi: 3").value.toOption.map (fun output =>
      (output.document.get? "components").bind (·.get? "schemas")) = some (some (.mapping catalog)) := by
    decide +kernel
  have root : (Spec.ofText spec).toOption.map (·.root) =
      some (.mapping [(.string "components", .mapping [(.string "schemas", .mapping [
        (.string "T", .number (.int 1)), (.string "A", .mapping [
          (.mapping [(.string "$ref", .string (schemaReference "T"))], .string "x")])])])]) := by
    decide +kernel
  rcases Option.map_eq_some_iff.1 computed with ⟨output, run, document⟩
  rcases Option.map_eq_some_iff.1 root with ⟨parsed, found, rooted⟩
  have closed : parsed.Closed := by
    intro name _ refers
    have rooted : parsed.root = _ := rooted
    rw [rooted] at refers
    have named : "T" = name := by
      simpa [refers_mapping_iff, not_refers_string, text_string, text_mapping,
        schema_reference_injective.eq_iff, not_refers_number] using refers
    rw [Spec.Defines, Spec.sectionEntries, rooted, ← named]
    exact ⟨_, List.mem_cons_self, rfl⟩
  refine ⟨parsed, output, accepted, ok_of_to_option found, closed, ok_of_to_option run, document, ?_⟩
  intro whole
  let body : Value :=
    .mapping [(.mapping [(.string "$ref", .string (schemaReference "T"))], .string "x")]
  have member : (Value.string "A", body) ∈ catalog := by decide
  have refers : Refers (schemaReference "T") body :=
    .key List.mem_cons_self (.entry List.mem_cons_self rfl rfl)
  have lost : Value.string "T" ∉ Mapping.keys catalog := by decide
  exact lost (whole _ member "T" (by decide) refers)

end MessageSchema
