import MessageSchema.Proofs.OutputSchemas
import MessageSchema.Proofs.ValueEquality

/-!
The names of messages. Only a key that is a string, a number or a boolean has a name, and different
keys may be spelled alike; neither is an irregularity that a run warns of. So a run counts every
entry exactly when every key has a name, and no name comes twice exactly when no two keys are
spelled alike.
-/

namespace MessageSchema

set_option autoImplicit false

open Yaml

namespace Classification

def names (c : Classification) : List String := c.publish ++ c.subscribe

theorem length_names (c : Classification) : c.names.length = c.size := List.length_append

theorem names_of_names_perm (publish names : List String) :
    (ofNames publish names).names.Perm names :=
  List.filter_append_perm publish.contains names

end Classification

namespace Yaml.Value

/-- Two keys have a name, and it is the same. -/
def SpelledAlike (a b : Value) : Prop := ∃ name, a.spelling? = some name ∧ b.spelling? = some name

theorem not_spelled_alike_of_strings {name other : String}
    (apart : (string name).same (string other) = false) :
    ¬SpelledAlike (string name) (string other) := by
  rintro ⟨spelling, first, second⟩
  have same : name = other := (Option.some.inj first).trans (Option.some.inj second).symm
  rw [same, same_refl] at apart
  contradiction

end Yaml.Value

namespace Spec

theorem message_names_eq (spec : Spec) :
    spec.messageNames = (spec.entries .messages).filterMap fun entry => entry.1.spelling? := by
  unfold messageNames messages
  rw [List.map_filterMap]
  congr 1
  funext entry
  rw [message?, Option.map_map]
  exact Option.map_id'

/-- As many messages as entries, if every key has a name. -/
theorem length_message_names_iff (spec : Spec) :
    spec.messageNames.length = (spec.entries .messages).length ↔
      ∀ entry ∈ spec.entries .messages, entry.1.spelling?.isSome = true := by
  rw [message_names_eq, List.length_filterMap_eq_countP, List.countP_eq_length]

theorem nodup_message_names_iff (spec : Spec) :
    spec.messageNames.Nodup ↔
      (spec.entries .messages).Pairwise fun a b => ¬Value.SpelledAlike a.1 b.1 := by
  rw [message_names_eq, List.Nodup, List.pairwise_filterMap]
  apply Iff.of_eq
  congr 1
  funext a b
  apply propext
  constructor
  · rintro apart ⟨name, first, second⟩
    exact apart name first name second rfl
  · rintro apart name first other second rfl
    exact apart ⟨name, first, second⟩

theorem messages_of_strings {spec : Spec} (wellKeyed : spec.root.WellKeyed)
    (strings : ∀ entry ∈ spec.entries .messages, ∃ name, entry.1 = .string name) :
    (∀ entry ∈ spec.entries .messages, entry.1.spelling?.isSome = true) ∧
      (spec.entries .messages).Pairwise fun a b => ¬Value.SpelledAlike a.1 b.1 := by
  constructor
  · intro entry member
    obtain ⟨name, key⟩ := strings entry member
    rw [key]
    rfl
  · refine (distinct_entries wellKeyed .messages).1.imp_of_mem ?_
    intro a b memberA memberB apart
    obtain ⟨name, key⟩ := strings a memberA
    obtain ⟨other, key'⟩ := strings b memberB
    rw [key, key'] at apart ⊢
    exact Value.not_spelled_alike_of_strings apart

theorem mem_keys_named_payloads {spec : Spec} {entry : Value × Value} {name : String}
    (member : entry ∈ spec.entries .messages) (named : entry.1.spelling? = some name) :
    Value.string name ∈ Mapping.keys spec.namedPayloads := by
  have payload : (Value.string name, (entry.2.get? "payload").getD (.mapping [])) ∈
      spec.namedPayloads := by
    rw [named_payloads_eq]
    exact List.mem_filterMap.2 ⟨entry, member, by rw [named, Option.map_some]⟩
  exact List.mem_map_of_mem (f := Prod.fst) payload

end Spec

namespace Synthetic

theorem enumeration_injective : Function.Injective enumeration := by
  intro names others same
  have texts : names.map Value.string = others.map Value.string := by
    simpa [enumeration] using same
  exact List.map_injective_iff.2 (fun _ _ => Value.string.inj) texts

/-- An enumeration among the synthetic schemas lists one side of the messages. -/
theorem listed_of_enumeration {c : Classification} {source : ClientSource} {listed : List String}
    (member : enumeration listed ∈ (schemas c source).map (·.2)) :
    listed = c.publish ∨ listed = c.subscribe := by
  have schema : enumeration listed = envelope ∨ enumeration listed = enumeration c.subscribe ∨
      enumeration listed = enumeration (source.names c) ∨
        enumeration listed = enumeration c.subscribe := by
    simpa [schemas] using member
  rcases schema with envelope | server | client | messages
  · simp [enumeration, Synthetic.envelope] at envelope
  · exact Or.inr (enumeration_injective server)
  · have same := enumeration_injective client
    cases source with
    | subscribe => exact Or.inr same
    | publish => exact Or.inl same
  · exact Or.inr (enumeration_injective messages)

theorem nodup_of_enumeration {c : Classification} (distinct : c.names.Nodup)
    {source : ClientSource} {listed : List String}
    (member : enumeration listed ∈ (schemas c source).map (·.2)) : listed.Nodup := by
  obtain ⟨publish, subscribe, _⟩ := List.nodup_append.1 distinct
  rcases listed_of_enumeration member with rfl | rfl
  · exact publish
  · exact subscribe

end Synthetic

namespace Settings

/-- The names that a run gives to the entries of its messages: every one that a key has is in the
classification and among the schemas, and counts and repetitions are those of the keys. -/
structure NamesMessages (s : Settings) (renamed : Spec) (output : Output) : Prop where
  perm : output.classification.names.Perm
    ((renamed.entries .messages).filterMap fun entry => entry.1.spelling?)
  schema : ∀ entry ∈ renamed.entries .messages, ∀ name, entry.1.spelling? = some name →
    name ∈ output.schemaNames
  size_iff : output.classification.size = (renamed.entries .messages).length ↔
    ∀ entry ∈ renamed.entries .messages, entry.1.spelling?.isSome = true
  nodup_iff : output.classification.names.Nodup ↔
    (renamed.entries .messages).Pairwise fun a b => ¬Value.SpelledAlike a.1 b.1
  enumerations : output.classification.names.Nodup → ∀ listed : List String,
    Synthetic.enumeration listed ∈
        (Synthetic.schemas output.classification s.clientMessages).map (·.2) → listed.Nodup

end Settings

theorem mem_schema_names_of_key {output : Output} {catalog : Mapping}
    (shown : (output.document.get? "components").bind (·.get? "schemas") = some (.mapping catalog))
    {name : String} (member : Value.string name ∈ Mapping.keys catalog) :
    name ∈ output.schemaNames := by
  obtain ⟨entry, inside, key⟩ := List.mem_map.1 member
  have entries : Output.schemaEntries output.document = catalog := by
    rw [Output.schemaEntries, shown]
    rfl
  refine List.mem_filterMap.2 ⟨entry, entries ▸ inside, ?_⟩
  rw [key]
  rfl

/-- A run classifies exactly the names that the keys of its messages have, and each is the name of a
schema. Nothing is lost if every key has a name, nothing comes twice if no two are spelled alike, and
both is so if all keys are strings. -/
theorem messages_named (s : Settings) (spec template : String) (output : Output)
    (success : (transform s spec template).value = .ok output) :
    ∃ parsed, Spec.ofText (s.prepare spec).value = .ok parsed ∧
      let renamed := (s.renameSpec parsed).value
      s.NamesMessages renamed output ∧
        ((∀ entry ∈ renamed.entries .messages, ∃ name, entry.1 = .string name) →
          output.classification.size = (renamed.entries .messages).length ∧
            output.classification.names.Nodup) := by
  obtain ⟨parsed, base, read, _, assembled, classified⟩ := transform_ok success
  refine ⟨parsed, read, ?_⟩
  intro renamed
  have wellKeyed : renamed.root.WellKeyed := well_keyed_rename_spec s (well_keyed_of_spec_text read)
  have shows := s.shows_build_catalog (Spec.distinct_entries wellKeyed .schemas).2
  have perm : output.classification.names.Perm renamed.messageNames := by
    rw [classified]
    exact Classification.names_of_names_perm s.publish renamed.messageNames
  have size : output.classification.size = renamed.messageNames.length := by
    rw [← Classification.length_names, perm.length_eq]
  have named : s.NamesMessages renamed output := by
    refine ⟨renamed.message_names_eq ▸ perm, ?_, ?_, ?_, ?_⟩
    · intro entry member name spelled
      apply mem_schema_names_of_key (get_schemas_assemble assembled)
      rw [shows.keys, Value.string_mem_firsts_iff, List.append_assoc]
      exact List.mem_append_left _ (Spec.mem_keys_named_payloads member spelled)
    · rw [size, Spec.length_message_names_iff]
    · rw [perm.nodup_iff, Spec.nodup_message_names_iff]
    · intro distinct listed member
      exact Synthetic.nodup_of_enumeration distinct member
  refine ⟨named, fun strings => ?_⟩
  obtain ⟨spelled, apart⟩ := Spec.messages_of_strings wellKeyed strings
  exact ⟨named.size_iff.2 spelled, named.nodup_iff.2 apart⟩

/-- A renamed message and one with a number as its key. -/
theorem messages_named_number :
    let s : Settings := { publish := ["RealtimeA"], targets := ["A"] }
    let spec := "components:\n messages:\n  A: {payload: x}\n  7: {payload: y}"
    ∃ output, (transform s spec "").value = .ok output ∧
      output.classification.names.Perm ["RealtimeA", "7"] ∧
      (∀ name ∈ ["RealtimeA", "7"], name ∈ output.schemaNames) ∧
      output.classification.size = 2 ∧ output.classification.names.Nodup := by
  intro s spec
  have runs : ∃ output, (transform s spec "").value = .ok output :=
    exists_of_is_ok (by decide +kernel)
  obtain ⟨output, success⟩ := runs
  obtain ⟨parsed, read, named, _⟩ := messages_named _ _ _ _ success
  have keys : ((Spec.ofText (s.prepare spec).value).toOption.map fun parsed =>
      ((s.renameSpec parsed).value.entries .messages).map (·.1)) =
        some [.string "RealtimeA", .number (.int 7)] := by decide +kernel
  rw [read] at keys
  have listed : ((s.renameSpec parsed).value.entries .messages).map (·.1) =
      [.string "RealtimeA", .number (.int 7)] := Option.some.inj keys
  have perm : output.classification.names.Perm ["RealtimeA", "7"] := by
    have given := named.perm
    have spelled := List.filterMap_map (f := Prod.fst) (g := Value.spelling?)
      (l := (s.renameSpec parsed).value.entries .messages)
    rw [listed] at spelled
    rwa [← Function.comp_def, ← spelled] at given
  have sizes : output.classification.size = 2 := by
    rw [← Classification.length_names]
    exact perm.length_eq
  refine ⟨output, success, perm, ?_, sizes, perm.nodup_iff.2 (by decide)⟩
  have each : ∀ key ∈ [Value.string "RealtimeA", .number (.int 7)], ∀ name,
      key.spelling? = some name → name ∈ output.schemaNames := by
    intro key member name spelled
    rw [← listed] at member
    obtain ⟨entry, inside, rfl⟩ := List.mem_map.1 member
    exact named.schema entry inside name spelled
  simp only [List.forall_mem_cons, List.not_mem_nil, false_imp_iff, implies_true, and_true] at each ⊢
  exact ⟨each.1 "RealtimeA" rfl, each.2 "7" (by decide)⟩

/-- A run without a warning in which one message has no name and two have the same. -/
theorem messages_lost :
    let s : Settings := { publish := [], targets := [] }
    let spec := "components:\n messages:\n  ~: {payload: x}\n  1: {payload: y}\n  \"1\": {payload: z}"
    ∃ output parsed, (transform s spec "").value = .ok output ∧ output.warnings = [] ∧
      Spec.ofText (s.prepare spec).value = .ok parsed ∧
      ((s.renameSpec parsed).value.entries .messages).length = 3 ∧
      output.classification = ⟨[], ["1", "1"]⟩ := by
  intro s spec
  have computed : (transform s spec "").value.toOption.map (fun output =>
      (output.warnings, output.classification)) = some ([], ⟨[], ["1", "1"]⟩) := by decide +kernel
  have counted : (Spec.ofText (s.prepare spec).value).toOption.map (fun parsed =>
      ((s.renameSpec parsed).value.entries .messages).length) = some 3 := by decide +kernel
  obtain ⟨output, run, outcome⟩ := Option.map_eq_some_iff.1 computed
  obtain ⟨parsed, read, length⟩ := Option.map_eq_some_iff.1 counted
  exact ⟨output, parsed, ok_of_to_option run, (Prod.mk.inj outcome).1, ok_of_to_option read, length,
    (Prod.mk.inj outcome).2⟩

end MessageSchema
