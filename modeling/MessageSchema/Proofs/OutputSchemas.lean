import MessageSchema.Proofs.ReadDocuments
import MessageSchema.Proofs.RenamedDocuments
import MessageSchema.Proofs.ValueEquality
import MessageSchema.Transform

/-!
The schemas of a run. Payloads, synthetic schemas and schemas of the description are merged each
among themselves and then with each other; the outcome is that of one merge of all entries in a row.
-/

namespace MessageSchema

set_option autoImplicit false

open Yaml

namespace Yaml

theorem find_insert_string (entries : Mapping) (name : String) (value : Value) :
    (Mapping.insert entries (.string name) value).find? name = some value := by
  induction entries with
  | nil => simp [Mapping.insert, Mapping.find?, Value.isString]
  | cons entry rest ih =>
      simp only [Mapping.insert]
      split
      · next equal =>
          rw [Value.same_string.1 equal]
          simp [Mapping.find?, Value.isString]
      · next different =>
          have miss : entry.1.isString name = false := by
            rw [← Bool.not_eq_true, Value.is_string_iff, ← Value.same_string]
            exact different
          simpa [Mapping.find?, miss] using ih

end Yaml

namespace Spec

open Rename

theorem distinct_entries {spec : Spec} (wellKeyed : spec.root.WellKeyed) (s : Section) :
    Mapping.Distinct (spec.entries s) ∧ Mapping.Keyed (spec.entries s) := by
  rcases spec.entries_cases s with none | ⟨components, outer, inner⟩
  · rw [none]
    exact ⟨List.Pairwise.nil, fun _ member => by simp at member⟩
  · have inside := well_keyed_of_find (well_keyed_of_get wellKeyed outer) inner
    have entries := (Value.well_keyed_entries_iff _).1 inside.2
    exact ⟨inside.1, fun entry member => (entries entry member).1⟩

/-- The entries of a section as they stand in the document, if it is an untagged mapping in another. -/
def sectionEntries (spec : Spec) (name : String) : Mapping :=
  plainEntries ((plainEntries (spec.root.get? "components")).find? name)

theorem entries_eq_section_entries (spec : Spec) (s : Section) :
    spec.entries s = spec.sectionEntries s.name := spec.entries_eq s

/-- The names of the messages: keys that have none are passed over. -/
def named (spec : Spec) : List String :=
  (spec.sectionEntries "messages").filterMap fun entry => entry.1.spelling?

/-- The messages that have a name, each under it with its payload or else the empty mapping. -/
def namedPayloads (spec : Spec) : Mapping :=
  (spec.sectionEntries "messages").filterMap fun entry =>
    entry.1.spelling?.map fun name =>
      (.string name, (entry.2.get? "payload").getD (.mapping []))

/-- The schemas of the description as they stand, each under its name if it has one. -/
def spelledSchemas (spec : Spec) : Mapping :=
  (spec.sectionEntries "schemas").map fun entry =>
    ((entry.1.spelling?.map .string).getD entry.1, entry.2)

theorem named_eq (spec : Spec) : spec.named = spec.messageNames := by
  have messages : spec.sectionEntries "messages" = spec.entries .messages :=
    (spec.entries_eq_section_entries .messages).symm
  rw [named, messages, messageNames, Spec.messages, List.map_filterMap]
  congr 1
  funext entry
  simp only [message?, Option.map_map, Function.comp_def, Option.map_id']

theorem named_payloads_eq (spec : Spec) :
    spec.namedPayloads = (spec.entries .messages).filterMap fun entry =>
      entry.1.spelling?.map fun name =>
        (.string name, (entry.2.get? "payload").getD (.mapping [])) := by
  rw [entries_eq_section_entries]
  rfl

theorem spelled_schemas_eq (spec : Spec) :
    spec.spelledSchemas = Mapping.mapKeys respelled (spec.entries .schemas) := by
  have keys : ∀ key : Value, (key.spelling?.map .string).getD key = respelled key := by
    intro key
    unfold respelled
    cases key.spelling? <;> rfl
  rw [entries_eq_section_entries, spelledSchemas, Mapping.mapKeys]
  simp only [keys]
  rfl

theorem map_entry_messages (spec : Spec) :
    spec.messages.map Message.entry = spec.namedPayloads := by
  rw [named_payloads_eq, Spec.messages, List.map_filterMap]
  congr 1
  funext entry
  simp only [message?, Option.map_map]
  rfl

theorem keyed_named_payloads (spec : Spec) : Mapping.Keyed spec.namedPayloads := by
  rw [← map_entry_messages]
  intro entry member
  obtain ⟨message, _, rfl⟩ := List.mem_map.1 member
  trivial

theorem well_keyed_respelled {key : Value} (wellKeyed : key.WellKeyed) :
    (respelled key).WellKeyed := by
  unfold respelled
  split
  · trivial
  · exact wellKeyed

theorem keyed_spelled_schemas {spec : Spec} (keyed : Mapping.Keyed (spec.entries .schemas)) :
    Mapping.Keyed spec.spelledSchemas := by
  rw [spelled_schemas_eq]
  exact Mapping.keyed_map_keys fun entry member => well_keyed_respelled (keyed entry member)

end Spec

namespace Synthetic

theorem keyed_schemas (c : Classification) (source : ClientSource) :
    Mapping.Keyed (schemas c source) := by
  intro entry member
  have listed : entry.1 ∈ (schemas c source).map (·.1) := List.mem_map_of_mem member
  rw [keys_schemas] at listed
  obtain ⟨name, _, same⟩ := List.mem_map.1 listed
  rw [← same]
  trivial

end Synthetic

/-- The schema of any message: an object that holds one. -/
def messageEnvelope : Value :=
  .mapping [(.string "type", .string "object"),
    (.string "properties", .mapping [(.string "message",
      .mapping [(.string "$ref", .string "#/components/schemas/Messages")])])]

/-- The schema of a string that is one of some names. -/
def oneOf (names : List String) : Value :=
  .mapping [(.string "type", .string "string"), (.string "enum", .sequence (names.map .string))]

namespace Settings

/-- The synthetic schemas of a description: the envelope, and three enumerations of the names that
are listed as published or of the others. -/
def synthetic (s : Settings) (spec : Spec) : Mapping :=
  let published := spec.named.filter fun name => name ∈ s.publish
  let others := spec.named.filter fun name => name ∉ s.publish
  let clients :=
    match s.clientMessages with
    | .subscribe => others
    | .publish => published
  [(.string "RealtimeMessage", messageEnvelope), (.string "ServerMessages", oneOf others),
    (.string "ClientMessages", oneOf clients), (.string "Messages", oneOf others)]

theorem synthetic_eq (s : Settings) (spec : Spec) :
    s.synthetic spec =
      Synthetic.schemas (.ofNames s.publish spec.messageNames) s.clientMessages := by
  have listed : ∀ name, decide (name ∈ s.publish) = s.publish.contains name := by
    intro name
    rw [List.contains_eq_mem]
  have unlisted : ∀ name, decide (name ∉ s.publish) = !s.publish.contains name := by
    intro name
    rw [List.contains_eq_mem, decide_not]
  simp only [synthetic, listed, unlisted, spec.named_eq]
  cases s.clientMessages <;> rfl

theorem keyed_synthetic (s : Settings) (spec : Spec) : Mapping.Keyed (s.synthetic spec) := by
  rw [s.synthetic_eq]
  exact Synthetic.keyed_schemas _ _

def schemaEntries (s : Settings) (spec : Spec) : Mapping :=
  spec.namedPayloads ++ s.synthetic spec ++ spec.spelledSchemas

end Settings

theorem catalog_eq_of_entries (s : Settings) {spec : Spec}
    (keyed : Mapping.Keyed (spec.entries .schemas)) :
    (buildCatalog s spec).value.2 = Mapping.ofEntries (s.schemaEntries spec) := by
  have staged : (buildCatalog s spec).value.2 =
      ((Mapping.insertAll [] (payloadSchemas spec.messages)).insertAll (s.synthetic spec)).insertAll
        spec.schemas := by
    rw [s.synthetic_eq]
    rfl
  have empty : Mapping.Keyed [] := fun _ member => by simp at member
  have payloads := Spec.keyed_named_payloads spec
  have first : Mapping.Keyed (Mapping.insertAll [] spec.namedPayloads) :=
    Mapping.keyed_insert_all empty payloads
  have second := Mapping.keyed_insert_all first (s.keyed_synthetic spec)
  rw [staged, payloadSchemas, Spec.map_entry_messages, Mapping.insert_all_of_entries empty payloads]
  calc
    _ = ((Mapping.insertAll [] spec.namedPayloads).insertAll (s.synthetic spec)).insertAll
          spec.spelledSchemas := by
      have spelled := Spec.keyed_spelled_schemas keyed
      rw [Spec.spelled_schemas_eq] at spelled ⊢
      exact Mapping.insert_all_of_entries second spelled
    _ = Mapping.ofEntries (s.schemaEntries spec) := by
      rw [Settings.schemaEntries, Mapping.ofEntries, Mapping.insert_all_append,
        Mapping.insert_all_append]

theorem get_components_assemble {catalog : Catalog} {template document : Value}
    (assembled : catalog.assemble template = .ok document) :
    document.get? "components" = some catalog.components := by
  unfold Catalog.assemble at assembled
  split at assembled
  · next entries =>
      rw [← Except.ok.inj assembled]
      exact find_insert_string entries "components" catalog.components
  · rw [← Except.ok.inj assembled]
    rfl
  · contradiction

theorem get_schemas_assemble {catalog : Catalog} {template document : Value}
    (assembled : catalog.assemble template = .ok document) :
    (document.get? "components").bind (·.get? "schemas") = some (.mapping catalog) := by
  rw [get_components_assemble assembled]
  rfl

/-- A run that succeeds has read both documents, and its document carries the catalog of the renamed
description. -/
theorem transform_ok {s : Settings} {spec template : String} {output : Output}
    (success : (transform s spec template).value = .ok output) :
    ∃ parsed base, Spec.ofText (s.prepare spec).value = .ok parsed ∧
      readValue .template template = .ok base ∧
      Catalog.assemble (buildCatalog s (s.renameSpec parsed).value).value.2 base =
        .ok output.document ∧
      output.classification =
        .ofNames s.publish (s.renameSpec parsed).value.messageNames := by
  simp only [transform] at success
  split at success
  · contradiction
  · next parsed readSpec =>
      split at success
      · contradiction
      · next base readTemplate =>
          split at success
          · contradiction
          · next document assembled =>
              cases success
              exact ⟨parsed, base, readSpec, readTemplate, assembled, rfl⟩

namespace Settings

theorem prepare_of_tree {s : Settings} (mode : s.mode = .tree) (spec : String) :
    (s.prepare spec).value = spec := by
  simp only [prepare, mode]
  rfl

theorem rename_spec_of_tree {s : Settings} (mode : s.mode = .tree) (spec : Spec) :
    (s.renameSpec spec).value = ⟨s.rules.tree spec.root⟩ := by
  simp only [renameSpec, mode]
  rfl

end Settings

theorem exists_of_is_ok {ε α : Type} {result : Except ε α} (ok : result.isOk = true) :
    ∃ value, result = .ok value := by
  cases result with
  | error failure => contradiction
  | ok value => exact ⟨value, rfl⟩

theorem ok_of_to_option {ε α : Type} {result : Except ε α} {value : α}
    (found : result.toOption = some value) : result = .ok value := by
  cases result with
  | error failure => contradiction
  | ok other => rw [Option.some.inj found]

theorem well_keyed_of_read_value {source : Source} {text : String} {value : Value}
    (read : readValue source text = .ok value) : value.WellKeyed := by
  unfold readValue at read
  split at read
  · next found readText =>
      rw [← Except.ok.inj read]
      exact well_keyed_of_text readText
  · contradiction

theorem well_keyed_of_spec_text {text : String} {spec : Spec} (read : Spec.ofText text = .ok spec) :
    spec.root.WellKeyed := by
  unfold Spec.ofText at read
  cases found : readValue .spec text with
  | error failure => rw [found] at read; contradiction
  | ok value =>
      rw [found] at read
      rw [← Except.ok.inj read]
      exact well_keyed_of_read_value found

theorem well_keyed_rename_spec (s : Settings) {parsed : Spec} (wellKeyed : parsed.root.WellKeyed) :
    (s.renameSpec parsed).value.root.WellKeyed := by
  unfold Settings.renameSpec
  split
  · exact Rename.Rules.well_keyed_tree s.rules wellKeyed
  · exact wellKeyed

theorem keyed_rename_spec (s : Settings) {parsed : Spec} (wellKeyed : parsed.root.WellKeyed)
    (part : Section) : Mapping.Keyed ((s.renameSpec parsed).value.entries part) :=
  (Spec.distinct_entries (well_keyed_rename_spec s wellKeyed) part).2

namespace Synthetic

theorem distinct_schemas (c : Classification) (source : ClientSource) :
    Mapping.Distinct (schemas c source) := by
  have names : (names.map Value.string).Pairwise fun a b => a.same b = false := by decide
  rw [← keys_schemas c source, List.pairwise_map] at names
  exact names

end Synthetic

namespace Settings

theorem distinct_synthetic (s : Settings) (spec : Spec) : Mapping.Distinct (s.synthetic spec) := by
  rw [s.synthetic_eq]
  exact Synthetic.distinct_schemas _ _

/-- The catalog shows the schemas of a description: payloads, synthetic schemas and schemas of its
own, each key where it first comes. A schema of the description goes before a synthetic one and that
before a payload; of several schemas or payloads with one name the last counts. -/
structure Shows (s : Settings) (spec : Spec) (catalog : Mapping) : Prop where
  distinct : Mapping.Distinct catalog
  keys : Mapping.keys catalog = Value.firsts
    (Mapping.keys spec.namedPayloads ++
      [.string "RealtimeMessage", .string "ServerMessages", .string "ClientMessages",
        .string "Messages"] ++
      Mapping.keys spec.spelledSchemas)
  body : ∀ entry ∈ catalog, some entry.2 =
    (Mapping.lastAt? spec.spelledSchemas entry.1).or
      ((Mapping.valueAt? (s.synthetic spec) entry.1).or
        (Mapping.lastAt? spec.namedPayloads entry.1))

theorem shows_build_catalog (s : Settings) {spec : Spec}
    (keyed : Mapping.Keyed (spec.entries .schemas)) :
    s.Shows spec (buildCatalog s spec).value.2 := by
  have payloads := Spec.keyed_named_payloads spec
  have synthetic := s.keyed_synthetic spec
  have apart := s.distinct_synthetic spec
  have all : Mapping.Keyed (s.schemaEntries spec) :=
    Mapping.keyed_append.2 ⟨Mapping.keyed_append.2 ⟨payloads, synthetic⟩,
      Spec.keyed_spelled_schemas keyed⟩
  rw [catalog_eq_of_entries s keyed]
  constructor
  · exact Mapping.distinct_of_entries _
  · rw [Mapping.keys_of_entries, schemaEntries, Mapping.keys, List.map_append, List.map_append]
    rfl
  · intro entry member
    have wellKeyed := Mapping.keyed_of_entries all entry member
    rw [← Mapping.value_at_of_mem (Mapping.distinct_of_entries _) member,
      Mapping.value_at_of_entries all wellKeyed, schemaEntries, Mapping.last_at_append,
      Mapping.last_at_append, Mapping.last_at_of_distinct apart synthetic wellKeyed]

end Settings

/-- A description leaves no choice of what shows its schemas. -/
theorem Settings.Shows.unique {s : Settings} {spec : Spec} {catalog other : Mapping}
    (shows : s.Shows spec catalog) (shows' : s.Shows spec other) : other = catalog := by
  let told (entry : Value × Value) : Value × Option Value := (entry.1, some entry.2)
  have injective : Function.Injective told := by
    rintro ⟨key, body⟩ ⟨key', body'⟩ same
    simpa [told] using same
  have found : ∀ {catalog : Mapping}, s.Shows spec catalog →
      catalog.map told = (Mapping.keys catalog).map fun key =>
        (key, (Mapping.lastAt? spec.spelledSchemas key).or
          ((Mapping.valueAt? (s.synthetic spec) key).or (Mapping.lastAt? spec.namedPayloads key))) := by
    intro catalog shows
    rw [Mapping.keys, List.map_map]
    apply List.map_congr_left
    intro entry member
    exact Prod.ext rfl (shows.body entry member)
  apply List.map_injective_iff.2 injective
  rw [found shows', found shows, shows'.keys, shows.keys]

/-- The schemas of the output are those of the renamed description, complete and in order, and no
other list of schemas would be. -/
theorem schemas_of_output (s : Settings) (spec template : String) (output : Output)
    (success : (transform s spec template).value = .ok output) :
    ∃ parsed catalog, Spec.ofText (s.prepare spec).value = .ok parsed ∧
      (output.document.get? "components").bind (·.get? "schemas") = some (.mapping catalog) ∧
      s.Shows (s.renameSpec parsed).value catalog ∧
      ∀ other, s.Shows (s.renameSpec parsed).value other → other = catalog := by
  rcases transform_ok success with ⟨parsed, base, read, -, assembled, -⟩
  have keyed := keyed_rename_spec s (well_keyed_of_spec_text read) .schemas
  have shows := s.shows_build_catalog keyed
  exact ⟨parsed, _, read, get_schemas_assemble assembled, shows, fun other => shows.unique⟩

/-- Keys that are numbers and null, a message without a payload and another with the name of a schema,
a key spelled in two ways, and a schema with a synthetic name. -/
theorem schemas_of_output_respelled :
    let s : Settings := { publish := ["A"], targets := ["B"], lead := "R", clientMessages := .publish }
    let spec := "components:\n messages:\n  A: {payload: x}\n  2: {}\n  ~: {payload: q}\n" ++
      "  RB: {payload: p}\n schemas:\n  1: y\n  \"1\": z\n  B: u\n  Messages: w\n  ~: v"
    ∃ output, (transform s spec "openapi: 3").value = .ok output ∧
      (output.document.get? "components").bind (·.get? "schemas") = some (.mapping [
        (.string "A", .string "x"),
        (.string "2", .mapping []),
        (.string "RB", .string "u"),
        (.string "RealtimeMessage", .mapping [(.string "type", .string "object"),
          (.string "properties", .mapping [(.string "message",
            .mapping [(.string "$ref", .string "#/components/schemas/Messages")])])]),
        (.string "ServerMessages", .mapping [(.string "type", .string "string"),
          (.string "enum", .sequence [.string "2", .string "RB"])]),
        (.string "ClientMessages", .mapping [(.string "type", .string "string"),
          (.string "enum", .sequence [.string "A"])]),
        (.string "Messages", .string "w"),
        (.string "1", .string "z"),
        (.null, .string "v")]) := by
  intro s spec
  have runs : ∃ output, (transform s spec "openapi: 3").value = .ok output :=
    exists_of_is_ok (by decide +kernel)
  rcases runs with ⟨output, success⟩
  rcases schemas_of_output s spec "openapi: 3" output success with
    ⟨parsed, catalog, read, shown, -, unique⟩
  have parts : (Spec.ofText (s.prepare spec).value).toOption.map (fun parsed =>
      let renamed := (s.renameSpec parsed).value
      (renamed.namedPayloads, renamed.spelledSchemas, s.synthetic renamed)) =
        some ([(.string "A", .string "x"), (.string "2", .mapping []), (.string "RB", .string "p")],
          [(.string "1", .string "y"), (.string "1", .string "z"), (.string "RB", .string "u"),
            (.string "Messages", .string "w"), (.null, .string "v")],
          [(.string "RealtimeMessage", messageEnvelope), (.string "ServerMessages", oneOf ["2", "RB"]),
            (.string "ClientMessages", oneOf ["A"]), (.string "Messages", oneOf ["2", "RB"])]) := by
    decide +kernel
  rw [read] at parts
  simp only [Except.toOption, Option.map_some, Option.some.injEq, Prod.mk.injEq] at parts
  rcases parts with ⟨messages, schemas, synthetic⟩
  refine ⟨output, success, shown.trans (congrArg (some ∘ Value.mapping) (unique _ ?_).symm)⟩
  constructor
  · unfold Mapping.Distinct
    decide
  · rw [messages, schemas]
    decide +kernel
  · rw [messages, schemas, synthetic]
    decide +kernel

end MessageSchema
