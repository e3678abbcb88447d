import MessageSchema.Proofs.Outcome
import MessageSchema.Proofs.ReferenceIntegrity
import MessageSchema.Proofs.RenameComposition
import MessageSchema.Proofs.Spellings
import MessageSchema.Proofs.ValueEquality

/-!
A document that is transformed again. What a run has made is settled: its keys and references are
new already, and the synthetic schemas are among its own. A further run on it therefore only moves
these to the front, and once they stand there every run gives the same again.
-/

namespace MessageSchema

set_option autoImplicit false

open Yaml Rename

namespace Rename.Rules

/-- Rules whose new names they leave alone. -/
abbrev Repeatable (rules : Rules) : Prop := Compose rules rules rules

theorem repeatable_of_targets {lead : String} {targets : List String}
    (ident : ∀ c ∈ lead.toList, Text.isIdentChar c = true)
    (settled : ∀ target ∈ targets, lead ++ target ∉ targets) :
    Repeatable (ofTargets lead targets) := by
  have twice := compose_of_targets ident fun target listed _ => settled target listed
  exact ⟨fun _ => Option.or_self.symm, twice.settled, twice.apart, twice.clean⟩

theorem Repeatable.rename {rules : Rules} (again : rules.Repeatable) (name : String) :
    rules.rename (rules.rename name) = rules.rename name := by
  have keys := again.key (.string name)
  simpa only [key_string, Value.string.injEq] using keys

theorem Repeatable.references {rules : Rules} (again : rules.Repeatable) :
    rules.reference ∘ rules.reference = rules.reference := by
  funext reference
  rw [Function.comp, again.reference]

theorem Repeatable.map_under {rules : Rules} (again : rules.Repeatable) (key value : Value) :
    mapUnder rules.reference key (mapUnder rules.reference key value) =
      mapUnder rules.reference key value := by
  rw [map_under_map_under, again.references]

theorem Repeatable.map_references {rules : Rules} (again : rules.Repeatable) (value : Value) :
    mapReferences rules.reference (mapReferences rules.reference value) =
      mapReferences rules.reference value := by
  rw [map_references_comp, again.references]

end Rename.Rules

namespace Synthetic

def isSynthetic (key : Value) : Bool := names.any fun name => key.isString name

theorem is_synthetic_iff (key : Value) : isSynthetic key = true ↔ key ∈ names.map .string := by
  simp only [isSynthetic, List.any_eq_true, Value.is_string_iff, List.mem_map, @eq_comm _ key]

theorem is_synthetic_eq (key : Value) :
    isSynthetic key = (names.map Value.string).any fun name => name.same key := by
  rw [Bool.eq_iff_iff, is_synthetic_iff, List.any_eq_true]
  constructor
  · exact fun listed => ⟨key, listed, Value.same_refl key⟩
  · rintro ⟨found, listed, equal⟩
    obtain ⟨name, _, rfl⟩ := List.mem_map.1 listed
    rwa [← Value.string_same.1 equal]

end Synthetic

namespace Settings

theorem plain_synthetic (s : Settings) (spec : Spec) :
    ∀ entry ∈ s.synthetic spec, isReferenceKey entry.1 = false := by
  intro entry member
  simp only [synthetic, List.mem_cons, List.not_mem_nil, or_false] at member
  rcases member with rfl | rfl | rfl | rfl <;> rfl

/-- Of the synthetic schemas only the envelope refers to anything, and that to one of them. -/
theorem references_synthetic (s : Settings) (spec : Spec) :
    ∀ entry ∈ s.synthetic spec, ∀ reference ∈ references entry.2,
      reference = schemaReference "Messages" := by
  intro entry member reference found
  have enumeration : ∀ names, reference ∉ references (oneOf names) := fun names listed =>
    not_refers_one_of reference names (reached_of_mem _ listed).refers
  simp only [synthetic, List.mem_cons, List.not_mem_nil, or_false] at member
  rcases member with rfl | rfl | rfl | rfl
  · rw [references_message_envelope] at found
    exact List.mem_singleton.1 found
  all_goals exact absurd found (enumeration _)

/-- A key that no further run changes. -/
structure FinalKey (s : Settings) (key : Value) : Prop where
  renamed : s.rules.key key = key
  spelled : Spec.respelled key = key

theorem final_key_string {s : Settings} {name : String} (kept : s.rules.rename name = name) :
    s.FinalKey (.string name) :=
  ⟨by rw [Rules.key_string, kept], rfl⟩

theorem final_key_respelled {s : Settings} (again : s.rules.Repeatable) (key : Value) :
    s.FinalKey (Spec.respelled (s.rules.key key)) := by
  cases spelled : key.spelling? with
  | some name =>
      rw [Spec.respelled_key s.rules spelled]
      exact final_key_string (again.rename name)
  | none =>
      have kept : s.rules.key key = key := Rules.key_of_kept (by rw [spelled]; rfl)
      have same : Spec.respelled key = key := by simp [Spec.respelled, spelled]
      rw [kept, same]
      exact ⟨kept, same⟩

/-- A catalog that holds the synthetic schemas and that no rule changes. -/
structure Settled (s : Settings) (catalog : Catalog) : Prop where
  distinct : Mapping.Distinct catalog
  synthetic : ∀ name ∈ Synthetic.names, .string name ∈ Mapping.keys catalog
  key : ∀ entry ∈ catalog, s.FinalKey entry.1
  body : ∀ entry ∈ catalog, mapUnder s.rules.reference entry.1 entry.2 = entry.2

/-- What the settings have to leave alone for their output to be settled. -/
structure Separates (s : Settings) (spec : Spec) : Prop where
  repeatable : s.rules.Repeatable
  synthetic : ∀ name ∈ Synthetic.names, s.rules.rename name = name
  messages : ∀ name ∈ spec.messageNames, s.rules.rename name ≠ referenceKey

theorem separates_of_validated {s : Settings} {spec : Spec} (accepted : s.validated = .ok s)
    (settled : ∀ target ∈ s.targets, s.lead ++ target ∉ s.targets)
    (free : ∀ name ∈ Synthetic.names, name ∉ s.targets)
    (plain : referenceKey ∉ spec.messageNames) : s.Separates spec := by
  obtain ⟨ident, _, filled⟩ := checked_of_validated accepted
  have rename : ∀ name, s.rules.rename name = if name ∈ s.targets then s.lead ++ name else name :=
    Rules.rename_of_targets filled
  refine ⟨Rules.repeatable_of_targets ident settled, ?_, ?_⟩
  · intro name listed
    rw [rename, if_neg (free name listed)]
  · intro name member
    have other : name ≠ referenceKey := fun same => plain (same ▸ member)
    rw [rename]
    split
    · exact Rules.append_ne_reference_key ident other
    · exact other

section

variable {s : Settings} {spec : Spec} {catalog : Catalog} (separates : s.Separates spec)
  (wellKeyed : spec.root.WellKeyed)

include separates wellKeyed in
theorem name_of_renamed {entry : Value × Value} {name : String}
    (member : entry ∈ (Spec.mk (s.rules.tree spec.root)).entries .messages)
    (spelled : entry.1.spelling? = some name) :
    s.rules.rename name = name ∧ name ≠ referenceKey := by
  obtain ⟨⟨origin, originMember, key⟩, _⟩ := s.rules.entry_of_renamed wellKeyed member
  rw [key, Rules.spelling_key] at spelled
  obtain ⟨old, named, rfl⟩ := Option.map_eq_some_iff.1 spelled
  refine ⟨separates.repeatable.rename old, separates.messages old ?_⟩
  refine List.mem_map.2 ⟨⟨old, origin.2.get? "payload"⟩, List.mem_filterMap.2 ?_, rfl⟩
  exact ⟨origin, originMember, by simp [Spec.message?, named]⟩

include separates wellKeyed in
theorem final_key_of_shows (shows : s.Shows ⟨s.rules.tree spec.root⟩ catalog) :
    ∀ entry ∈ catalog, s.FinalKey entry.1 := by
  intro entry member
  have listed : entry.1 ∈ Mapping.keys catalog := List.mem_map_of_mem member
  rw [shows.keys] at listed
  rcases List.mem_append.1 (Value.mem_of_mem_firsts listed) with built | own
  · rcases List.mem_append.1 built with payload | synthetic
    · obtain ⟨named, namedMember, key⟩ := List.mem_map.1 payload
      obtain ⟨renamed, renamedMember, name, spelled, rfl⟩ := Spec.mem_named_payloads namedMember
      rw [← key]
      exact final_key_string (name_of_renamed separates wellKeyed renamedMember spelled).1
    · have listed : entry.1 ∈ Synthetic.names.map Value.string := synthetic
      obtain ⟨name, nameMember, key⟩ := List.mem_map.1 listed
      rw [← key]
      exact final_key_string (separates.synthetic name nameMember)
  · obtain ⟨spelled, spelledMember, key⟩ := List.mem_map.1 own
    rw [Spec.spelled_schemas_eq] at spelledMember
    obtain ⟨renamed, renamedMember, rfl⟩ := List.mem_map.1 spelledMember
    obtain ⟨⟨origin, _, new⟩, _⟩ := s.rules.entry_of_renamed wellKeyed renamedMember
    rw [← key, new]
    exact final_key_respelled separates.repeatable origin.1

include separates wellKeyed in
/-- The rules have done their work on every body of the catalog. That of a payload stands under the
name of a message and not where it stood before, so that name must not introduce references. -/
theorem body_of_shows (shows : s.Shows ⟨s.rules.tree spec.root⟩ catalog) :
    ∀ entry ∈ catalog, mapUnder s.rules.reference entry.1 entry.2 = entry.2 := by
  intro entry member
  have body := (shows.body entry member).symm
  rcases Option.or_eq_some_iff.1 body with own | ⟨_, rest⟩
  · obtain ⟨spelled, spelledMember, equal, same⟩ := Mapping.exists_of_last_at own
    rw [Spec.spelled_schemas_eq] at spelledMember
    obtain ⟨renamed, renamedMember, rfl⟩ := List.mem_map.1 spelledMember
    obtain ⟨_, last, _, _, changed⟩ := s.rules.entry_of_renamed wellKeyed renamedMember
    -- The key in the catalog is a spelling of the one under which the references were changed.
    have under : mapUnder s.rules.reference entry.1 entry.2 =
        mapUnder s.rules.reference renamed.1 entry.2 := by
      rw [← map_under_of_same _ equal]
      simp only [mapUnder, Spec.is_reference_key_respelled]
    rw [under, ← same, changed]
    exact separates.repeatable.map_under _ _
  · rcases Option.or_eq_some_iff.1 rest with synthetic | ⟨_, payload⟩
    · obtain ⟨source, sourceMember, equal, same⟩ := Mapping.exists_of_value_at synthetic
      have messages : s.rules.rename "Messages" = "Messages" := separates.synthetic _ (by decide)
      have kept : mapReferences s.rules.reference source.2 = source.2 := by
        apply map_references_of_fixed
        intro reference found
        rw [s.references_synthetic _ source sourceMember reference found,
          reference_schema_reference _ (by decide), messages]
      rw [← map_under_of_same _ equal, ← same,
        map_under_of_other (s.plain_synthetic _ source sourceMember), kept]
    · obtain ⟨named, namedMember, equal, same⟩ := Mapping.exists_of_last_at payload
      obtain ⟨renamed, renamedMember, name, spelled, rfl⟩ := Spec.mem_named_payloads namedMember
      have other := (name_of_renamed separates wellKeyed renamedMember spelled).2
      have plain : isReferenceKey (.string name) = false := by
        rw [is_reference_key_string, beq_eq_false_iff_ne]
        exact other
      obtain ⟨_, last, _, _, changed⟩ := s.rules.entry_of_renamed wellKeyed renamedMember
      have made : entry.2 = mapReferences s.rules.reference (Spec.payloadOf last.2) := by
        rw [← Spec.payload_of_map_under, ← changed, ← same]
      rw [← map_under_of_same _ equal, map_under_of_other plain, made]
      exact separates.repeatable.map_references _

include separates wellKeyed in
theorem settled_of_shows (shows : s.Shows ⟨s.rules.tree spec.root⟩ catalog) :
    s.Settled catalog where
  distinct := shows.distinct
  synthetic := by
    intro name listed
    rw [shows.keys, Value.string_mem_firsts_iff]
    have synthetic : Value.string name ∈ Synthetic.names.map Value.string :=
      List.mem_map_of_mem listed
    exact List.mem_append_left _ (List.mem_append_right _ synthetic)
  key := final_key_of_shows separates wellKeyed shows
  body := body_of_shows separates wellKeyed shows

end

/-- The catalog of a further run, which meets no message: enumerations of nothing come first, and
the schemas that are there already take their place. -/
def again (s : Settings) (catalog : Catalog) : Catalog :=
  Mapping.ofEntries (Synthetic.schemas .empty s.clientMessages ++ catalog)

namespace Settled

variable {s : Settings} {catalog : Catalog} (settled : s.Settled catalog)

include settled in
theorem keys_again : Mapping.keys (s.again catalog) =
    Synthetic.names.map .string ++
      (Mapping.keys catalog).filter fun key => !Synthetic.isSynthetic key := by
  have apart : (Mapping.keys catalog).Pairwise fun a b => a.same b = false :=
    List.pairwise_map.2 settled.distinct
  have names : (Synthetic.names.map Value.string).foldl Value.note [] =
      Synthetic.names.map Value.string := by rfl
  have front : Mapping.keys (Synthetic.schemas .empty s.clientMessages ++ catalog) =
      Synthetic.names.map .string ++ Mapping.keys catalog := rfl
  rw [Settings.again, Mapping.keys_of_entries, front, Value.firsts, List.foldl_append, names,
    Value.foldl_note_of_distinct apart]
  congr 1
  apply List.filter_congr
  intro key _
  rw [Synthetic.is_synthetic_eq]

include settled in
theorem mem_keys_again (key : Value) :
    key ∈ Mapping.keys (s.again catalog) ↔ key ∈ Mapping.keys catalog := by
  rw [settled.keys_again, List.mem_append, List.mem_filter, Bool.not_eq_true',
    ← Bool.not_eq_true, Synthetic.is_synthetic_iff]
  constructor
  · rintro (synthetic | own)
    · obtain ⟨name, listed, rfl⟩ := List.mem_map.1 synthetic
      exact settled.synthetic name listed
    · exact own.1
  · intro member
    by_cases synthetic : key ∈ Synthetic.names.map .string
    · exact Or.inl synthetic
    · exact Or.inr ⟨member, synthetic⟩

variable (keyed : Mapping.Keyed catalog)

include keyed in
theorem keyed_again : Mapping.Keyed (s.again catalog) :=
  Mapping.keyed_of_entries (Mapping.keyed_append.2 ⟨Synthetic.keyed_schemas _ _, keyed⟩)

include settled keyed in
theorem mem_again (entry : Value × Value) : entry ∈ s.again catalog ↔ entry ∈ catalog := by
  have kept : ∀ entry ∈ s.again catalog, entry ∈ catalog := by
    intro entry member
    have wellKeyed := keyed_again keyed entry member
    obtain ⟨found, foundMember, key⟩ :=
      List.mem_map.1 ((settled.mem_keys_again entry.1).1 (List.mem_map_of_mem member))
    have there : Mapping.valueAt? catalog entry.1 = some found.2 :=
      key ▸ Mapping.value_at_of_mem settled.distinct foundMember
    -- The schema that was there comes after the fresh one of its name, so it counts.
    have value := Mapping.value_at_of_mem (Mapping.distinct_of_entries _) member
    rw [Mapping.value_at_of_entries
        (Mapping.keyed_append.2 ⟨Synthetic.keyed_schemas _ _, keyed⟩) wellKeyed,
      Mapping.last_at_append, Mapping.last_at_of_distinct settled.distinct keyed wellKeyed, there,
      Option.some_or, Option.some.injEq] at value
    have whole : found = entry := Prod.ext key value
    exact whole ▸ foundMember
  refine ⟨kept entry, fun member => ?_⟩
  obtain ⟨found, foundMember, key⟩ :=
    List.mem_map.1 ((settled.mem_keys_again entry.1).2 (List.mem_map_of_mem member))
  have whole := Mapping.eq_of_key settled.distinct (kept found foundMember) member key
  exact whole ▸ foundMember

include settled keyed in
theorem perm_again : (s.again catalog).Perm catalog := by
  have distinct : Mapping.Distinct (s.again catalog) := Mapping.distinct_of_entries _
  exact (List.perm_ext_iff_of_nodup (Mapping.nodup_of_distinct distinct)
    (Mapping.nodup_of_distinct settled.distinct)).2 (settled.mem_again keyed)

include settled keyed in
theorem settled_again : s.Settled (s.again catalog) where
  distinct := Mapping.distinct_of_entries _
  synthetic := fun name listed => (settled.mem_keys_again _).2 (settled.synthetic name listed)
  key := fun entry member => settled.key entry ((settled.mem_again keyed entry).1 member)
  body := fun entry member => settled.body entry ((settled.mem_again keyed entry).1 member)

include settled keyed in
/-- With the synthetic schemas in front there is nothing left to move. -/
theorem again_again : s.again (s.again catalog) = s.again catalog := by
  have next := settled.settled_again keyed
  apply Mapping.eq_of_keys next.distinct
  · have names : (Synthetic.names.map Value.string).filter
        (fun key => !Synthetic.isSynthetic key) = [] := by decide
    rw [next.keys_again, settled.keys_again, List.filter_append, names, List.filter_filter]
    simp
  · exact fun entry => ((next.mem_again (keyed_again keyed)) entry).1

include settled in
theorem entries_tree {root : Value} (wellKeyed : root.WellKeyed)
    (shown : root.get? "components" = some catalog.components) :
    (Spec.mk (s.rules.tree root)).entries .schemas = catalog ∧
      (Spec.mk (s.rules.tree root)).entries .messages = [] := by
  have own : ∀ part, (Spec.mk root).entries part =
      plainEntries (Mapping.find? [(.string "schemas", .mapping catalog)] part.name) := by
    intro part
    rw [Spec.entries_eq, shown]
    rfl
  have schemas : (Spec.mk root).entries .schemas = catalog := own .schemas
  have messages : (Spec.mk root).entries .messages = [] := own .messages
  have renamed : s.rules.renamedEntries catalog = catalog :=
    Mapping.map_keys_of_fixed fun entry member => (settled.key entry member).renamed
  rw [Spec.entries_tree _ wellKeyed, Spec.entries_tree _ wellKeyed, schemas, messages]
  constructor
  · rw [Rules.definitions, renamed, Mapping.of_entries_of_distinct settled.distinct,
      map_references_entries_of_kept settled.body]
  · rfl

include settled in
theorem catalog_again {root : Value} (wellKeyed : root.WellKeyed)
    (shown : root.get? "components" = some catalog.components) :
    (Spec.mk (s.rules.tree root)).messageNames = [] ∧
      (buildCatalog s ⟨s.rules.tree root⟩).value.2 = s.again catalog := by
  obtain ⟨schemas, messages⟩ := settled.entries_tree wellKeyed shown
  have keyed : Mapping.Keyed ((Spec.mk (s.rules.tree root)).entries .schemas) :=
    (Spec.distinct_entries (s.rules.well_keyed_tree wellKeyed) .schemas).2
  have unnamed : (Spec.mk (s.rules.tree root)).messageNames = [] := by
    rw [Spec.messageNames, Spec.messages, messages]
    rfl
  have payloads : (Spec.mk (s.rules.tree root)).namedPayloads = [] := by
    rw [Spec.named_payloads_eq, messages]
    rfl
  have spelled : (Spec.mk (s.rules.tree root)).spelledSchemas = catalog := by
    rw [Spec.spelled_schemas_eq, schemas]
    exact Mapping.map_keys_of_fixed fun entry member => (settled.key entry member).spelled
  refine ⟨unnamed, ?_⟩
  rw [catalog_eq_of_entries s keyed, Settings.schemaEntries, s.synthetic_eq, payloads, unnamed,
    spelled]
  rfl

include settled in
theorem run_again (mode : s.mode = .tree) {text next : String} {root : Value} {entries : Mapping}
    (read : Value.ofText? text = some root)
    (shown : root.get? "components" = some catalog.components)
    (readNext : Value.ofText? next = some (.mapping entries)) :
    ∃ run, (transform s text next).value = .ok run ∧ run.classification = .empty ∧
      run.document =
        .mapping (Mapping.insert entries (.string "components") (s.again catalog).components) := by
  obtain ⟨unnamed, built⟩ := settled.catalog_again (well_keyed_of_text read) shown
  rw [← prepare_of_tree mode text] at read
  have run := transform_of_read (spec_text_of_of_text read) (read_value_of_of_text .template readNext)
  rw [rename_spec_of_tree mode, unnamed, built] at run
  exact ⟨_, run, rfl, rfl⟩

end Settled

end Settings

theorem keyed_of_shown {root : Value} {catalog : Catalog} (wellKeyed : root.WellKeyed)
    (shown : root.get? "components" = some catalog.components) : Mapping.Keyed catalog := by
  have found : catalog.components.get? "schemas" = some (.mapping catalog) := rfl
  have inside := well_keyed_of_get (well_keyed_of_get wellKeyed shown) found
  exact fun entry member => ((Value.well_keyed_entries_iff catalog).1 inside.2 entry member).1

/-- A catalog that has the same schemas as another, the synthetic ones first and the others in
order. -/
structure SyntheticFirst (catalog other : Catalog) : Prop where
  schemas : catalog.Perm other
  order : Mapping.keys catalog = Synthetic.names.map .string ++
    (Mapping.keys other).filter fun key => !Synthetic.isSynthetic key

/-- The output of a run can be fed back in. All schemas are preserved, and once more changes nothing
at all. -/
theorem rerun_of_output (s : Settings) (spec template : String) (parsed : Spec) (output : Output)
    (accepted : s.validated = .ok s) (mode : s.mode = .tree)
    (settled : ∀ target ∈ s.targets, s.lead ++ target ∉ s.targets)
    (free : ∀ name ∈ Synthetic.names, name ∉ s.targets)
    (read : Spec.ofText spec = .ok parsed) (plain : referenceKey ∉ parsed.messageNames)
    (success : (transform s spec template).value = .ok output) :
    ∃ catalog,
      (output.document.get? "components").bind (·.get? "schemas") = some (.mapping catalog) ∧
      ∀ text next entries, Value.ofText? text = some output.document →
        Value.ofText? next = some (.mapping entries) →
        ∃ second catalog', (transform s text next).value = .ok second ∧
          second.classification = .empty ∧
          (second.document.get? "components").bind (·.get? "schemas") = some (.mapping catalog') ∧
          SyntheticFirst catalog' catalog ∧
          ∀ text', Value.ofText? text' = some second.document →
            ∃ third, (transform s text' next).value = .ok third ∧
              third.document = second.document := by
  obtain ⟨parsed', base, read', _, assembled, _⟩ := transform_ok success
  rw [Settings.prepare_of_tree mode, read, Except.ok.injEq] at read'
  subst read'
  rw [Settings.rename_spec_of_tree mode] at assembled
  have wellKeyed := well_keyed_of_spec_text read
  have separates := Settings.separates_of_validated accepted settled free plain
  have shows := s.shows_build_catalog
    (Spec.distinct_entries (s.rules.well_keyed_tree wellKeyed) .schemas).2
  have final := Settings.settled_of_shows separates wellKeyed shows
  have shown := get_components_assemble assembled
  refine ⟨_, get_schemas_assemble assembled, ?_⟩
  intro text next entries readText readNext
  have keyed := keyed_of_shown (well_keyed_of_text readText) shown
  obtain ⟨second, run, empty, document⟩ := final.run_again mode readText shown readNext
  have assembled' : Catalog.assemble (s.again _) (.mapping entries) = .ok second.document :=
    congrArg Except.ok document.symm
  refine ⟨second, _, run, empty, get_schemas_assemble assembled',
    ⟨final.perm_again keyed, final.keys_again⟩, ?_⟩
  intro text' readText'
  have shown' := get_components_assemble assembled'
  obtain ⟨third, run', _, document'⟩ :=
    (final.settled_again keyed).run_again mode readText' shown' readNext
  rw [final.again_again keyed, ← document] at document'
  exact ⟨third, run', document'⟩

/-- A renamed schema with the name of a message and the output fed back in on another template: the
synthetic schemas come first, and nothing else changes. -/
theorem rerun_of_output_renamed :
    let s : Settings := { publish := [], targets := ["B"], lead := "R" }
    let spec := "components:\n messages:\n  B: {payload: y}\n schemas:\n  B: x"
    let text := "a: b\ncomponents:\n schemas:\n  RB: x\n  RealtimeMessage:\n   type: object\n" ++
      "   properties:\n    message:\n     $ref: \"#/components/schemas/Messages\"\n" ++
      "  ServerMessages: &e\n   type: string\n   enum: [RB]\n  ClientMessages: *e\n" ++
      "  Messages: *e"
    let enumeration : Value := .mapping [(.string "type", .string "string"),
      (.string "enum", .sequence [.string "RB"])]
    let synthetic : Mapping := [
      (.string "RealtimeMessage", .mapping [(.string "type", .string "object"),
        (.string "properties", .mapping [(.string "message",
          .mapping [(.string "$ref", .string "#/components/schemas/Messages")])])]),
      (.string "ServerMessages", enumeration), (.string "ClientMessages", enumeration),
      (.string "Messages", enumeration)]
    let first : Mapping := (.string "RB", .string "x") :: synthetic
    let second : Mapping := synthetic ++ [(.string "RB", .string "x")]
    let document (key value : String) (catalog : Mapping) : Value :=
      .mapping [(.string key, .string value),
        (.string "components", .mapping [(.string "schemas", .mapping catalog)])]
    ∃ output output', (transform s spec "a: b").value = .ok output ∧
      output.document = document "a" "b" first ∧
      (transform s text "c: d").value = .ok output' ∧ output'.classification = .empty ∧
      output'.document = document "c" "d" second ∧ SyntheticFirst second first := by
  intro s spec text enumeration synthetic firstCatalog secondCatalog document
  have spec? : (Spec.ofText spec).toOption.map Spec.messageNames = some ["B"] := by decide +kernel
  have next? : Value.ofText? "c: d" = some (.mapping [(.string "c", .string "d")]) := by
    decide +kernel
  have text? : Value.ofText? text = some (document "a" "b" firstCatalog) := by decide +kernel
  have output? : (transform s spec "a: b").value.toOption.map (·.document) =
      some (document "a" "b" firstCatalog) := by decide +kernel
  have again? : (transform s text "c: d").value.toOption.map (·.document) =
      some (document "c" "d" secondCatalog) := by decide +kernel
  rcases Option.map_eq_some_iff.1 spec? with ⟨parsed, read, named⟩
  rcases Option.map_eq_some_iff.1 output? with ⟨output, success, shown⟩
  have success := ok_of_to_option success
  have accepted : s.validated = .ok s :=
    (Settings.validated_eq_ok_iff s s).2 ⟨by decide +kernel, rfl⟩
  rcases rerun_of_output s spec "a: b" parsed output accepted rfl (by decide) (by decide)
    (ok_of_to_option read) (by simp [named, referenceKey]) success with ⟨catalog, schemas, reruns⟩
  have same : firstCatalog = catalog := by
    rw [shown] at schemas
    exact Value.mapping.inj (Option.some.inj schemas)
  rcases reruns text "c: d" _ (shown ▸ text?) next? with
    ⟨output', catalog', run, empty, schemas', first, -⟩
  have shown' : output'.document = document "c" "d" secondCatalog := by
    rw [run] at again?
    exact Option.some.inj again?
  have same' : secondCatalog = catalog' := by
    rw [shown'] at schemas'
    exact Value.mapping.inj (Option.some.inj schemas')
  rw [← same, ← same'] at first
  exact ⟨output, output', success, shown, run, empty, shown', first⟩

end MessageSchema
