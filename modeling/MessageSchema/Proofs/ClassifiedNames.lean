import MessageSchema.Proofs.ReferenceIntegrity

/-!
Names taken apart by a list. Each name goes to one of two sides according to whether it is on the
list, and neither side changes their order. The publish list divides the names of the messages in
this way, and the names of the messages divide the publish list into entries that meet a message and
entries that are warned of. The two sides of the messages are what the enumerations of a run show,
unless the description has a schema of its own under the same name.
-/

namespace MessageSchema

set_option autoImplicit false

open Yaml

/-- Names taken apart into those that are on a list and those that are not. -/
inductive Parts (listed : List String) : List String → List String → List String → Prop
  | nil : Parts listed [] [] []
  | on {name : String} {names ins outs : List String} (member : name ∈ listed)
      (others : Parts listed names ins outs) : Parts listed (name :: names) (name :: ins) outs
  | off {name : String} {names ins outs : List String} (absent : name ∉ listed)
      (others : Parts listed names ins outs) : Parts listed (name :: names) ins (name :: outs)

namespace Parts

variable {listed other names ins outs : List String}

theorem of_filter (listed names : List String) :
    Parts listed names (names.filter fun name => listed.contains name)
      (names.filter fun name => !listed.contains name) := by
  induction names with
  | nil => exact .nil
  | cons name rest ih =>
      by_cases member : name ∈ listed
      · rw [List.filter_cons_of_pos (by simpa using member),
          List.filter_cons_of_neg (by simpa using member)]
        exact .on member ih
      · rw [List.filter_cons_of_neg (by simpa using member),
          List.filter_cons_of_pos (by simpa using member)]
        exact .off member ih

theorem unique {ins' outs' : List String} (parts : Parts listed names ins outs)
    (parts' : Parts listed names ins' outs') : ins = ins' ∧ outs = outs' := by
  induction parts generalizing ins' outs' with
  | nil =>
      cases parts'
      exact ⟨rfl, rfl⟩
  | on member _ ih =>
      cases parts' with
      | on _ others =>
          obtain ⟨same, kept⟩ := ih others
          exact ⟨congrArg _ same, kept⟩
      | off absent _ => exact absurd member absent
  | off absent _ ih =>
      cases parts' with
      | on member _ => exact absurd member absent
      | off _ others =>
          obtain ⟨kept, same⟩ := ih others
          exact ⟨kept, congrArg _ same⟩

theorem mem_ins_iff (parts : Parts listed names ins outs) (name : String) :
    name ∈ ins ↔ name ∈ names ∧ name ∈ listed := by
  induction parts with
  | nil => simp
  | on member _ ih =>
      rw [List.mem_cons, List.mem_cons, ih]
      constructor
      · rintro (rfl | later)
        · exact ⟨Or.inl rfl, member⟩
        · exact ⟨Or.inr later.1, later.2⟩
      · rintro ⟨rfl | later, inside⟩
        · exact Or.inl rfl
        · exact Or.inr ⟨later, inside⟩
  | off absent _ ih =>
      rw [List.mem_cons, ih]
      constructor
      · exact fun later => ⟨Or.inr later.1, later.2⟩
      · rintro ⟨rfl | later, inside⟩
        · exact absurd inside absent
        · exact ⟨later, inside⟩

/-- Of a list nothing matters but which of the names are on it. -/
theorem of_agree (parts : Parts listed names ins outs)
    (agree : ∀ name ∈ names, name ∈ other ↔ name ∈ listed) : Parts other names ins outs := by
  induction parts with
  | nil => exact .nil
  | on member _ ih =>
      obtain ⟨first, others⟩ := List.forall_mem_cons.1 agree
      exact .on (first.2 member) (ih others)
  | off absent _ ih =>
      obtain ⟨first, others⟩ := List.forall_mem_cons.1 agree
      exact .off (fun member => absent (first.1 member)) (ih others)

theorem agree_iff (parts : Parts listed names ins outs) :
    Parts other names ins outs ↔ ∀ name ∈ names, name ∈ other ↔ name ∈ listed := by
  refine ⟨fun parts' name member => ?_, parts.of_agree⟩
  have first := parts.mem_ins_iff name
  have second := parts'.mem_ins_iff name
  simp only [member, true_and] at first second
  rw [← first, second]

end Parts

/-- The two sides of a classification are the names taken apart by the publish list. -/
theorem classify_eq_iff (publish names : List String) (c : Classification) :
    (classify publish names).value = c ↔ Parts publish names c.publish c.subscribe := by
  constructor
  · rintro rfl
    exact Parts.of_filter publish names
  · intro parts
    obtain ⟨ins, outs⟩ := (Parts.of_filter publish names).unique parts
    rcases c with ⟨_, _⟩
    exact Classification.mk.injEq .. ▸ ⟨ins, outs⟩

theorem classify_congr_iff (publish other names : List String) :
    (classify other names).value = (classify publish names).value ↔
      ∀ name ∈ names, name ∈ other ↔ name ∈ publish := by
  rw [classify_eq_iff]
  exact ((classify_eq_iff publish names _).1 rfl).agree_iff

namespace Spec

theorem last_at_spelled_schemas_of_unspelled {spec : Spec} {name : String}
    (unspelled : ∀ entry ∈ spec.entries .schemas, entry.1.spelling? ≠ some name) :
    Mapping.lastAt? spec.spelledSchemas (.string name) = none := by
  rw [Option.eq_none_iff_forall_ne_some, spelled_schemas_eq]
  intro body found
  obtain ⟨entry, member, equal, _⟩ := Mapping.exists_of_last_at found
  obtain ⟨source, sourceMember, rfl⟩ := List.mem_map.1 member
  exact unspelled source sourceMember
    ((respelled_eq_string_iff _ _).1 (Value.same_string.1 equal))

end Spec

/-- A synthetic schema is seen in the catalog unless the description has a schema of that name. -/
theorem Settings.Shows.find_synthetic {s : Settings} {spec : Spec} {catalog : Mapping}
    (shows : s.Shows spec catalog) {name : String} {body : Value}
    (member : (.string name, body) ∈ s.synthetic spec)
    (unspelled : ∀ entry ∈ spec.entries .schemas, entry.1.spelling? ≠ some name) :
    catalog.find? name = some body := by
  have key : Value.string name ∈ Mapping.keys (s.synthetic spec) := List.mem_map_of_mem member
  have there : Value.string name ∈ Mapping.keys catalog := by
    rw [shows.keys, Value.string_mem_firsts_iff]
    exact List.mem_append_left _ (List.mem_append_right _ key)
  obtain ⟨⟨_, found⟩, inside, rfl⟩ := List.mem_map.1 there
  have own : Mapping.valueAt? (s.synthetic spec) (.string name) = some body :=
    Mapping.value_at_of_mem (s.distinct_synthetic spec) member
  have value := shows.body _ inside
  rw [Spec.last_at_spelled_schemas_of_unspelled unspelled, Option.none_or, own, Option.some_or,
    Option.some.injEq] at value
  rw [Mapping.find_eq_some_iff shows.distinct]
  exact value ▸ inside

def Output.schema? (output : Output) (name : String) : Option Value :=
  ((output.document.get? "components").bind (·.get? "schemas")).bind (·.get? name)

theorem Settings.Shows.schema {s : Settings} {spec : Spec} {catalog : Mapping} {output : Output}
    (shows : s.Shows spec catalog)
    (shown : (output.document.get? "components").bind (·.get? "schemas") = some (.mapping catalog))
    {name : String} {body : Value} (member : (.string name, body) ∈ s.synthetic spec)
    (unspelled : ∀ entry ∈ spec.sectionEntries "schemas", entry.1.spelling? ≠ some name) :
    output.schema? name = some body := by
  rw [Output.schema?, shown]
  apply shows.find_synthetic member
  rw [Spec.entries_eq_section_entries]
  exact unspelled

/-- Names are taken apart by the publish list, entry by entry and whatever the order and the
repetitions of the list; the entries of the list that are no names are warned of. In a run the names
are those of the renamed description, and the enumerations list their sides unless a schema of the
description takes their place. -/
theorem classification_of_output :
    (∀ publish names : List String,
      Parts publish names (classify publish names).value.publish
        (classify publish names).value.subscribe ∧
      (∃ met missed, Parts names publish met missed ∧
        (classify publish names).warnings = missed.map .unmatchedPublish) ∧
      (∀ more, (classify publish (names ++ more)).value =
        ⟨(classify publish names).value.publish ++ (classify publish more).value.publish,
          (classify publish names).value.subscribe ++ (classify publish more).value.subscribe⟩) ∧
      ∀ other, (classify other names).value = (classify publish names).value ↔
        ∀ name ∈ names, name ∈ other ↔ name ∈ publish) ∧
    ∀ (s : Settings) (spec template : String) (output : Output),
      (transform s spec template).value = .ok output →
      ∃ parsed, Spec.ofText (s.prepare spec).value = .ok parsed ∧
        let renamed := (s.renameSpec parsed).value
        let sides := output.classification
        let oneOf (names : List String) : Value := .mapping [(.string "type", .string "string"),
          (.string "enum", .sequence (names.map .string))]
        let unspelled (name : String) : Prop :=
          ∀ entry ∈ renamed.sectionEntries "schemas", entry.1.spelling? ≠ some name
        sides = (classify s.publish renamed.named).value ∧
        (unspelled "ServerMessages" →
          output.schema? "ServerMessages" = some (oneOf sides.subscribe)) ∧
        (unspelled "Messages" → output.schema? "Messages" = some (oneOf sides.subscribe)) ∧
        (unspelled "ClientMessages" → output.schema? "ClientMessages" = some (oneOf
          (match s.clientMessages with
            | .subscribe => sides.subscribe
            | .publish => sides.publish))) := by
  constructor
  · intro publish names
    exact ⟨(classify_eq_iff publish names _).1 rfl, ⟨_, _, Parts.of_filter names publish, rfl⟩,
      Classification.of_names_append publish names,
      fun other => classify_congr_iff publish other names⟩
  · intro s spec template output success
    rcases transform_ok success with ⟨parsed, base, read, -, assembled, classified⟩
    refine ⟨parsed, read, ?_⟩
    intro renamed sides oneOf unspelled
    have shows := s.shows_build_catalog (keyed_rename_spec s (well_keyed_of_spec_text read) .schemas)
    have schemas : s.synthetic renamed = Synthetic.schemas sides s.clientMessages := by
      rw [s.synthetic_eq, ← classified]
    have shown : ∀ name body, (.string name, body) ∈ Synthetic.schemas sides s.clientMessages →
        unspelled name → output.schema? name = some body := by
      rw [← schemas]
      intro name body member free
      exact shows.schema (get_schemas_assemble assembled) member free
    have clients : s.clientMessages.names sides =
        (match s.clientMessages with
          | .subscribe => sides.subscribe
          | .publish => sides.publish) := by
      cases s.clientMessages <;> rfl
    refine ⟨?_, shown _ _ (.tail _ (.head _)), shown _ _ (.tail _ (.tail _ (.tail _ (.head _)))), ?_⟩
    · rw [renamed.named_eq]
      exact classified
    · rw [← clients]
      exact shown _ _ (.tail _ (.tail _ (.head _)))

/-- A message is published under its new name, and the description has a schema of its own in the
place of one enumeration. -/
theorem classification_of_output_shadowed :
    let s : Settings :=
      { publish := ["RealtimeA", "Lost"], targets := ["A"], clientMessages := .publish }
    let spec := "components:\n messages:\n  A: {}\n  B: {}\n  C: {}\n schemas:\n  Messages: x"
    ∃ output, (transform s spec "").value = .ok output ∧
      output.classification = ⟨["RealtimeA"], ["B", "C"]⟩ ∧
      output.schema? "ServerMessages" = some (.mapping [(.string "type", .string "string"),
        (.string "enum", .sequence [.string "B", .string "C"])]) ∧
      output.schema? "ClientMessages" = some (.mapping [(.string "type", .string "string"),
        (.string "enum", .sequence [.string "RealtimeA"])]) ∧
      (classify ["RealtimeA", "Lost", "RealtimeA"] ["RealtimeA", "B", "C"]).value =
        output.classification := by
  intro s spec
  have runs : ∃ output, (transform s spec "").value = .ok output :=
    exists_of_is_ok (by decide +kernel)
  rcases runs with ⟨output, success⟩
  rcases classification_of_output with ⟨names, run⟩
  rcases run s spec "" output success with ⟨parsed, read, classified, server, -, client⟩
  have keys : ((Spec.ofText (s.prepare spec).value).toOption.map fun parsed =>
      ((s.renameSpec parsed).value.named,
        ((s.renameSpec parsed).value.sectionEntries "schemas").map (·.1.spelling?))) =
        some (["RealtimeA", "B", "C"], [some "Messages"]) := by decide +kernel
  rw [read] at keys
  rcases Prod.mk.inj (Option.some.inj keys) with ⟨messages, spelled⟩
  have sides : output.classification = ⟨["RealtimeA"], ["B", "C"]⟩ := by
    rw [classified, messages]
    decide
  have unspelled : ∀ name, name ≠ "Messages" →
      ∀ entry ∈ (s.renameSpec parsed).value.sectionEntries "schemas",
        entry.1.spelling? ≠ some name := by
    intro name other entry member named
    have listed := List.mem_map_of_mem (f := fun entry => entry.1.spelling?) member
    rw [spelled, named, List.mem_singleton] at listed
    exact other (Option.some.inj listed)
  have repeated : (classify ["RealtimeA", "Lost", "RealtimeA"] ["RealtimeA", "B", "C"]).value =
      (classify s.publish ["RealtimeA", "B", "C"]).value :=
    ((names s.publish ["RealtimeA", "B", "C"]).2.2.2 _).2 (by decide)
  rw [sides] at server client
  refine ⟨output, success, sides, ?_, ?_, ?_⟩
  · exact server (unspelled "ServerMessages" (by decide))
  · exact client (unspelled "ClientMessages" (by decide))
  · rw [repeated, classified, messages]

end MessageSchema
