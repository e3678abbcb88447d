import MessageSchema.Proofs.Mappings
import MessageSchema.Transform

/-!
What is read is well keyed. Every mapping of a document passes the check for repeated keys when its
value is made, also the copies that stand for aliases.
-/

namespace MessageSchema.Yaml

set_option autoImplicit false

namespace Node

theorem of_distinct (read rest : Mapping) {entries : Mapping}
    (passed : distinct? read rest = some entries) (distinct : Mapping.Distinct read) :
    entries = read ++ rest ∧ Mapping.Distinct entries := by
  induction rest generalizing read with
  | nil =>
      have same : read = entries := by simpa [distinct?] using passed
      exact ⟨by simp [same], same ▸ distinct⟩
  | cons entry rest ih =>
      rcases entry with ⟨key, value⟩
      simp only [distinct?] at passed
      split at passed
      · contradiction
      · next fresh =>
          have absent : ∀ earlier ∈ read, earlier.1.same key = false := by
            simpa [Mapping.contains] using fresh
          have grown : Mapping.Distinct (read ++ [(key, value)]) := by
            refine List.pairwise_append.2 ⟨distinct, List.pairwise_singleton _ _, ?_⟩
            intro earlier member last here
            rw [List.mem_singleton.1 here]
            exact absent earlier member
          have result := ih _ passed grown
          exact ⟨by rw [result.1, List.append_assoc]; rfl, result.2⟩

theorem forall_of_map_m {α β : Type} {step : α → Expanding β} {holds : β → Prop}
    (each : ∀ item count count' result, step item count = some (result, count') → holds result)
    (items : List α) {count count' : Nat} {results : List β}
    (run : items.mapM step count = some (results, count')) : ∀ result ∈ results, holds result := by
  induction items generalizing count count' results with
  | nil =>
      rw [List.mapM_nil] at run
      have empty : some (([] : List β), count) = some (results, count') := run
      cases empty
      simp
  | cons item rest ih =>
      rw [List.mapM_cons] at run
      obtain ⟨⟨first, middle⟩, head, run⟩ := Option.bind_eq_some_iff.1 run
      obtain ⟨⟨others, final⟩, tail, run⟩ := Option.bind_eq_some_iff.1 run
      have built : some (first :: others, final) = some (results, count') := run
      cases built
      intro result member
      rcases List.mem_cons.1 member with rfl | later
      · exact each _ _ _ _ head
      · exact ih tail _ later

theorem well_keyed_plain_value {plain : Bool} {text : String} {value : Value}
    (read : plainValue? plain text = some value) : value.WellKeyed := by
  unfold plainValue? at read
  split at read
  · rw [← Option.some.inj read]
    trivial
  · split at read
    case h_4 => contradiction
    all_goals
      rw [← Option.some.inj read]
      trivial

theorem well_keyed_scalar_value {label : Label} {plain : Bool} {text : String} {value : Value}
    (read : scalarValue? label plain text = some value) : value.WellKeyed := by
  cases label with
  | none => exact well_keyed_plain_value read
  | «local» name =>
      obtain ⟨inner, plainRead, rfl⟩ := Option.map_eq_some_iff.1 read
      have wellKeyed := well_keyed_plain_value plainRead
      exact wellKeyed
  | null =>
      simp only [scalarValue?] at read
      split at read
      · rw [← Option.some.inj read]
        trivial
      · contradiction
  | bool =>
      obtain ⟨b, _, rfl⟩ := Option.map_eq_some_iff.1 read
      trivial
  | int =>
      simp only [scalarValue?] at read
      split at read
      · rw [← Option.some.inj read]
        trivial
      · contradiction
  | float =>
      obtain ⟨x, _, rfl⟩ := Option.map_eq_some_iff.1 read
      trivial
  | other =>
      rw [← Option.some.inj read]
      trivial

theorem well_keyed_with_label (label : Label) {value : Value} (wellKeyed : value.WellKeyed) :
    (withLabel label value).WellKeyed := by
  cases label <;> exact wellKeyed

theorem well_keyed_value (targets : Nat → Option Node) (limit depth : Nat) (node : Node)
    (count count' : Nat) (result : Value)
    (run : value targets limit depth node count = some (result, count')) : result.WellKeyed := by
  induction depth generalizing node count count' result with
  | zero =>
      rw [value] at run
      obtain ⟨⟨followed, middle⟩, _, run⟩ := Option.bind_eq_some_iff.1 run
      cases followed with
      | scalar anchor label plain text =>
          obtain ⟨inner, read, same⟩ := Option.map_eq_some_iff.1 run
          cases same
          exact well_keyed_scalar_value read
      | sequence => simp at run
      | mapping => simp at run
      | aliasOf => simp at run
  | succ depth ih =>
      rw [value] at run
      obtain ⟨⟨followed, middle⟩, _, run⟩ := Option.bind_eq_some_iff.1 run
      cases followed with
      | scalar anchor label plain text =>
          obtain ⟨inner, read, same⟩ := Option.map_eq_some_iff.1 run
          cases same
          exact well_keyed_scalar_value read
      | sequence anchor label children =>
          obtain ⟨⟨values, last⟩, row, run⟩ := Option.bind_eq_some_iff.1 run
          cases run
          apply well_keyed_with_label
          exact (Value.well_keyed_items_iff values).2 (forall_of_map_m ih children row)
      | mapping anchor label children =>
          obtain ⟨⟨read, last⟩, row, run⟩ := Option.bind_eq_some_iff.1 run
          obtain ⟨entries, passed, same⟩ := Option.map_eq_some_iff.1 run
          cases same
          have unchanged := of_distinct [] read passed List.Pairwise.nil
          apply well_keyed_with_label
          refine ⟨unchanged.2, (Value.well_keyed_entries_iff _).2 ?_⟩
          rw [unchanged.1, List.nil_append]
          refine forall_of_map_m ?_ children row
          intro entry start stop result entryRun
          obtain ⟨⟨key, between⟩, keyRun, entryRun⟩ := Option.bind_eq_some_iff.1 entryRun
          obtain ⟨⟨body, after⟩, bodyRun, entryRun⟩ := Option.bind_eq_some_iff.1 entryRun
          cases entryRun
          exact ⟨ih _ _ _ _ keyRun, ih _ _ _ _ bodyRun⟩
      | aliasOf => simp at run

end Node

theorem well_keyed_of_text {text : String} {value : Value} (read : Value.ofText? text = some value) :
    value.WellKeyed := by
  obtain ⟨document, _, read⟩ := Option.bind_eq_some_iff.1 read
  unfold Document.value? at read
  split at read
  · cases read
    trivial
  · obtain ⟨⟨result, count⟩, run, same⟩ := Option.map_eq_some_iff.1 read
    cases same
    exact Node.well_keyed_value _ _ _ _ _ _ _ run

end MessageSchema.Yaml

namespace MessageSchema

/-- A description is what its text is read as. -/
theorem Spec.of_text_eq_ok_iff (text : String) (spec : Spec) :
    Spec.ofText text = .ok spec ↔ Yaml.Value.ofText? text = some spec.root := by
  obtain ⟨root⟩ := spec
  rw [Spec.ofText, readValue]
  cases Yaml.Value.ofText? text <;> simp [Functor.map, Except.map]

end MessageSchema
