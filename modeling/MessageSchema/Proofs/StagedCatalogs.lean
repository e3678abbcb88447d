import MessageSchema.Proofs.Mappings
import MessageSchema.Assembly
import Mathlib.Algebra.GroupWithZero.Nat

/-!
Catalogs staged in turn. A stage adds its schemas one by one, so a row of stages does what one stage
with all their schemas in a row does, and it makes no difference where the row is cut. The key of a
schema stands where it was first staged, its body is that of the last catalog that has the key, and
every schema that was staged is either in the result or was reported when another took its place.
-/

namespace MessageSchema

set_option autoImplicit false

open Yaml

namespace Catalog

def stageAll (base : Catalog) (stages : List Catalog) : Noted Catalog := stages.foldlM stage base

theorem stage_all_cons (base first : Catalog) (rest : List Catalog) :
    base.stageAll (first :: rest) = (base.stage first).andThen (stageAll · rest) := by
  rw [stageAll, List.foldlM_cons]
  rfl

theorem stage_append (base first second : Catalog) :
    base.stage (first ++ second) = (base.stage first).andThen (·.stage second) := by
  simp only [stage, Noted.andThen, Mapping.insert_all_append, Mapping.replaced_append,
    List.map_append, List.append_nil]

/-- Stages in turn are one stage with all their schemas in a row. -/
theorem stage_all_eq_stage (base : Catalog) (stages : List Catalog) :
    base.stageAll stages = base.stage stages.flatten := by
  induction stages generalizing base with
  | nil => rfl
  | cons first rest ih =>
      rw [stage_all_cons, List.flatten_cons, stage_append]
      congr 1
      funext staged
      exact ih staged

theorem well_keyed_stage {base added : Catalog} (wellKeyed : (Value.mapping base).WellKeyed)
    (wellKeyedAdded : (Value.mapping added).WellKeyed) :
    (Value.mapping (base.stage added).value).WellKeyed :=
  Mapping.well_keyed_insert_all wellKeyed wellKeyedAdded.2

theorem well_keyed_stage_all {base : Catalog} {stages : List Catalog}
    (wellKeyed : (Value.mapping base).WellKeyed)
    (wellKeyedStages : ∀ stage ∈ stages, (Value.mapping stage).WellKeyed) :
    (Value.mapping (base.stageAll stages).value).WellKeyed := by
  induction stages generalizing base with
  | nil => exact wellKeyed
  | cons first rest ih =>
      obtain ⟨wellKeyedFirst, others⟩ := List.forall_mem_cons.1 wellKeyedStages
      rw [stage_all_cons]
      exact ih (well_keyed_stage wellKeyed wellKeyedFirst) others

/-- The body that the last of several catalogs with this key has under it. -/
def IsLastBody (stages : List Catalog) (key body : Value) : Prop :=
  ∃ before last after, stages = before ++ last :: after ∧
    Mapping.valueAt? last key = some body ∧ ∀ later ∈ after, Mapping.valueAt? later key = none

theorem is_last_body_of_last_at {stages : List Catalog} {key body : Value}
    (wellKeyed : ∀ stage ∈ stages, (Value.mapping stage).WellKeyed) (comparable : key.WellKeyed)
    (found : Mapping.lastAt? stages.flatten key = some body) : IsLastBody stages key body := by
  induction stages using List.reverseRecOn with
  | nil => simp [Mapping.lastAt?, Mapping.valueAt?] at found
  | append_singleton stages last ih =>
      obtain ⟨others, final⟩ := List.forall_mem_append.1 wellKeyed
      obtain ⟨distinct, entries⟩ := final last (List.mem_singleton_self last)
      have keyed : Mapping.Keyed last := fun entry member =>
        ((Value.well_keyed_entries_iff last).1 entries entry member).1
      rw [List.flatten_append, List.flatten_singleton, Mapping.last_at_append,
        Mapping.last_at_of_distinct distinct keyed comparable] at found
      cases own : Mapping.valueAt? last key with
      | some value =>
          rw [own, Option.some_or] at found
          exact ⟨stages, last, [], rfl, own.trans found, by simp⟩
      | none =>
          rw [own, Option.none_or] at found
          obtain ⟨before, source, after, split, here, missing⟩ := ih others found
          refine ⟨before, source, after ++ [last], by simp [split], here, ?_⟩
          exact List.forall_mem_append.2 ⟨missing, by simpa using own⟩

theorem well_keyed_entries_flatten {stages : List Catalog}
    (wellKeyed : ∀ stage ∈ stages, (Value.mapping stage).WellKeyed) :
    Value.WellKeyedEntries stages.flatten := by
  rw [Value.well_keyed_entries_iff]
  intro entry member
  obtain ⟨stage, listed, inside⟩ := List.mem_flatten.1 member
  exact (Value.well_keyed_entries_iff stage).1 (wellKeyed stage listed).2 entry inside

/-- What catalogs staged in turn amount to: each key where it was first staged, with the body that
was last staged under it. As many schemas were reported as replaced as are missing in the result, and
on whatever was staged before, the result at once does the same as the catalogs in turn. -/
theorem of_stages_merges (stages : List Catalog)
    (wellKeyed : ∀ stage ∈ stages, (Value.mapping stage).WellKeyed) :
    let staged := (ofStages stages).value
    (Value.mapping staged).WellKeyed ∧
      Mapping.keys staged = Value.firsts (stages.flatMap Mapping.keys) ∧
      (∀ entry ∈ staged, IsLastBody stages entry.1 entry.2) ∧
      (∃ replaced : List Value, (ofStages stages).log = replaced.map .replaced ∧
        replaced.length + staged.length = (stages.map List.length).sum) ∧
      ∀ base : Catalog, (Value.mapping base).WellKeyed →
        (base.stageAll stages).value = (base.stage staged).value := by
  intro staged
  have run : ofStages stages = stage [] stages.flatten := stage_all_eq_stage [] stages
  have merged : staged = Mapping.ofEntries stages.flatten := congrArg Noted.value run
  have entries := well_keyed_entries_flatten wellKeyed
  have keyed : Mapping.Keyed stages.flatten := fun entry member =>
    ((Value.well_keyed_entries_iff _).1 entries entry member).1
  have merges := (Mapping.merges_iff keyed staged).2 merged
  refine ⟨well_keyed_stage_all ⟨List.Pairwise.nil, trivial⟩ wellKeyed, ?_, ?_, ?_, ?_⟩
  · rw [merges.order, Mapping.keys, List.map_flatten]
    rfl
  · intro entry member
    have comparable : entry.1.WellKeyed :=
      Mapping.keyed_of_entries keyed entry (merged ▸ member)
    exact is_last_body_of_last_at wellKeyed comparable (merges.bodies entry member)
  · refine ⟨_, congrArg Noted.log run, ?_⟩
    have sizes := Mapping.length_insert_all_add_replaced [] stages.flatten
    rw [List.length_flatten, List.length_nil, Nat.zero_add] at sizes
    rw [Nat.add_comm, merged]
    exact sizes
  · intro base wellKeyedBase
    have keyedBase : Mapping.Keyed base := fun entry member =>
      ((Value.well_keyed_entries_iff base).1 wellKeyedBase.2 entry member).1
    rw [stage_all_eq_stage, merged]
    exact (Mapping.insert_all_of_entries keyedBase keyed).symm

/-- A number and a string with its spelling are two keys, and one schema is replaced in its place. -/
theorem of_stages_merges_spelled :
    let stages : List Catalog := [[(.string "A", .bool true), (.number (.int 1), .null)],
      [(.string "1", .null), (.string "A", .bool false)]]
    (∀ stage ∈ stages, (Value.mapping stage).WellKeyed) ∧
      Mapping.keys (ofStages stages).value = [.string "A", .number (.int 1), .string "1"] ∧
      IsLastBody stages (.string "A") (.bool false) ∧ (ofStages stages).log.length = 1 := by
  intro stages
  have wellKeyed : ∀ stage ∈ stages, (Value.mapping stage).WellKeyed := by
    simp [stages, Value.WellKeyed, Value.WellKeyedEntries, Value.same]
  obtain ⟨_, keys, bodies, ⟨replaced, log, sizes⟩, _⟩ := of_stages_merges stages wellKeyed
  have first : (Value.string "A", Value.bool false) ∈ (ofStages stages).value := .head _
  refine ⟨wellKeyed, keys, bodies _ first, ?_⟩
  have total : replaced.length + 3 = 4 := sizes
  rw [log, List.length_map]
  omega

end Catalog

end MessageSchema
