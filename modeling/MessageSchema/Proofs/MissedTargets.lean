import MessageSchema.Proofs.NamedDefinitions
import MessageSchema.Proofs.RenamedDocuments

/-!
The targets that a document lacks. A target is missed when neither the key of a definition bears it
nor, once the definitions have their new names, a reference. Rules that are missed change nothing,
so the others do alone what all of them do.
-/

namespace MessageSchema.Rename

set_option autoImplicit false

open Yaml

namespace Rules

/-- Whether a name is borne by a definition, or by a reference once the definitions have their new
names. -/
def Meets (rules : Rules) (root : Value) (name : String) : Prop :=
  (∃ s ∈ sections, ∃ entry ∈ definitionsOf root s, entry.1.spelling? = some name) ∨
    ∃ reference ∈ references (rules.renameKeys root), Names reference name

instance (rules : Rules) (root : Value) (name : String) : Decidable (rules.Meets root name) :=
  inferInstanceAs (Decidable (_ ∨ _))

theorem matches_tree_eq (rules : Rules) (root : Value) (rule : Rule) :
    rules.matchesTree root rule = decide (rules.Meets root rule.target) := by
  rw [Bool.eq_iff_iff, decide_eq_true_iff]
  simp only [matchesTree, isDefined, isReferenced, Bool.or_eq_true, List.any_eq_true, beq_iff_eq,
    definition_eq_some_iff, Meets]

theorem mem_sections (s : Section) : s ∈ sections := by
  cases s <;> simp [sections]

section

variable {rules others : Rules} {root : Value}
  (agree : ∀ name, rules.Meets root name → others.replacement? name = rules.replacement? name)

include agree

theorem renamed_entries_of_agree (s : Section) :
    others.renamedEntries (definitionsOf root s) = rules.renamedEntries (definitionsOf root s) := by
  refine List.map_congr_left fun entry member => Prod.ext ?_ rfl
  simp only [Rules.key]
  cases spelled : entry.1.spelling? with
  | none => rfl
  | some name =>
      rw [Option.bind_some, Option.bind_some,
        agree name (Or.inl ⟨s, mem_sections s, entry, member, spelled⟩)]

theorem rename_keys_of_agree (wellKeyed : root.WellKeyed) :
    others.renameKeys root = rules.renameKeys root :=
  on_components_congr wellKeyed fun s =>
    congrArg Mapping.ofEntries (renamed_entries_of_agree agree s)

theorem tree_of_agree (wellKeyed : root.WellKeyed) : others.tree root = rules.tree root := by
  rw [tree_eq others wellKeyed, tree_eq rules wellKeyed, rename_keys_of_agree agree wellKeyed]
  refine map_references_congr _ fun reference listed => ?_
  simp only [Rules.reference]
  cases named : definition? reference with
  | none => rfl
  | some name =>
      rw [Option.bind_some, Option.bind_some,
        agree name (Or.inr ⟨reference, listed, (definition_eq_some_iff _ _).1 named⟩)]

end

theorem nodup_targets_of_targets (lead : String) (targets : List String) :
    ((ofTargets lead targets).map Rule.target).Nodup := by
  refine List.Nodup.map_on ?_ (nodup_of_targets lead targets)
  intro first listed second listed' same
  have own := ((mem_of_targets _ _ _).1 listed).2.2
  have own' := ((mem_of_targets _ _ _).1 listed').2.2
  exact Rule.eq_of_parts same (own.trans own'.symm)

theorem tree_warnings_eq (rules : Rules) (root : Value) :
    rules.treeWarnings root =
      (rules.filter fun rule => ¬rules.Meets root rule.target).map Rule.unmatched := by
  simp only [treeWarnings, matches_tree_eq, decide_not]

theorem mem_tree_warnings_iff {lead : String} {targets : List String} {root : Value}
    {target : String} :
    .unmatchedRename target ∈ (ofTargets lead targets).treeWarnings root ↔
      target ∈ targets ∧ target ≠ "" ∧ ¬(ofTargets lead targets).Meets root target := by
  rw [tree_warnings_eq, List.mem_map]
  constructor
  · rintro ⟨rule, member, same⟩
    obtain ⟨listed, missed⟩ := List.mem_filter.1 member
    obtain ⟨given, filled, _⟩ := (mem_of_targets _ _ _).1 listed
    obtain rfl : rule.target = target := Warning.unmatchedRename.inj same
    exact ⟨given, filled, of_decide_eq_true missed⟩
  · rintro ⟨given, filled, missed⟩
    exact ⟨⟨target, lead⟩, List.mem_filter.2 ⟨(mem_of_targets _ _ _).2 ⟨given, filled, rfl⟩,
      decide_eq_true missed⟩, rfl⟩

theorem replacement_of_met {lead : String} {targets : List String} {root : Value} {name : String}
    (met : (ofTargets lead targets).Meets root name) :
    (ofTargets lead (targets.filter fun target =>
        .unmatchedRename target ∉ (ofTargets lead targets).treeWarnings root)).replacement? name =
      (ofTargets lead targets).replacement? name := by
  have kept : .unmatchedRename name ∉ (ofTargets lead targets).treeWarnings root := fun missed =>
    (mem_tree_warnings_iff.1 missed).2.2 met
  simp [replacement_of_targets, List.mem_filter, kept]

end Rules

/-- Exactly those targets are reported as missed that no definition and no reference bears, each
once and in the order of the rules, and all others as renamed. Without them the rules do the same
and miss nothing. -/
theorem warnings_apply_tree {root : Value} (wellKeyed : root.WellKeyed) (lead : String)
    (targets : List String) :
    let rules := Rules.ofTargets lead targets
    let renamed := rules.applyTree root
    let others := targets.filter fun target => .unmatchedRename target ∉ renamed.warnings
    let again := (Rules.ofTargets lead others).applyTree root
    (rules.map Rule.target).Nodup ∧
      renamed.warnings =
        (rules.filter fun rule => ¬rules.Meets root rule.target).map Rule.unmatched ∧
      (∃ met : List Value, renamed.log = met.map .collided ++
        (rules.filter fun rule => rules.Meets root rule.target).map fun rule =>
          .renamed rule.target rule.replacement) ∧
      again.value = renamed.value ∧ again.warnings = [] := by
  intro rules renamed others again
  have agree : ∀ name, rules.Meets root name →
      (Rules.ofTargets lead others).replacement? name = rules.replacement? name :=
    fun name => Rules.replacement_of_met
  refine ⟨Rules.nodup_targets_of_targets lead targets, Rules.tree_warnings_eq rules root, ?_,
    Rules.tree_of_agree agree wellKeyed, ?_⟩
  · cases none : rules.isEmpty with
    | true =>
        refine ⟨[], ?_⟩
        simp [renamed, Rules.applyTree, Rules.treeLog, List.isEmpty_iff.1 none]
    | false =>
        refine ⟨sections.flatMap fun s => rules.collisions (Rules.definitionsOf root s), ?_⟩
        simp [renamed, Rules.applyTree, Rules.treeLog, none, Rules.matches_tree_eq,
          List.map_flatMap]
  · have keys := Rules.rename_keys_of_agree agree wellKeyed
    rw [List.eq_nil_iff_forall_not_mem]
    intro warning member
    obtain ⟨rule, kept, rfl⟩ := List.mem_map.1 member
    have listed := (List.mem_filter.1 kept).1
    have missed : .unmatchedRename rule.target ∈ again.warnings := member
    obtain ⟨given, filled, absent⟩ := Rules.mem_tree_warnings_iff.1 missed
    obtain ⟨given, unreported⟩ := List.mem_filter.1 given
    rw [Rules.Meets, keys] at absent
    exact of_decide_eq_true unreported (Rules.mem_tree_warnings_iff.2 ⟨given, filled, absent⟩)

/-- A target that a key bears, one that only a reference bears once that key has its new name, and
one that is missed. -/
theorem warnings_apply_tree_deep :
    let root : Value := .mapping [(.string "components", .mapping [(.string "schemas", .mapping [
      (.string "T", .mapping [(.string "$ref", .string "#/components/messages/U")])])])]
    let rules := Rules.ofTargets "Realtime" ["T", "U", "V"]
    root.WellKeyed ∧ (rules.applyTree root).warnings = [.unmatchedRename "V"] ∧
      ((Rules.ofTargets "Realtime" ["T", "U"]).applyTree root).value =
        (rules.applyTree root).value ∧
      ((Rules.ofTargets "Realtime" ["T", "U"]).applyTree root).warnings = [] := by
  intro root rules
  have wellKeyed : root.WellKeyed := by
    simp [root, Value.WellKeyed, Value.WellKeyedEntries]
  have three : rules = [⟨"T", "Realtime"⟩, ⟨"U", "Realtime"⟩, ⟨"V", "Realtime"⟩] :=
    Rules.of_targets_of_sorted _ (by decide) (by decide) (by decide +kernel)
  have missed : (rules.applyTree root).warnings = [.unmatchedRename "V"] := by
    rw [three]
    decide +kernel
  obtain ⟨_, _, _, same, none⟩ := warnings_apply_tree wellKeyed "Realtime" ["T", "U", "V"]
  rw [missed] at same none
  exact ⟨wellKeyed, missed, same, none⟩

/-- A reference is never the name of a target with a slash, even when the two are the same text. -/
theorem warnings_apply_tree_slash :
    let root : Value := .mapping [(.string "$ref", .string "a/b")]
    let rules := Rules.ofTargets "Realtime" ["a/b"]
    "a/b" ∈ references (rules.renameKeys root) ∧
      (rules.applyTree root).warnings = [.unmatchedRename "a/b"] := by
  intro root rules
  have single : rules = [⟨"a/b", "Realtime"⟩] :=
    Rules.of_targets_of_sorted _ (by decide) (by decide) (by decide +kernel)
  rw [single]
  exact ⟨by decide +kernel, by decide +kernel⟩

end MessageSchema.Rename
