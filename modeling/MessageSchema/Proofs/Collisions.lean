import MessageSchema.Proofs.RenameComposition

/-!
Definitions that meet under one name. A renamed definition and one that bears the new name already
become a single entry. It stands where the first of the two stood and has the body of the second, so
the renamed body is the one that is kept only if it comes later.
-/

namespace MessageSchema

set_option autoImplicit false

open Yaml Rename

namespace Yaml.Mapping

open Value

theorem keys_insert_of_contains {entries : Mapping} {key : Value} (value : Value)
    (known : contains entries key = true) : keys (insert entries key value) = keys entries := by
  rw [keys_insert, note, keys, List.any_map]
  exact if_pos known

theorem insert_all_around (before after added : Mapping) {key : Value} (value : Value)
    (apart : ∀ entry ∈ added, key.same entry.1 = false) :
    ∃ before' after', insertAll (before ++ (key, value) :: after) added =
        before' ++ (key, value) :: after' ∧ keys before' = keys before := by
  induction added generalizing before after with
  | nil => exact ⟨before, after, rfl, rfl⟩
  | cons entry rest ih =>
      rcases entry with ⟨other, added⟩
      have different : key.same other = false := apart (other, added) (by simp)
      have others : ∀ later ∈ rest, key.same later.1 = false := fun later member =>
        apart later (List.mem_cons_of_mem _ member)
      rw [insert_all_cons, insert_append]
      cases known : contains before other with
      | true =>
          rw [if_pos rfl]
          obtain ⟨front, back, result, same⟩ := ih (insert before other added) after others
          exact ⟨front, back, result, same.trans (keys_insert_of_contains added known)⟩
      | false =>
          rw [if_neg (by simp), Mapping.insert, if_neg (by simp [different])]
          exact ih before (insert after other added) others

theorem nodup_keys_of_distinct {entries : Mapping} (distinct : Distinct entries) :
    (keys entries).Nodup := by
  refine List.pairwise_map.2 (List.Pairwise.imp ?_ distinct)
  intro a b different same
  rw [same, same_refl] at different
  contradiction

/-- Two entries with one key amount to the second of them in the place of the first. -/
theorem of_entries_of_repeated {front middle back : Mapping} {key : Value} (old value : Value)
    (keyed : Keyed (front ++ (key, old) :: (middle ++ (key, value) :: back)))
    (apart : ∀ entry ∈ middle, key.same entry.1 = false) :
    ofEntries (front ++ (key, old) :: (middle ++ (key, value) :: back)) =
      ofEntries (front ++ (key, value) :: (middle ++ back)) := by
  have empty : Keyed ([] : Mapping) := fun _ member => by simp at member
  have whole : front ++ (key, value) :: (middle ++ back) =
      (front ++ (key, value) :: middle) ++ back := by simp
  have both : front ++ (key, old) :: (middle ++ (key, value) :: back) =
      (front ++ (key, old) :: middle) ++ (key, value) :: back := by simp
  rw [both] at keyed ⊢
  have first := (keyed_append.1 keyed).1
  have wellKeyed : key.WellKeyed := first (key, old) (by simp)
  calc
    ofEntries ((front ++ (key, old) :: middle) ++ (key, value) :: back) =
        insertAll (insert (insertAll [] (front ++ (key, old) :: middle)) key value) back := by
      rw [ofEntries, insert_all_append, insert_all_cons]
    _ = insertAll (insertAll [] (front ++ (key, value) :: middle)) back := by
      rw [insert_all_replace value empty first wellKeyed (same_refl key) apart]
    _ = ofEntries (front ++ (key, value) :: (middle ++ back)) := by
      rw [← insert_all_append, ← whole, ofEntries]

theorem contains_insert_all (base : Mapping) {added : Mapping} {key : Value}
    (member : key ∈ keys added) : contains (insertAll base added) key = true := by
  obtain ⟨first, noted, equal⟩ := equal_mem_foldl_note (keys added) (keys base) member
  rw [← keys_insert_all] at noted
  obtain ⟨entry, there, same⟩ := List.mem_map.1 noted
  exact List.any_eq_true.2 ⟨entry, there, same ▸ equal⟩

theorem mem_replaced_of_repeated (base front middle back : Mapping) (key old value : Value) :
    key ∈ replaced base (front ++ (key, old) :: (middle ++ (key, value) :: back)) := by
  have both : front ++ (key, old) :: (middle ++ (key, value) :: back) =
      (front ++ (key, old) :: middle) ++ (key, value) :: back := by simp
  have known : contains (insertAll base (front ++ (key, old) :: middle)) key = true :=
    contains_insert_all base (by simp [keys])
  rw [both, replaced_append, replaced, if_pos known]
  exact List.mem_append_right _ (List.mem_cons_self ..)

end Yaml.Mapping

namespace Rename.Rules

theorem definitions_of_eq (root : Value) (s : Section) :
    definitionsOf root s =
      plainEntries ((((root.get? "components").bind Value.entries?).getD []).find? s.name) := by
  unfold definitionsOf
  cases (root.get? "components").bind Value.entries? with
  | none => rfl
  | some components =>
      simp only [Option.getD_some]
      cases components.find? s.name with
      | none => rfl
      | some value => cases value <;> rfl

theorem definitions_of_rename_keys (rules : Rules) (root : Value) (s : Section) :
    definitionsOf (rules.renameKeys root) s = rules.definitions (definitionsOf root s) := by
  rw [definitions_of_eq, definitions_of_eq, Rules.renameKeys, get_on_components]
  cases root.get? "components" with
  | none => rfl
  | some components =>
      rw [Option.map_some, Option.bind_some, Option.bind_some, entries_under_tags]
      cases components.entries? with
      | none => rfl
      | some entries =>
          rw [Option.map_some, Option.getD_some, Option.getD_some, rename_sections_eq,
            find_on_sections, plain_entries_on_definitions rfl]

theorem definitions_of_map_references (change : String → String) (root : Value) (s : Section) :
    definitionsOf (mapReferences change root) s =
      mapReferencesEntries change (definitionsOf root s) := by
  have outer : "components" ≠ referenceKey := by decide
  have inner : isReferenceKey (.string s.name) = false := by
    rw [is_reference_key_string]
    cases s <;> decide
  rw [definitions_of_eq, definitions_of_eq, get_map_references_of_other change root outer]
  cases root.get? "components" with
  | none => rfl
  | some components =>
      rw [Option.map_some, Option.bind_some, Option.bind_some, entries_map_references]
      cases components.entries? with
      | none => rfl
      | some entries =>
          rw [Option.map_some, Option.getD_some, Option.getD_some, find_map_references_entries]
          cases entries.find? s.name with
          | none => rfl
          | some value =>
              rw [Option.map_some, map_under_of_other inner]
              cases value <;> rfl

theorem definitions_of_tree (rules : Rules) {root : Value} (wellKeyed : root.WellKeyed)
    (s : Section) :
    definitionsOf (rules.tree root) s =
      mapReferencesEntries rules.reference (rules.definitions (definitionsOf root s)) := by
  rw [tree_eq rules wellKeyed, definitions_of_map_references, definitions_of_rename_keys]

/-- One of two keys is spelled as the target, and the other is the name that the target gets. -/
def Meet (target new : String) (first second : Value) : Prop :=
  (first.spelling? = some target ∧ second = .string new) ∨
    (first = .string new ∧ second.spelling? = some target)

section

variable {lead target : String} {targets : List String}

theorem lead_ne_empty (listed : target ∈ targets) (fresh : lead ++ target ∉ targets) :
    lead ≠ "" := by
  rintro rfl
  rw [String.empty_append] at fresh
  exact fresh listed

theorem key_of_target (listed : target ∈ targets) (filled : target ≠ "") {key : Value}
    (named : key.spelling? = some target) :
    (ofTargets lead targets).key key = .string (lead ++ target) := by
  apply key_of_spelling named
  rw [replacement_of_targets, if_pos ⟨listed, filled⟩]

theorem key_of_fresh (fresh : lead ++ target ∉ targets) :
    (ofTargets lead targets).key (.string (lead ++ target)) = .string (lead ++ target) := by
  apply key_of_kept
  rw [Value.spelling?, Option.bind_some, replacement_of_targets]
  exact if_neg fun listed => fresh listed.1

/-- A new name comes from its target, or it was there before. -/
theorem eq_of_key {key : Value}
    (met : (ofTargets lead targets).key key = .string (lead ++ target)) :
    key = .string (lead ++ target) ∨ key.spelling? = some target := by
  cases given : key.spelling?.bind (ofTargets lead targets).replacement? with
  | none => exact Or.inl ((key_of_kept given).symm.trans met)
  | some new =>
      obtain ⟨name, spelled, renamed⟩ := Option.bind_eq_some_iff.1 given
      rw [key_of_spelling spelled renamed, Value.string.injEq] at met
      rw [replacement_of_targets] at renamed
      split at renamed
      · have same : lead ++ name = lead ++ target := (Option.some.inj renamed).trans met
        rw [(String.append_right_inj lead).1 same] at spelled
        exact Or.inr spelled
      · contradiction

theorem key_of_meet (listed : target ∈ targets) (filled : target ≠ "")
    (fresh : lead ++ target ∉ targets) {first second : Value}
    (meet : Meet target (lead ++ target) first second) :
    (ofTargets lead targets).key first = .string (lead ++ target) ∧
      (ofTargets lead targets).key second = .string (lead ++ target) := by
  rcases meet with ⟨named, rfl⟩ | ⟨rfl, named⟩
  · exact ⟨key_of_target listed filled named, key_of_fresh fresh⟩
  · exact ⟨key_of_fresh fresh, key_of_target listed filled named⟩

theorem key_ne_of_meet {front middle back : Mapping} {first second : Value × Value}
    (distinct : Mapping.Distinct (front ++ first :: (middle ++ second :: back)))
    (meet : Meet target (lead ++ target) first.1 second.1)
    (only : ∀ entry ∈ front ++ middle ++ back, entry.1.spelling? ≠ some target) :
    ∀ entry ∈ front ++ middle ++ back,
      (ofTargets lead targets).key entry.1 ≠ .string (lead ++ target) := by
  intro entry member met
  rcases eq_of_key met with same | named
  · have order : (front ++ first :: (middle ++ second :: back)).Perm
        (first :: second :: (front ++ middle ++ back)) := by
      refine List.perm_middle.trans (List.Perm.cons first ?_)
      rw [← List.append_assoc]
      exact List.perm_middle
    have apart : (first.1 :: second.1 :: Mapping.keys (front ++ middle ++ back)).Nodup :=
      (order.map Prod.fst).nodup_iff.1 (Mapping.nodup_keys_of_distinct distinct)
    simp only [List.nodup_cons, List.mem_cons, not_or] at apart
    have listed : entry.1 ∈ Mapping.keys (front ++ middle ++ back) := List.mem_map_of_mem member
    rw [same] at listed
    rcases meet with ⟨_, second?⟩ | ⟨first?, _⟩
    · rw [second?] at apart
      exact apart.2.1 listed
    · rw [first?] at apart
      exact apart.1.2 listed
  · exact only entry member named

theorem renamed_entries_of_meet (listed : target ∈ targets) (filled : target ≠ "")
    (fresh : lead ++ target ∉ targets) {first second : Value × Value}
    (meet : Meet target (lead ++ target) first.1 second.1) (front middle back : Mapping) :
    let rules := ofTargets lead targets
    rules.renamedEntries (front ++ first :: (middle ++ second :: back)) =
      rules.renamedEntries front ++ (.string (lead ++ target), first.2) ::
        (rules.renamedEntries middle ++ (.string (lead ++ target), second.2) ::
          rules.renamedEntries back) := by
  obtain ⟨toFirst, toSecond⟩ := key_of_meet listed filled fresh meet
  simp [renamedEntries, toFirst, toSecond]

theorem definitions_of_meet (listed : target ∈ targets) (filled : target ≠ "")
    (fresh : lead ++ target ∉ targets) {front middle back : Mapping} {first second : Value × Value}
    (wellKeyed : (Value.mapping (front ++ first :: (middle ++ second :: back))).WellKeyed)
    (meet : Meet target (lead ++ target) first.1 second.1)
    (only : ∀ entry ∈ front ++ middle ++ back, entry.1.spelling? ≠ some target) :
    let rules := ofTargets lead targets
    ∃ before after, rules.definitions (front ++ first :: (middle ++ second :: back)) =
        before ++ (.string (lead ++ target), second.2) :: after ∧
      Mapping.keys before = Mapping.keys (rules.definitions front) := by
  intro rules
  have others := @key_ne_of_meet lead target targets _ _ _ _ _ wellKeyed.1 meet only
  have apart : ∀ entries : Mapping, (∀ entry ∈ entries, entry ∈ front ++ middle ++ back) →
      ∀ entry ∈ rules.renamedEntries entries,
        (Value.string (lead ++ target)).same entry.1 = false := by
    intro entries within entry member
    obtain ⟨source, sourceMember, rfl⟩ := List.mem_map.1 member
    rw [← Bool.not_eq_true, Value.string_same]
    exact fun same => others source (within source sourceMember) same.symm
  have keyed : Mapping.Keyed
      (rules.renamedEntries (front ++ first :: (middle ++ second :: back))) :=
    Mapping.keyed_map_keys fun entry member => well_keyed_key rules
      ((Value.well_keyed_entries_iff _).1 wellKeyed.2 entry member).1
  have split := renamed_entries_of_meet listed filled fresh meet front middle back
  rw [split] at keyed
  have behind : rules.renamedEntries middle ++ rules.renamedEntries back =
      rules.renamedEntries (middle ++ back) := List.map_append.symm
  have alone : ∀ entry ∈ rules.definitions front,
      entry.1.same (.string (lead ++ target)) = false := by
    intro entry member
    obtain ⟨source, sourceMember, same⟩ := Mapping.mem_keys_of_entries member
    have different := apart front (fun entry member => by simp [member]) source sourceMember
    rw [← Bool.not_eq_true, Value.same_string, ← same]
    intro met
    rw [met, Value.same_refl] at different
    contradiction
  obtain ⟨before, after, result, same⟩ := Mapping.insert_all_around (rules.definitions front) []
    (rules.renamedEntries (middle ++ back)) second.2
    (apart (middle ++ back) fun entry member => by
      rw [List.append_assoc]
      exact List.mem_append_right _ member)
  refine ⟨before, after, ?_, same⟩
  calc
    rules.definitions (front ++ first :: (middle ++ second :: back)) =
        Mapping.ofEntries (rules.renamedEntries front ++ (.string (lead ++ target), second.2) ::
          rules.renamedEntries (middle ++ back)) := by
      rw [definitions, split, Mapping.of_entries_of_repeated first.2 second.2 keyed
        (apart middle fun entry member => by simp [member]), behind]
    _ = Mapping.insertAll (Mapping.insert (rules.definitions front) (.string (lead ++ target))
          second.2) (rules.renamedEntries (middle ++ back)) := by
      rw [Mapping.ofEntries, Mapping.insert_all_append, Mapping.insert_all_cons]
      rfl
    _ = before ++ (.string (lead ++ target), second.2) :: after := by
      rw [Mapping.insert_of_absent _ _ _ alone, result]

theorem new_ne_reference_key (ident : ∀ c ∈ lead.toList, Text.isIdentChar c = true)
    (filled : lead ≠ "") : lead ++ target ≠ referenceKey := by
  by_cases same : target = referenceKey
  · subst same
    intro met
    have sizes := congrArg String.length met
    rw [String.length_append] at sizes
    have none : lead.length = 0 := by omega
    exact filled (String.length_eq_zero_iff.1 none)
  · exact append_ne_reference_key ident same

end

end Rename.Rules

/-- When a definition is renamed to a name that another one bears, one entry is left of the two: the
place is that of the first and the body that of the second, whichever of them was renamed. The
collision is logged. -/
theorem collision_keeps_later (lead : String) (targets : List String) (root : Value) (s : Section)
    (ident : ∀ c ∈ lead.toList, Text.isIdentChar c = true) (wellKeyed : root.WellKeyed)
    (target : String) (listed : target ∈ targets) (filled : target ≠ "")
    (fresh : lead ++ target ∉ targets) (front middle back : Mapping) (first second : Value × Value)
    (found : Rules.definitionsOf root s = front ++ first :: (middle ++ second :: back))
    (meet : Rules.Meet target (lead ++ target) first.1 second.1)
    (only : ∀ entry ∈ front ++ middle ++ back, entry.1.spelling? ≠ some target) :
    let rules := Rules.ofTargets lead targets
    let new := Value.string (lead ++ target)
    (∃ before after, Rules.definitionsOf (rules.tree root) s =
        before ++ (new, mapReferences rules.reference second.2) :: after ∧
      Mapping.keys before = Mapping.keys (rules.definitions front) ∧
      ∀ entry ∈ before ++ after, entry.1 ≠ new) ∧
    .collided new ∈ (rules.applyTree root).log := by
  intro rules new
  have definitions := Rules.well_keyed_definitions_of wellKeyed s
  rw [found] at definitions
  constructor
  · obtain ⟨before, after, merged, places⟩ :=
      Rules.definitions_of_meet listed filled fresh definitions meet only
    have plain : isReferenceKey new = false := by
      rw [is_reference_key_string, beq_eq_false_iff_ne]
      exact Rules.new_ne_reference_key ident (Rules.lead_ne_empty listed fresh)
    have renamed : Rules.definitionsOf (rules.tree root) s =
        mapReferencesEntries rules.reference before ++
          (new, mapReferences rules.reference second.2) ::
            mapReferencesEntries rules.reference after := by
      rw [Rules.definitions_of_tree rules wellKeyed, found, merged]
      simp [map_references_entries_eq_map, map_under_of_other plain, new]
    have apart := Mapping.nodup_keys_of_distinct
      (Rules.well_keyed_definitions_of (Rules.well_keyed_tree rules wellKeyed) s).1
    rw [renamed, Mapping.keys_append, Mapping.keys_cons] at apart
    refine ⟨_, _, renamed, ?_, ?_⟩
    · rw [← places, map_references_entries_eq_map, Mapping.keys, List.map_map]
      rfl
    · intro entry member same
      have absent := (List.nodup_middle.1 apart).notMem
      rw [← Mapping.keys_append] at absent
      have listed := List.mem_map_of_mem (f := Prod.fst) member
      rw [same] at listed
      exact absent listed
  · have named : ⟨target, lead⟩ ∈ rules := (Rules.mem_of_targets _ _ _).2 ⟨listed, filled, rfl⟩
    have some : rules.isEmpty = false := List.isEmpty_eq_false_iff_exists_mem.2 ⟨_, named⟩
    have met : new ∈ rules.collisions (Rules.definitionsOf root s) := by
      rw [Rules.collisions, found, Rules.renamed_entries_of_meet listed filled fresh meet]
      exact Mapping.mem_replaced_of_repeated _ _ _ _ _ _ _
    have reached : s ∈ sections := by cases s <;> decide
    simp only [Rules.applyTree, Rules.treeLog, some, Bool.false_eq_true, if_false]
    apply List.mem_append_left
    exact List.mem_flatMap.2 ⟨s, reached, List.mem_map_of_mem met⟩

/-- The renamed definition comes later, and its body is kept with its reference renamed. -/
theorem collision_keeps_later_renamed :
    let root : Value := .mapping [(.string "components", .mapping [(.string "messages", .mapping [
      (.string "A", .null), (.string "RealtimeT", .bool false), (.string "B", .null),
      (.string "T", .mapping [(.string "$ref", .string "#/components/messages/T")])])])]
    let rules := Rules.ofTargets "Realtime" ["T"]
    let new := Value.string "RealtimeT"
    let body := Value.mapping [(.string "$ref", .string "#/components/messages/T")]
    (∃ before after, Rules.definitionsOf (rules.tree root) .messages =
        before ++ (new, mapReferences rules.reference body) :: after ∧
      Mapping.keys before = Mapping.keys (rules.definitions [(.string "A", .null)]) ∧
      ∀ entry ∈ before ++ after, entry.1 ≠ new) ∧
    .collided new ∈ (rules.applyTree root).log := by
  intro root rules new body
  have word : "Realtime".toList.all Text.isIdentChar = true := by decide +kernel
  have wellKeyed : root.WellKeyed := by
    simp [root, Value.WellKeyed, Value.WellKeyedEntries, Value.same]
  exact collision_keeps_later "Realtime" ["T"] root .messages (List.all_eq_true.1 word) wellKeyed
    "T" (by decide) (by decide) (by decide) [(.string "A", .null)] [(.string "B", .null)] []
    (.string "RealtimeT", .bool false) (.string "T", body) rfl (Or.inr ⟨rfl, rfl⟩)
    (by simp [Value.spelling?])

/-- The renamed definition comes first, and its body is lost although the log says that it is
kept. -/
theorem collision_loses_renamed :
    let root : Value := .mapping [(.string "components", .mapping [(.string "schemas", .mapping [
      (.string "T", .bool true), (.string "RealtimeT", .bool false)])])]
    let rules := Rules.ofTargets "Realtime" ["T"]
    let new := Value.string "RealtimeT"
    root.WellKeyed ∧
      Rules.definitionsOf root .schemas = [(.string "T", .bool true), (new, .bool false)] ∧
      Rules.definitionsOf (rules.tree root) .schemas = [(new, .bool false)] ∧
      (Notice.collided new).message = "Renamed definition String(\"RealtimeT\") collides with " ++
        "an existing one; keeping the renamed body" ∧
      .collided new ∈ (rules.applyTree root).log := by
  intro root rules new
  have single : rules = [⟨"T", "Realtime"⟩] := by
    have once : ["T"].eraseDups = ["T"] := by decide
    simp [rules, Rules.ofTargets, once]
  have wellKeyed : root.WellKeyed := by
    simp [root, Value.WellKeyed, Value.WellKeyedEntries, Value.same]
  rw [single]
  exact ⟨wellKeyed, rfl, rfl, by decide +kernel, List.mem_of_mem_head? rfl⟩

end MessageSchema
