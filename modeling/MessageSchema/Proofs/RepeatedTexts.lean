import MessageSchema.Proofs.LongestTargets

/-!
Renaming a text twice. A run that has been renamed begins with a new name, and one that has not
begins with no target. As long as no target and no new name begin with each other, the second pass
meets nothing.
-/

namespace MessageSchema.Rename

set_option autoImplicit false

open Text

namespace Rules

theorem hits_of_none {rules : Rules} {words : List (List Char)}
    (none : ∀ rule ∈ rules, ∀ word ∈ words, rule.begins word = false) :
    rules.hits words = rules.map (·, 0) := by
  induction rules with
  | nil => rfl
  | cons rule rest ih =>
      have others := ih fun later member => none later (List.mem_cons_of_mem _ member)
      have first := none rule (by simp)
      have count : words.countP rule.begins = 0 :=
        List.countP_eq_zero.2 fun word member => by simp [first word member]
      have kept : words.map rule.word = words :=
        (List.map_congr_left fun word member => Rule.word_of_other (first word member)).trans
          (List.map_id words)
      rw [hits, count, kept, others, List.map_cons]

theorem apply_text_of_none {rules : Rules} (spelled : ∀ rule ∈ rules, rule.Spelled) {text : String}
    (none : ∀ rule ∈ rules, ∀ word ∈ runs (pieces text.toList), rule.begins word = false) :
    rules.applyText text = ⟨text, rules.map Rule.unmatched, []⟩ := by
  have kept : (pieces text.toList).map (Piece.onRun rules.word) = pieces text.toList := by
    refine (List.map_congr_left fun piece member => ?_).trans (List.map_id _)
    cases piece with
    | gap c => rfl
    | run word =>
        have inside : word ∈ runs (pieces text.toList) := List.mem_filterMap.2 ⟨_, member, rfl⟩
        exact congrArg Piece.run (word_of_none fun rule listed => none rule listed word inside)
  have missed : missed (rules.map (·, 0)) = rules.map Rule.unmatched := by
    simp [Rules.missed, List.filter_map, Function.comp_def]
  have found : found (rules.map (·, 0)) = [] := by
    simp [Rules.found, List.filter_map, Function.comp_def]
  rw [apply_text_eq spelled, kept, hits_of_none none, missed, found, joined_pieces,
    String.ofList_toList]

/-- After one pass a run begins with no target. -/
theorem begins_word_of_apart {lead : String} {targets : List String}
    (apart : ∀ target ∈ targets, target ≠ "" → ∀ other ∈ targets, other ≠ "" →
      ¬target.toList <+: (lead ++ other).toList ∧ ¬(lead ++ other).toList <+: target.toList)
    {rule : Rule} (listed : rule ∈ ofTargets lead targets) (word : List Char) :
    rule.begins ((ofTargets lead targets).word word) = false := by
  have settled := settled_of_targets fun target member filled other member' filled' =>
    (apart target member filled other member' filled').1
  obtain ⟨member, filled, _⟩ := (mem_of_targets _ _ _).1 listed
  rw [word_of_targets settled, ← Bool.not_eq_true, Rule.begins, List.isPrefixOf_iff_prefix]
  split
  · next renamed =>
      obtain ⟨other, member', filled', inside⟩ := renamed
      intro met
      -- The target and the new name would begin the same run, so one of them begins the other.
      have named : (lead ++ other).toList <+: lead.toList ++ word := by
        rw [String.toList_append]
        exact (List.prefix_append_right_inj _).2 inside
      obtain ⟨notWithin, notAround⟩ := apart _ member filled _ member' filled'
      rcases List.prefix_or_prefix_of_prefix met named with within | around
      · exact notWithin within
      · exact notAround around
  · next missed => exact fun met => missed ⟨rule.target, member, filled, met⟩

end Rules

/-- A second pass leaves the text of the first as it is and reports every target as missed, in the
order of the rules, when no target and no new name begin with each other. -/
theorem apply_text_twice (lead : String) (targets : List String) (text : String)
    (identLead : ∀ c ∈ lead.toList, isIdentChar c = true)
    (identTargets : ∀ target ∈ targets, ∀ c ∈ target.toList, isIdentChar c = true)
    (apart : ∀ target ∈ targets, target ≠ "" → ∀ other ∈ targets, other ≠ "" →
      ¬target.toList <+: (lead ++ other).toList ∧ ¬(lead ++ other).toList <+: target.toList) :
    let rules := Rules.ofTargets lead targets
    let once := (rules.applyText text).value
    rules.applyText once = ⟨once, rules.map Rule.unmatched, []⟩ := by
  intro rules once
  have spelled := Rules.spelled_of_targets identLead identTargets
  apply Rules.apply_text_of_none spelled
  intro rule listed word inside
  rw [Rules.pieces_apply_text spelled, runs_map_on_run] at inside
  obtain ⟨source, _, rfl⟩ := List.mem_map.1 inside
  exact Rules.begins_word_of_apart apart listed source

/-- One target lies within another, and both are found in longer runs. -/
theorem apply_text_twice_nested :
    let targets := ["Config", "ConfigSet"]
    let text := "ConfigSets: [Configs, MyConfig]"
    let rules := Rules.ofTargets "Realtime" targets
    let once := (rules.applyText text).value
    (∀ c ∈ "Realtime".toList, isIdentChar c = true) ∧
      (∀ target ∈ targets, ∀ c ∈ target.toList, isIdentChar c = true) ∧
      (∀ target ∈ targets, target ≠ "" → ∀ other ∈ targets, other ≠ "" →
        ¬target.toList <+: ("Realtime" ++ other).toList ∧
          ¬("Realtime" ++ other).toList <+: target.toList) ∧
      rules.applyText once = ⟨once, rules.map Rule.unmatched, []⟩ := by
  intro targets text rules once
  have identLead : ∀ c ∈ "Realtime".toList, isIdentChar c = true :=
    List.all_eq_true.1 (by decide +kernel)
  have identTargets : ∀ target ∈ targets, ∀ c ∈ target.toList, isIdentChar c = true := by
    have all : ∀ target ∈ targets, target.toList.all isIdentChar = true := by decide +kernel
    exact fun target listed => List.all_eq_true.1 (all target listed)
  have apart : ∀ target ∈ targets, target ≠ "" → ∀ other ∈ targets, other ≠ "" →
      ¬target.toList <+: ("Realtime" ++ other).toList ∧
        ¬("Realtime" ++ other).toList <+: target.toList := by decide +kernel
  exact ⟨identLead, identTargets, apart,
    apply_text_twice "Realtime" targets text identLead identTargets apart⟩

end MessageSchema.Rename
