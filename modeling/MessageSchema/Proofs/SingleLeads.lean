import MessageSchema.Proofs.HandledOccurrences

/-!
How many leads a character gets. As long as every rule leaves alone what those before it have made,
what has been handled stays in one piece behind its lead, and no character gets a second one. Inside
an occurrence that the text has itself nothing is put either, as long as no target begins there.
-/

namespace MessageSchema.Rename

set_option autoImplicit false

open Text

/-- No character inside an occurrence that the text has itself, its first one apart, has a lead. -/
def Unbroken (target : List Char) (counted : List (Char × Nat)) : Prop :=
  ∀ front first inside entry rest, counted = front ++ first :: (inside ++ entry :: rest) →
    target <+: (first :: (inside ++ entry :: rest)).map (·.1) → inside.length + 1 < target.length →
    entry.2 = 0

/-- Every character has at most one lead, and behind a lead stands, without a break, what one of
the rules has handled. -/
def Handled (done : Rules) (lead : List Char) (counted : List (Char × Nat)) : Prop :=
  ∀ front c count rest, counted = front ++ (c, count) :: rest → count ≠ 0 →
    count = 1 ∧ ∃ rule ∈ done, rule.target.toList <+: c :: spread lead rest

theorem unbroken_zero (target text : List Char) : Unbroken target (text.map (·, 0)) := by
  intro front first inside entry rest split _ _
  have listed : entry ∈ text.map (·, 0) := by simp [split]
  obtain ⟨d, _, rfl⟩ := List.mem_map.1 listed
  rfl

theorem handled_zero (lead text : List Char) : Handled [] lead (text.map (·, 0)) := by
  intro front c count rest split some
  have listed : (c, count) ∈ text.map (·, 0) := by simp [split]
  obtain ⟨d, _, same⟩ := List.mem_map.1 listed
  exact absurd (Prod.mk.inj same).2.symm some

theorem prefix_spread_of_unbroken {target back : List Char} {lead : List Char}
    {front inside rest : List (Char × Nat)} {first : Char × Nat}
    (unbroken : Unbroken target (front ++ first :: (inside ++ rest)))
    (parts : target = (first :: inside).map (·.1) ++ back) (begins : back <+: rest.map (·.1)) :
    back <+: spread lead rest := by
  refine prefix_spread lead begins fun entry member => ?_
  obtain ⟨before, after, split, _, within⟩ := @split_of_mem_window _ rest 0 _ _ member
  refine unbroken front first (inside ++ before) entry after (by simp [split]) ?_ ?_
  · rw [List.append_assoc, ← split, ← List.cons_append, List.map_append, parts]
    exact (List.prefix_append_right_inj _).2 begins
  · have size := congrArg List.length parts
    simp only [List.length_append, List.length_map, List.length_cons] at size ⊢
    omega

namespace Rule

theorem unbroken_recount {rule : Rule} {target : List Char} {counted : List (Char × Nat)}
    (outside : ¬BeginsInside rule.target.toList target) (unbroken : Unbroken target counted) :
    Unbroken target (rule.recount counted) := by
  intro front' first' inside' ⟨d, count'⟩ rest' split' begins within
  have chars := Rename.map_fst_recount rule.lead.toList rule.target.toList 0 true counted
  rw [← Rule.recount, split'] at chars
  rw [← List.cons_append, ← List.append_assoc] at split'
  obtain ⟨before, count, after, _, _, rfl, passed, _, _, grown⟩ := recount_spec split'
  rw [List.map_append, List.map_eq_append_iff] at passed
  obtain ⟨front, others, rfl, fronts, more⟩ := passed
  obtain ⟨first, inside, rfl, firsts, insides⟩ := List.map_eq_cons_iff.1 more
  -- Before the rule the occurrence was in one piece, this character was bare.
  rw [List.append_assoc, List.cons_append] at chars unbroken
  rw [List.map_append, List.map_append, fronts, List.append_cancel_left_eq] at chars
  rw [chars] at begins
  have size : inside.length = inside'.length := by simpa using congrArg List.length insides
  have bare : count = 0 := unbroken _ _ _ _ _ rfl begins (by omega)
  rcases grown with rfl | ⟨_, met, free, _⟩
  · exact bare
  exfalso
  rw [← List.cons_append, List.map_append] at begins
  obtain ⟨back, parts⟩ := List.prefix_of_prefix_length_le (List.prefix_append _ _) begins (by
    rw [List.length_map, List.length_cons]
    omega)
  have ahead : back <+: ((d, count) :: after).map (·.1) := by
    rwa [← parts, List.prefix_append_right_inj] at begins
  have there := @prefix_spread_of_unbroken _ _ rule.lead.toList _ _ _ _ unbroken parts.symm ahead
  refine outside ⟨_, back, parts.symm, by simp, ?_, ?_,
    List.prefix_or_prefix_of_prefix met there⟩
  · rintro rfl
    rw [← parts] at within
    simp [size] at within
  · rw [List.map_append, opens_append] at free
    exact (opens_of_filled _ _ (by simp)).trans free

theorem prefix_spread_recount {rule : Rule} (filled : rule.target ≠ "")
    (ident : ∀ c ∈ rule.lead.toList, isIdentChar c = true) {skip : Nat} {mayBegin : Bool}
    {word : List Char} {counted : List (Char × Nat)}
    (begins : word <+: spread rule.lead.toList counted)
    (unmarked : ∀ before c after, marks rule.target.toList skip mayBegin
      (spread rule.lead.toList counted) = before ++ (c, true) :: after →
        word.length ≤ before.length) :
    word <+: spread rule.lead.toList
      (Rename.recount rule.lead.toList rule.target.toList skip mayBegin counted) := by
  rw [← expand_marks_spread (String.toList_eq_nil_iff.not.2 filled) ident]
  exact prefix_expand_of_unmarked _ (by rwa [map_fst_marks]) unmarked

theorem not_met_of_leaves_alone {earlier later : Rule} (filled : earlier.lead ≠ "")
    (clear : earlier.LeavesAlone later)
    (shorter : later.target.utf8ByteSize ≤ earlier.target.utf8ByteSize) {text : List Char}
    (begins : earlier.target.toList <+: text) :
    ¬later.target.toList <+: earlier.lead.toList ++ text := by
  intro met
  have named : earlier.replacement.toList <+: earlier.lead.toList ++ text := by
    rw [replacement, String.toList_append]
    exact (List.prefix_append_right_inj _).2 begins
  rcases List.prefix_or_prefix_of_prefix met named with doubled | covered
  · exact clear.start doubled
  · have sizes := octets_le_of_prefix covered
    have lead := octets_pos (String.toList_eq_nil_iff.not.2 filled)
    rw [replacement, String.toList_append, octets_append] at sizes
    simp only [octets_to_list] at sizes lead
    omega

/-- A rule that leaves alone what others have handled gives a lead to bare characters only. -/
theorem handled_recount {rule : Rule} {done : Rules} {counted : List (Char × Nat)}
    (run : IsRun rule.lead.toList) (filled : rule.target ≠ "")
    (leads : ∀ earlier ∈ done, earlier.lead = rule.lead)
    (clear : ∀ earlier ∈ done, earlier.LeavesAlone rule)
    (shorter : ∀ earlier ∈ done, rule.target.utf8ByteSize ≤ earlier.target.utf8ByteSize)
    (handled : Handled done rule.lead.toList counted) :
    Handled (done ++ [rule]) rule.lead.toList (rule.recount counted) := by
  intro front' c count' rest' split' some
  obtain ⟨before, count, after, skip, mayBegin, split, _, rfl, apart, grown⟩ := recount_spec split'
  by_cases bare : count = 0
  · subst bare
    obtain ⟨rfl, met, _, passed⟩ := grown.resolve_left some
    refine ⟨rfl, rule, by simp, ?_⟩
    obtain ⟨first, tail, target⟩ :=
      List.exists_cons_of_ne_nil (String.toList_eq_nil_iff.not.2 filled)
    rw [target] at met ⊢
    rw [spread_cons] at met
    obtain ⟨rfl, begins⟩ := List.cons_prefix_cons.1 met
    refine List.cons_prefix_cons.2 ⟨rfl, target ▸ prefix_spread_recount filled run.2 begins ?_⟩
    -- The rule does not look for its target again before the end of what it has found.
    intro front d behind found
    by_contra early
    have listed : (d, true) ∈ (front ++ (d, true) :: behind).take skip := by
      rw [List.take_append, passed, target]
      refine List.mem_append_right _ ?_
      simp only [List.length_cons] at early ⊢
      obtain ⟨more, size⟩ := Nat.exists_eq_add_of_lt (Nat.lt_of_not_le early)
      simp [size, Nat.add_assoc]
    rw [← found] at listed
    exact Bool.noConfusion (unmarked_of_skip _ _ _ _ _ listed)
  · obtain ⟨rfl, earlier, listed, begins⟩ := handled before c count after split bare
    rcases grown with rfl | ⟨_, met, _, _⟩
    · refine ⟨rfl, earlier, by simp [listed], ?_⟩
      cases target : earlier.target.toList with
      | nil => exact List.nil_prefix
      | cons first tail =>
          rw [target] at begins
          obtain ⟨rfl, behind⟩ := List.cons_prefix_cons.1 begins
          refine List.cons_prefix_cons.2 ⟨rfl, prefix_spread_recount filled run.2 behind ?_⟩
          intro front d others found
          have outside := (clear earlier listed).inside
          rw [target] at outside
          refine @length_le_of_mark _ [first] _ _ outside (by simp) behind _ _ ?_ _ _ _ found
          exact fun free => by simp [opens, apart free]
    · rw [spread_cons, List.replicate_one, List.flatten_singleton, ← leads earlier listed] at met
      have lead : earlier.lead ≠ "" := by
        rw [leads earlier listed]
        exact String.toList_eq_nil_iff.not.1 run.1
      exact absurd met (not_met_of_leaves_alone lead (clear earlier listed) (shorter earlier listed)
        (by rwa [leads earlier listed]))

end Rule

namespace Rules

theorem graded_of_targets {lead : String} {targets : List String}
    (ident : ∀ c ∈ lead.toList, isIdentChar c = true) (filled : targets = [] ∨ lead ≠ "") :
    Graded (ofTargets lead targets) where
  leads first member second member' := by
    rw [((mem_of_targets _ _ _).1 member).2.2, ((mem_of_targets _ _ _).1 member').2.2]
  run rule member := by
    obtain ⟨listed, _, own⟩ := (mem_of_targets _ _ _).1 member
    have named := filled.resolve_left (List.ne_nil_of_mem listed)
    rw [own]
    exact ⟨String.toList_eq_nil_iff.not.2 named, ident⟩
  filled rule member := ((mem_of_targets _ _ _).1 member).2.1
  sorted := longer_first_of_targets lead targets
  distinct := nodup_of_targets lead targets

theorem unbroken_recount {rules : Rules} {target : List Char} {counted : List (Char × Nat)}
    (outside : ∀ rule ∈ rules, ¬BeginsInside rule.target.toList target)
    (unbroken : Unbroken target counted) : Unbroken target (rules.recount counted) := by
  induction rules generalizing counted with
  | nil => exact unbroken
  | cons rule rest ih =>
      obtain ⟨first, others⟩ := List.forall_mem_cons.1 outside
      exact ih others (rule.unbroken_recount first unbroken)

theorem handled_recount {lead : String} {done rules : Rules} {counted : List (Char × Nat)}
    (graded : Graded (done ++ rules)) (leads : ∀ rule ∈ done ++ rules, rule.lead = lead)
    (orderly : Orderly (done ++ rules)) (handled : Handled done lead.toList counted) :
    Handled (done ++ rules) lead.toList (rules.recount counted) := by
  induction rules generalizing done counted with
  | nil => rwa [List.append_nil]
  | cons rule rest ih =>
      have own := leads rule (by simp)
      subst own
      have step := Rule.handled_recount (graded.run rule (by simp)) (graded.filled rule (by simp))
        (fun earlier listed => leads earlier (List.mem_append_left _ listed))
        (fun earlier listed => (List.pairwise_append.1 orderly).2.2 earlier listed rule (by simp))
        (fun earlier listed => (graded.around.1 earlier listed rule (by simp)).1) handled
      rw [List.append_cons] at graded leads orderly ⊢
      exact ih graded leads orderly step

end Rules

end MessageSchema.Rename

namespace MessageSchema.Settings

open Rename

/-- Renaming a text puts leads in front of its characters, where a name may begin. When each rule
leaves alone what the rules before it make, no character gets two, and the target that was handled
stands unbroken behind each; for all that is handled to be spared this is needed as well. No lead
comes inside an occurrence that the text has itself of an identifier, or of any target inside which
none begins. -/
theorem apply_text_spread {s : Settings} (accepted : s.validated = .ok s) :
    (∀ text : String, ∃ counted : List (Char × Nat), counted.map (·.1) = text.toList ∧
        (s.rules.applyText text).value.toList = spread s.lead.toList counted ∧ Bounded counted ∧
        (s.rules.Orderly → Handled s.rules s.lead.toList counted) ∧
        ∀ target ∈ s.targets, ((∀ c ∈ target.toList, Text.isIdentChar c = true) ∨
            ∀ inner ∈ s.targets, ¬BeginsInside inner.toList target.toList) →
          Unbroken target.toList counted) ∧
      ((∀ text : String, s.rules.KeepsHandled text.toList) ↔ s.rules.Orderly) := by
  obtain ⟨ident, filled, named⟩ := checked_of_validated accepted
  have graded : s.rules.Graded := Rules.graded_of_targets ident filled
  have leads : ∀ rule ∈ s.rules, rule.lead = s.lead := fun rule listed =>
    ((Rules.mem_of_targets _ _ _).1 listed).2.2
  constructor
  · intro text
    refine ⟨s.rules.recount (text.toList.map (·, 0)), ?_, ?_,
      s.rules.bounded_recount (bounded_zero _), ?_, ?_⟩
    · rw [Rules.map_fst_recount, List.map_map]
      exact List.map_id _
    · rw [Rules.to_list_value_apply_text,
        ← Rules.value_apply_chars_spread ident leads graded.filled, spread_zero]
    · exact fun orderly => Rules.handled_recount graded leads orderly (handled_zero _ _)
    · intro target listed outside
      refine Rules.unbroken_recount (fun rule member => ?_) (unbroken_zero _ _)
      rcases outside with word | none
      · exact not_begins_inside_of_ident word _
      · exact none _ ((Rules.mem_of_targets _ _ _).1 member).1
  · rw [← Rules.keeps_handled_iff graded]
    constructor
    · intro keeps text
      simpa using keeps (String.ofList text)
    · exact fun keeps text => keeps text.toList

/-- Targets within one another, and one with a place inside it where a name may begin. -/
theorem apply_text_spread_nested :
    let s : Settings := { targets := ["TranscriptionConfig", "Transcription", "speech-model"] }
    s.validated = .ok s ∧ s.rules.Orderly ∧
      (∀ text : String, s.rules.KeepsHandled text.toList) ∧
      ∀ text : String, ∃ counted : List (Char × Nat), counted.map (·.1) = text.toList ∧
        (s.rules.applyText text).value.toList = spread s.lead.toList counted ∧
        Handled s.rules s.lead.toList counted ∧
        ∀ target ∈ s.targets, Unbroken target.toList counted := by
  intro s
  have accepted : s.validated = .ok s := (validated_eq_ok_iff s s).2 ⟨by decide +kernel, rfl⟩
  have orderly : s.rules.Orderly := by
    rw [rules, Rules.of_targets_of_sorted _ (by decide) (by decide) (by decide +kernel)]
    decide +kernel
  have outside : ∀ target ∈ s.targets, ∀ inner ∈ s.targets,
      ¬BeginsInside inner.toList target.toList := by decide +kernel
  obtain ⟨renamed, keeps⟩ := apply_text_spread accepted
  refine ⟨accepted, orderly, keeps.2 orderly, fun text => ?_⟩
  obtain ⟨counted, chars, output, _, handled, unbroken⟩ := renamed text
  exact ⟨counted, chars, output, handled orderly, fun target listed =>
    unbroken target listed (Or.inr (outside target listed))⟩

/-- A shorter target that begins the new name of a longer one puts the lead there twice, and one
that begins inside a longer one breaks its occurrence. -/
theorem apply_text_doubles :
    let s : Settings := { targets := ["DiarizationConfig", "Real"] }
    let t : Settings := { targets := ["A.B", "B"] }
    s.validated = .ok s ∧ t.validated = .ok t ∧
      (s.rules.applyText "DiarizationConfig").value = "RealtimeRealtimeDiarizationConfig" ∧
      (t.rules.applyText "A.B").value = "RealtimeA.RealtimeB" ∧
      ¬∃ counted : List (Char × Nat), counted.map (·.1) = "DiarizationConfig".toList ∧
        (s.rules.applyText "DiarizationConfig").value.toList = spread s.lead.toList counted ∧
        ∀ entry ∈ counted, entry.2 ≤ 1 := by
  intro s t
  have doubled : (s.rules.applyText "DiarizationConfig").value =
      "RealtimeRealtimeDiarizationConfig" := by
    rw [rules, Rules.of_targets_of_sorted _ (by decide) (by decide) (by decide +kernel)]
    decide +kernel
  refine ⟨(validated_eq_ok_iff s s).2 ⟨by decide +kernel, rfl⟩,
    (validated_eq_ok_iff t t).2 ⟨by decide +kernel, rfl⟩, doubled, ?_, ?_⟩
  · rw [rules, Rules.of_targets_of_sorted _ (by decide) (by decide) (by decide +kernel)]
    decide +kernel
  rintro ⟨counted, chars, output, single⟩
  -- The output begins with the lead twice, but the first character is no part of a lead.
  have first : "DiarizationConfig".toList = 'D' :: "iarizationConfig".toList := by decide +kernel
  rw [first] at chars
  obtain ⟨⟨c, count⟩, rest, rfl, rfl, _⟩ := List.map_eq_cons_iff.1 chars
  rw [doubled, spread_cons] at output
  rcases Nat.le_one_iff_eq_zero_or_eq_one.1 (single _ (List.mem_cons_self ..)) with rfl | rfl
  · have start : "RealtimeRealtimeDiarizationConfig".toList[0]? = some 'D' := by rw [output]; rfl
    exact absurd start (by decide +kernel)
  · have behind : "RealtimeRealtimeDiarizationConfig".toList["Realtime".toList.length]? =
        some 'D' := by
      rw [output, List.replicate_one, List.flatten_singleton, List.getElem?_append_right le_rfl,
        Nat.sub_self]
      rfl
    exact absurd behind (by decide +kernel)

end MessageSchema.Settings
