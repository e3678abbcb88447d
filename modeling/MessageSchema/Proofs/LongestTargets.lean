import MessageSchema.Proofs.RenamedText

/-!
Which target a run is renamed for. In general each rule works on what the rules before it have made
of a run. When no target begins a new name, a run is renamed once, for the longest target that it
begins with: rules stand longest first, and a renamed run begins with no later target.
-/

namespace MessageSchema.Rename

set_option autoImplicit false

open Text

/-- Of two beginnings of one list, the one that takes no more octets begins the other. -/
theorem prefix_of_octets {first second : String} {word : List Char}
    (begins : first.toList <+: word) (begins' : second.toList <+: word)
    (octets : first.utf8ByteSize ≤ second.utf8ByteSize) : first.toList <+: second.toList := by
  rcases List.prefix_or_prefix_of_prefix begins begins' with inside | beyond
  · exact inside
  · obtain ⟨more, whole⟩ := beyond
    have split : second ++ String.ofList more = first := by
      rw [← String.toList_inj, String.toList_append, String.toList_ofList, whole]
    have sizes := congrArg String.utf8ByteSize split
    rw [String.utf8ByteSize_append] at sizes
    have none : (String.ofList more).utf8ByteSize = 0 := by omega
    rw [String.utf8ByteSize_eq_zero_iff.1 none, String.append_empty] at split
    rw [split]

namespace Rules

def first? (rules : Rules) (word : List Char) : Option Rule := rules.find? (·.begins word)

/-- What a rule has renamed begins with the target of no later rule. -/
def Settled (rules : Rules) : Prop :=
  rules.Pairwise fun a b => ∀ word, a.begins word = true → b.begins (a.word word) = false

theorem word_of_none {rules : Rules} {word : List Char}
    (none : ∀ rule ∈ rules, rule.begins word = false) : rules.word word = word := by
  induction rules with
  | nil => rfl
  | cons rule rest ih =>
      have kept := Rule.word_of_other (none rule (by simp))
      have others := ih fun later member => none later (List.mem_cons_of_mem _ member)
      calc
        Rules.word (rule :: rest) word = Rules.word rest (rule.word word) := rfl
        _ = word := by rw [kept, others]

theorem first_cons_of_begins {rule : Rule} {word : List Char} (rest : Rules)
    (begins : rule.begins word = true) : first? (rule :: rest) word = some rule := by
  simp [first?, begins]

theorem first_cons_of_other {rule : Rule} {word : List Char} (rest : Rules)
    (other : rule.begins word = false) : first? (rule :: rest) word = first? rest word := by
  simp [first?, other]

/-- A run is renamed by the first rule that it meets, and by no other. -/
theorem word_of_settled {rules : Rules} (settled : rules.Settled) (word : List Char) :
    rules.word word = ((rules.first? word).map fun rule => rule.lead.toList ++ word).getD word := by
  induction rules with
  | nil => rfl
  | cons rule rest ih =>
      have parts := List.pairwise_cons.1 settled
      have unfolded : Rules.word (rule :: rest) word = Rules.word rest (rule.word word) := rfl
      cases begins : rule.begins word with
      | true =>
          have final := word_of_none fun later member => parts.1 later member word begins
          rw [unfolded, final, first_cons_of_begins rest begins, Rule.word_of_begins begins]
          rfl
      | false =>
          rw [unfolded, Rule.word_of_other begins, ih parts.2, first_cons_of_other rest begins]

theorem hits_of_settled {rules : Rules} (settled : rules.Settled) (distinct : rules.Nodup)
    (words : List (List Char)) :
    rules.hits words =
      rules.map fun rule => (rule, words.countP fun word => rules.first? word == some rule) := by
  induction rules generalizing words with
  | nil => rfl
  | cons rule rest ih =>
      have parts := List.pairwise_cons.1 settled
      have apart := List.nodup_cons.1 distinct
      rw [hits, ih parts.2 apart.2, List.map_cons]
      congr 1
      · congr 2
        funext word
        cases begins : rule.begins word with
        | true => simp [first_cons_of_begins rest begins]
        | false =>
            rw [first_cons_of_other rest begins]
            have absent : first? rest word ≠ some rule := fun found =>
              apart.1 (List.mem_of_find?_eq_some found)
            simpa using absent
      · apply List.map_congr_left
        intro later member
        rw [List.countP_map]
        congr 2
        funext word
        have different : rule ≠ later := fun same => apart.1 (same ▸ member)
        cases begins : rule.begins word with
        | true =>
            have gone : first? rest (rule.word word) = none := List.find?_eq_none.2
              fun other listed => by simp [parts.1 other listed word begins]
            simp [gone, first_cons_of_begins rest begins, different]
        | false => simp [first_cons_of_other rest begins, Rule.word_of_other begins]

theorem spelled_of_targets {lead : String} {targets : List String}
    (identLead : ∀ c ∈ lead.toList, isIdentChar c = true)
    (identTargets : ∀ target ∈ targets, ∀ c ∈ target.toList, isIdentChar c = true) :
    ∀ rule ∈ ofTargets lead targets, rule.Spelled := by
  intro rule member
  obtain ⟨listed, filled, same⟩ := (mem_of_targets _ _ _).1 member
  refine ⟨⟨?_, identTargets _ listed⟩, same ▸ identLead⟩
  rwa [ne_eq, String.toList_eq_nil_iff]

theorem settled_of_targets {lead : String} {targets : List String}
    (apart : ∀ target ∈ targets, target ≠ "" → ∀ other ∈ targets, other ≠ "" →
      ¬target.toList <+: (lead ++ other).toList) : (ofTargets lead targets).Settled := by
  refine (longer_first_of_targets lead targets).imp_of_mem ?_
  intro a b first second octets word begins
  obtain ⟨listedA, filledA, leadA⟩ := (mem_of_targets _ _ _).1 first
  obtain ⟨listedB, filledB, _⟩ := (mem_of_targets _ _ _).1 second
  rw [Rule.word_of_begins begins, ← Bool.not_eq_true, Rule.begins, List.isPrefixOf_iff_prefix]
  intro met
  -- A later target is no longer than this one, so it could only begin the new name.
  have named : (lead ++ a.target).toList <+: a.lead.toList ++ word := by
    rw [String.toList_append, leadA]
    exact (List.prefix_append_right_inj _).2 (List.isPrefixOf_iff_prefix.1 begins)
  have grown : b.target.utf8ByteSize ≤ (lead ++ a.target).utf8ByteSize := by
    rw [String.utf8ByteSize_append]
    omega
  exact apart _ listedB filledB _ listedA filledA (prefix_of_octets met named grown)

end Rules

/-- The longest target that a run begins with. -/
def IsLongest (targets : List String) (word : List Char) (target : String) : Prop :=
  target ∈ targets ∧ target ≠ "" ∧ target.toList <+: word ∧
    ∀ other ∈ targets, other.toList <+: word → other.length ≤ target.length

namespace Rules

theorem is_longest_of_first {lead : String} {targets : List String} {word : List Char} {rule : Rule}
    (found : (ofTargets lead targets).first? word = some rule) :
    IsLongest targets word rule.target := by
  obtain ⟨begins, before, after, split, missed⟩ := List.find?_eq_some_iff_append.1 found
  have listed : rule ∈ ofTargets lead targets := List.mem_of_find?_eq_some found
  obtain ⟨member, filled, _⟩ := (mem_of_targets _ _ _).1 listed
  have inside := List.isPrefixOf_iff_prefix.1 begins
  refine ⟨member, filled, inside, ?_⟩
  intro other otherListed otherInside
  by_cases empty : other = ""
  · simp [empty]
  · have there : ⟨other, lead⟩ ∈ ofTargets lead targets :=
      (mem_of_targets _ _ _).2 ⟨otherListed, empty, rfl⟩
    rw [split] at there
    -- The other target cannot come earlier, since the first one that begins the run was found.
    have octets : other.utf8ByteSize ≤ rule.target.utf8ByteSize := by
      have sorted := longer_first_of_targets lead targets
      rw [split] at sorted
      rcases List.mem_append.1 there with earlier | later
      · have miss := missed _ earlier
        simp only [Rule.begins, List.isPrefixOf_iff_prefix.2 otherInside] at miss
        contradiction
      · rcases List.mem_cons.1 later with same | behind
        · rw [← same]
        · exact (List.pairwise_cons.1 (List.pairwise_append.1 sorted).2.1).1 _ behind
    have shorter := (prefix_of_octets otherInside inside octets).length_le
    rwa [String.length_toList, String.length_toList] at shorter

theorem first_eq_some_iff (lead : String) (targets : List String) (word : List Char)
    (target : String) :
    (ofTargets lead targets).first? word = some ⟨target, lead⟩ ↔ IsLongest targets word target := by
  constructor
  · exact is_longest_of_first
  · rintro ⟨listed, filled, inside, longest⟩
    have there : ⟨target, lead⟩ ∈ ofTargets lead targets :=
      (mem_of_targets _ _ _).2 ⟨listed, filled, rfl⟩
    cases found : (ofTargets lead targets).first? word with
    | none =>
        have miss := List.find?_eq_none.1 found _ there
        exact absurd (List.isPrefixOf_iff_prefix.2 inside) miss
    | some rule =>
        obtain ⟨member, _, begins, above⟩ := is_longest_of_first found
        have sizes : target.length = rule.target.length :=
          Nat.le_antisymm (above target listed inside) (longest _ member begins)
        rw [← String.length_toList, ← String.length_toList] at sizes
        have same : target.toList = rule.target.toList :=
          (List.prefix_of_prefix_length_le inside begins sizes.le).eq_of_length sizes
        have lead? := ((mem_of_targets _ _ _).1 (List.mem_of_find?_eq_some found)).2.2
        rcases rule with ⟨own, ownLead⟩
        simp only at same lead?
        rw [String.toList_inj.1 same, lead?]

theorem word_of_targets {lead : String} {targets : List String}
    (settled : (ofTargets lead targets).Settled) (word : List Char) :
    (ofTargets lead targets).word word =
      if ∃ target ∈ targets, target ≠ "" ∧ target.toList <+: word then lead.toList ++ word
      else word := by
  rw [word_of_settled settled]
  cases found : (ofTargets lead targets).first? word with
  | none =>
      rw [if_neg]
      · rfl
      · rintro ⟨target, listed, filled, inside⟩
        have there : ⟨target, lead⟩ ∈ ofTargets lead targets :=
          (mem_of_targets _ _ _).2 ⟨listed, filled, rfl⟩
        exact List.find?_eq_none.1 found _ there (List.isPrefixOf_iff_prefix.2 inside)
  | some rule =>
      obtain ⟨listed, filled, inside, _⟩ := is_longest_of_first found
      have own := ((mem_of_targets _ _ _).1 (List.mem_of_find?_eq_some found)).2.2
      rw [if_pos ⟨rule.target, listed, filled, inside⟩, Option.map_some, Option.getD_some, own]

/-- A target is missed when it is the longest for no run. -/
theorem mem_missed_of_targets {lead : String} {targets : List String}
    (settled : (ofTargets lead targets).Settled) (words : List (List Char)) {target : String}
    (listed : target ∈ targets) (filled : target ≠ "") :
    .unmatchedRename target ∈ missed ((ofTargets lead targets).hits words) ↔
      ∀ word ∈ words, ¬IsLongest targets word target := by
  have none : ∀ rule : Rule,
      (words.countP fun word => (ofTargets lead targets).first? word == some rule) = 0 ↔
        ∀ word ∈ words, (ofTargets lead targets).first? word ≠ some rule := fun rule => by
    simp [List.countP_eq_zero]
  rw [hits_of_settled settled (nodup_of_targets lead targets), mem_missed_iff]
  constructor
  · rintro ⟨⟨own, ownLead⟩, member, zero, rfl⟩ word inside longest
    obtain ⟨_, _, rfl⟩ := (mem_of_targets _ _ _).1 member
    exact (none _).1 zero word inside ((first_eq_some_iff _ targets word own).2 longest)
  · intro missed
    refine ⟨⟨target, lead⟩, (mem_of_targets _ _ _).2 ⟨listed, filled, rfl⟩, ?_, rfl⟩
    rw [none]
    intro word inside found
    exact missed word inside ((first_eq_some_iff lead targets word target).1 found)

end Rules

/-- Renaming a text changes its runs, each by the rules in turn from the longest target on, and
leaves all other characters in their places. Each rule reports the runs that it meets, or that it met
none. When no target begins a new name, a run that begins with a target is renamed once, and a target
is missed exactly when it is the longest for no run. -/
theorem apply_text_runs (lead : String) (targets : List String) (text : String)
    (identLead : ∀ c ∈ lead.toList, isIdentChar c = true)
    (identTargets : ∀ target ∈ targets, ∀ c ∈ target.toList, isIdentChar c = true) :
    let rules := Rules.ofTargets lead targets
    let words := runs (pieces text.toList)
    (rules.Pairwise fun a b => b.target.utf8ByteSize ≤ a.target.utf8ByteSize) ∧
      pieces (rules.applyText text).value.toList =
        (pieces text.toList).map (Piece.onRun rules.word) ∧
      (rules.applyText text).warnings = Rules.missed (rules.hits words) ∧
      (rules.applyText text).log = Rules.found (rules.hits words) ∧
      ((∀ target ∈ targets, target ≠ "" → ∀ other ∈ targets, other ≠ "" →
          ¬target.toList <+: (lead ++ other).toList) →
        (∀ word, rules.word word =
          if ∃ target ∈ targets, target ≠ "" ∧ target.toList <+: word then lead.toList ++ word
          else word) ∧
        ∀ target ∈ targets, target ≠ "" →
          (.unmatchedRename target ∈ (rules.applyText text).warnings ↔
            ∀ word ∈ words, ¬IsLongest targets word target)) := by
  intro rules words
  have spelled := Rules.spelled_of_targets identLead identTargets
  have applied := Rules.apply_text_eq spelled text
  refine ⟨Rules.longer_first_of_targets lead targets, Rules.pieces_apply_text spelled text,
    by rw [applied], by rw [applied], ?_⟩
  intro apart
  have settled := Rules.settled_of_targets apart
  refine ⟨Rules.word_of_targets settled, ?_⟩
  intro target listed filled
  rw [applied]
  exact Rules.mem_missed_of_targets settled words listed filled

/-- A target within another, one within a longer name, and one that is missed. -/
theorem apply_text_runs_nested :
    let targets := ["Config", "TranscriptionConfig", "Audio"]
    let text := "TranscriptionConfigs: [Config, MyAudio]"
    let rules := Rules.ofTargets "Realtime" targets
    (∀ c ∈ "Realtime".toList, isIdentChar c = true) ∧
      (∀ target ∈ targets, ∀ c ∈ target.toList, isIdentChar c = true) ∧
      runs (pieces (rules.applyText text).value.toList) =
        ["RealtimeTranscriptionConfigs".toList, "RealtimeConfig".toList, "MyAudio".toList] ∧
      .unmatchedRename "Audio" ∈ (rules.applyText text).warnings := by
  intro targets text rules
  have identLead : ∀ c ∈ "Realtime".toList, isIdentChar c = true :=
    List.all_eq_true.1 (by decide +kernel)
  have identTargets : ∀ target ∈ targets, ∀ c ∈ target.toList, isIdentChar c = true := by
    have all : ∀ target ∈ targets, target.toList.all isIdentChar = true := by decide +kernel
    exact fun target listed => List.all_eq_true.1 (all target listed)
  obtain ⟨_, renamed, _, _, single⟩ := apply_text_runs "Realtime" targets text identLead identTargets
  obtain ⟨once, missed⟩ := single (by decide +kernel)
  refine ⟨identLead, identTargets, ?_, (missed "Audio" (by decide) (by decide)).2 ?_⟩
  · rw [renamed, runs_map_on_run, funext once]
    decide +kernel
  · rintro word inside ⟨_, _, begins, _⟩
    have none : ∀ word ∈ runs (pieces text.toList), ¬"Audio".toList <+: word := by decide +kernel
    exact none word inside begins

end MessageSchema.Rename
