import MessageSchema.Proofs.Mappings
import MessageSchema.Rename.Tree
import MessageSchema.Settings.Basic
import Mathlib.Data.List.TakeWhile

/-!
What rules do to names and to the references that bear them. All rules made of one list of targets
share their lead, so the new name of a name depends on the set of targets only.
-/

namespace MessageSchema.Rename

set_option autoImplicit false

open Yaml

theorem Rule.eq_of_parts {first second : Rule} (target : first.target = second.target)
    (lead : first.lead = second.lead) : first = second := by
  rcases first with ⟨_, _⟩
  rcases second with ⟨_, _⟩
  exact Rule.mk.injEq .. ▸ ⟨target, lead⟩

namespace Rules

theorem mem_of_targets (lead : String) (targets : List String) (rule : Rule) :
    rule ∈ ofTargets lead targets ↔
      rule.target ∈ targets ∧ rule.target ≠ "" ∧ rule.lead = lead := by
  rcases rule with ⟨target, own⟩
  simp only [ofTargets, List.mem_map, List.mem_mergeSort, List.mem_eraseDups, List.mem_filter,
    Bool.not_eq_true', ← Bool.not_eq_true, String.isEmpty_iff, Rule.mk.injEq]
  constructor
  · rintro ⟨found, ⟨listed, filled⟩, rfl, rfl⟩
    exact ⟨listed, filled, rfl⟩
  · rintro ⟨listed, filled, rfl⟩
    exact ⟨target, ⟨listed, filled⟩, rfl, rfl⟩

theorem nodup_erase_dups {α : Type} [BEq α] [LawfulBEq α] (items : List α) :
    items.eraseDups.Nodup := by
  cases items with
  | nil => simp
  | cons first rest =>
      rw [List.eraseDups_cons, List.nodup_cons]
      exact ⟨by simp, nodup_erase_dups (rest.filter fun item => !item == first)⟩
termination_by items.length
decreasing_by
  exact Nat.lt_succ_of_le (List.length_filter_le _ _)

theorem erase_dups_of_nodup {α : Type} [BEq α] [LawfulBEq α] {items : List α}
    (distinct : items.Nodup) : items.eraseDups = items := by
  induction items with
  | nil => rfl
  | cons first rest ih =>
      obtain ⟨new, others⟩ := List.nodup_cons.1 distinct
      have kept : rest.filter (fun item => !item == first) = rest := by
        refine List.filter_eq_self.2 fun item listed => ?_
        have different : item ≠ first := fun same => new (same ▸ listed)
        simp [different]
      rw [List.eraseDups_cons, kept, ih others]

theorem nodup_of_targets (lead : String) (targets : List String) :
    (ofTargets lead targets).Nodup := by
  have distinct := nodup_erase_dups (targets.filter fun target => !target.isEmpty)
  refine List.Nodup.map ?_ ((List.mergeSort_perm _ longerFirst).nodup_iff.2 distinct)
  intro a b same
  exact (Rule.mk.inj same).1

theorem longer_first_trans (a b c : String) (first : longerFirst a b = true)
    (second : longerFirst b c = true) : longerFirst a c = true := by
  simp only [longerFirst, decide_eq_true_eq] at *
  omega

theorem longer_first_total (a b : String) : (longerFirst a b || longerFirst b a) = true := by
  simp only [longerFirst, Bool.or_eq_true, decide_eq_true_eq]
  omega

theorem longer_first_of_targets (lead : String) (targets : List String) :
    (ofTargets lead targets).Pairwise fun a b => b.target.utf8ByteSize ≤ a.target.utf8ByteSize := by
  rw [ofTargets, List.pairwise_map]
  exact (List.pairwise_mergeSort longer_first_trans longer_first_total _).imp fun shorter =>
    of_decide_eq_true shorter

theorem of_targets_of_sorted (lead : String) {targets : List String}
    (filled : ∀ target ∈ targets, target ≠ "") (distinct : targets.Nodup)
    (sorted : targets.Pairwise fun a b => longerFirst a b = true) :
    ofTargets lead targets = targets.map (⟨·, lead⟩) := by
  have kept : targets.filter (fun target => !target.isEmpty) = targets := by
    refine List.filter_eq_self.2 fun target listed => ?_
    simpa [String.isEmpty_iff] using filled target listed
  simp only [ofTargets, kept, erase_dups_of_nodup distinct, List.mergeSort_of_pairwise sorted]

theorem replacement_of_targets (lead : String) (targets : List String) (name : String) :
    (ofTargets lead targets).replacement? name =
      if name ∈ targets ∧ name ≠ "" then some (lead ++ name) else none := by
  unfold replacement?
  cases found : (ofTargets lead targets).find? fun rule => rule.target == name with
  | none =>
      rw [List.find?_eq_none] at found
      rw [if_neg]
      · rfl
      · rintro ⟨listed, filled⟩
        have missed := found ⟨name, lead⟩ ((mem_of_targets _ _ _).2 ⟨listed, filled, rfl⟩)
        simp at missed
  | some rule =>
      have hit : rule.target = name := by simpa using List.find?_some found
      have member := (mem_of_targets _ _ _).1 (List.mem_of_find?_eq_some found)
      rw [hit] at member
      rw [if_pos ⟨member.1, member.2.1⟩, Option.map_some, Rule.replacement, member.2.2, hit]

def rename (rules : Rules) (name : String) : String := (rules.replacement? name).getD name

theorem rename_of_targets {lead : String} {targets : List String}
    (filled : ∀ target ∈ targets, target ≠ "") (name : String) :
    (ofTargets lead targets).rename name = if name ∈ targets then lead ++ name else name := by
  unfold rename
  rw [replacement_of_targets]
  by_cases listed : name ∈ targets
  · simp [listed, filled name listed]
  · simp [listed]

theorem is_empty_of_targets (lead : String) (targets : List String) :
    (ofTargets lead targets).isEmpty = true ↔ ∀ target ∈ targets, target = "" := by
  rw [List.isEmpty_iff, List.eq_nil_iff_forall_not_mem]
  constructor
  · intro none target listed
    by_contra filled
    exact none ⟨target, lead⟩ ((mem_of_targets _ _ _).2 ⟨listed, filled, rfl⟩)
  · intro blank rule member
    have parts := (mem_of_targets _ _ _).1 member
    exact parts.2.1 (blank _ parts.1)

end Rules

/-- The step after the last slash holds no slash, and what stands before it is nothing or ends with
one. -/
theorem split_last_spec (path : List Char) :
    '/' ∉ (splitLast path).2 ∧
      ((splitLast path).1 = [] ∨ (splitLast path).1.getLast? = some '/') := by
  have whole := split_last_append path
  have step : (splitLast path).2 = (path.reverse.takeWhile (· != '/')).reverse := rfl
  have clean : '/' ∉ (splitLast path).2 := by
    rw [step, List.mem_reverse]
    intro member
    simpa using List.mem_takeWhile_imp member
  refine ⟨clean, ?_⟩
  have back : (splitLast path).1.reverse = path.reverse.dropWhile (· != '/') := by
    have turned : (splitLast path).2.reverse ++ (splitLast path).1.reverse = path.reverse := by
      rw [← List.reverse_append, whole]
    rw [step, List.reverse_reverse] at turned
    exact List.append_cancel_left (turned.trans List.takeWhile_append_dropWhile.symm)
  rcases List.eq_nil_or_concat' (splitLast path).1 with empty | ⟨init, last, ends⟩
  · exact Or.inl empty
  · right
    have head : (path.reverse.dropWhile (· != '/')).head? = some last := by
      rw [← back, ends]
      simp
    have slash := List.head?_dropWhile_not (· != '/') path.reverse
    rw [head] at slash
    have same : last = '/' := by simpa using slash
    simp [ends, same]

theorem split_last_of_append {front step : List Char} (clean : '/' ∉ step)
    (ends : front = [] ∨ front.getLast? = some '/') :
    splitLast (front ++ step) = (front, step) := by
  have stop : front.reverse.takeWhile (· != '/') = [] := by
    rcases ends with rfl | slash
    · rfl
    · rw [← List.head?_reverse] at slash
      cases turned : front.reverse with
      | nil => rfl
      | cons c rest =>
          rw [turned] at slash
          simp_all
  have through : ∀ c ∈ step.reverse, (c != '/') = true := by
    intro c member
    have different : c ≠ '/' := fun same => clean (same ▸ List.mem_reverse.1 member)
    simpa using different
  have last : ((front ++ step).reverse.takeWhile (· != '/')).reverse = step := by
    rw [List.reverse_append, List.takeWhile_append_of_pos through, stop]
    simp
  unfold splitLast
  simp only [last]
  simp

theorem slash_not_mem_of_definition {reference name : String}
    (named : definition? reference = some name) : '/' ∉ name.toList := by
  simp only [definition?] at named
  split at named
  · rw [← Option.some.inj named, String.toList_ofList]
    exact (split_last_spec _).1
  · contradiction

theorem split_last_with_definition (reference : String) {name : String} (clean : '/' ∉ name.toList) :
    splitLast (withDefinition reference name).toList =
      ((splitLast reference.toList).1, name.toList) := by
  rw [withDefinition, String.toList_ofList]
  exact split_last_of_append clean (split_last_spec _).2

theorem definition_with_definition {reference old name : String}
    (named : definition? reference = some old) (clean : '/' ∉ name.toList) :
    definition? (withDefinition reference name) = some name := by
  simp only [definition?] at named ⊢
  rw [split_last_with_definition reference clean]
  split at named
  · next leads => simp [leads]
  · contradiction

namespace Rules

/-- Two sets of rules in turn give names the same way as the third at once. What the first have
renamed the second leave alone, and they give no other name the same new one. -/
structure Compose (first second both : Rules) : Prop where
  agree : ∀ name, both.replacement? name = (first.replacement? name).or (second.replacement? name)
  settled : ∀ name new, first.replacement? name = some new → second.replacement? new = none
  apart : ∀ name other new, first.replacement? name = some new →
    second.replacement? other = some new → name = other
  clean : ∀ name new, '/' ∉ name.toList → first.replacement? name = some new → '/' ∉ new.toList

theorem reference_of_definition {rules : Rules} {reference name new : String}
    (named : definition? reference = some name) (renamed : rules.replacement? name = some new) :
    rules.reference reference = withDefinition reference new := by
  simp [Rules.reference, named, renamed]

theorem reference_of_kept {rules : Rules} {reference : String}
    (kept : (definition? reference).bind rules.replacement? = none) :
    rules.reference reference = reference := by
  simp [Rules.reference, kept]

theorem Compose.reference {first second both : Rules} (compose : Compose first second both)
    (reference : String) :
    second.reference (first.reference reference) = both.reference reference := by
  cases named : definition? reference with
  | none =>
      have kept : ∀ rules : Rules, rules.reference reference = reference := fun rules =>
        reference_of_kept (by simp [named])
      rw [kept first, kept second, kept both]
  | some name =>
      have agree := compose.agree name
      cases renamed : first.replacement? name with
      | some new =>
          have clean := compose.clean name new (slash_not_mem_of_definition named) renamed
          rw [renamed, Option.some_or] at agree
          rw [reference_of_definition named renamed, reference_of_definition named agree]
          apply reference_of_kept
          rw [definition_with_definition named clean, Option.bind_some]
          exact compose.settled name new renamed
      | none =>
          rw [renamed, Option.none_or] at agree
          have kept : first.reference reference = reference :=
            reference_of_kept (by simp [named, renamed])
          rw [kept]
          simp [Rules.reference, named, agree]

theorem key_of_spelling {rules : Rules} {key : Value} {name new : String}
    (spelled : key.spelling? = some name) (renamed : rules.replacement? name = some new) :
    rules.key key = .string new := by
  simp [Rules.key, spelled, renamed]

theorem key_of_kept {rules : Rules} {key : Value}
    (kept : key.spelling?.bind rules.replacement? = none) : rules.key key = key := by
  simp [Rules.key, kept]

theorem Compose.key {first second both : Rules} (compose : Compose first second both)
    (key : Value) : second.key (first.key key) = both.key key := by
  cases spelled : key.spelling? with
  | none =>
      have kept : ∀ rules : Rules, rules.key key = key := fun rules =>
        key_of_kept (by simp [spelled])
      rw [kept first, kept second, kept both]
  | some name =>
      have agree := compose.agree name
      cases renamed : first.replacement? name with
      | some new =>
          rw [renamed, Option.some_or] at agree
          rw [key_of_spelling spelled renamed, key_of_spelling spelled agree]
          exact key_of_kept (compose.settled name new renamed)
      | none =>
          rw [renamed, Option.none_or] at agree
          have kept : first.key key = key := key_of_kept (by simp [spelled, renamed])
          rw [kept]
          simp [Rules.key, spelled, agree]

theorem key_cases (rules : Rules) (key : Value) :
    rules.key key = key ∨
      ∃ name new, rules.replacement? name = some new ∧ rules.key key = .string new := by
  cases given : key.spelling?.bind rules.replacement? with
  | none => exact Or.inl (key_of_kept given)
  | some new =>
      obtain ⟨name, spelled, renamed⟩ := Option.bind_eq_some_iff.1 given
      exact Or.inr ⟨name, new, renamed, key_of_spelling spelled renamed⟩

theorem key_string (rules : Rules) (name : String) :
    rules.key (.string name) = .string (rules.rename name) := by
  unfold rename
  cases renamed : rules.replacement? name with
  | none => exact key_of_kept renamed
  | some new => exact key_of_spelling rfl renamed

theorem spelling_key (rules : Rules) (key : Value) :
    (rules.key key).spelling? = key.spelling?.map rules.rename := by
  cases spelled : key.spelling? with
  | none => rw [key_of_kept (by rw [spelled]; rfl), spelled, Option.map_none]
  | some name =>
      rw [Option.map_some, rename]
      cases renamed : rules.replacement? name with
      | some new => rw [key_of_spelling spelled renamed]; rfl
      | none => rw [key_of_kept (by rw [spelled]; exact renamed), spelled]; rfl

theorem well_keyed_key (rules : Rules) {key : Value} (wellKeyed : key.WellKeyed) :
    (rules.key key).WellKeyed := by
  unfold Rules.key
  split
  · trivial
  · exact wellKeyed

end Rules

theorem slash_not_mem_of_ident {name : List Char} (ident : ∀ c ∈ name, Text.isIdentChar c = true) :
    '/' ∉ name := by
  intro member
  have slash := ident '/' member
  contradiction

namespace Rules

theorem slash_not_mem_of_replacement {lead : String} (targets : List String)
    (ident : ∀ c ∈ lead.toList, Text.isIdentChar c = true) (name new : String)
    (clean : '/' ∉ name.toList) (renamed : (ofTargets lead targets).replacement? name = some new) :
    '/' ∉ new.toList := by
  rw [replacement_of_targets] at renamed
  split at renamed
  · rw [← Option.some.inj renamed, String.toList_append, List.mem_append, not_or]
    exact ⟨slash_not_mem_of_ident ident, clean⟩
  · contradiction

end Rules

end MessageSchema.Rename

namespace MessageSchema.Settings

/-- What the check of settings makes sure of. -/
theorem checked_of_validated {s : Settings} (accepted : s.validated = .ok s) :
    (∀ c ∈ s.lead.toList, Text.isIdentChar c = true) ∧ (s.targets = [] ∨ s.lead ≠ "") ∧
      ∀ target ∈ s.targets, target ≠ "" := by
  have sound := ((validated_eq_ok_iff s s).1 accepted).1
  simp only [fault?] at sound
  split at sound
  · contradiction
  · next filled =>
      split at sound
      · contradiction
      · next ident =>
          split at sound
          · contradiction
          · next named =>
              simp only [List.find?_eq_none, Bool.not_eq_true', Bool.not_eq_false] at ident
              refine ⟨ident, ?_, fun target member blank => named ?_⟩
              · rw [← List.isEmpty_iff]
                cases none : s.targets.isEmpty with
                | true => exact Or.inl rfl
                | false =>
                    right
                    rw [ne_eq, ← String.isEmpty_iff]
                    simpa [none] using filled
              · exact List.any_eq_true.2 ⟨target, member, String.isEmpty_iff.2 blank⟩

end MessageSchema.Settings
