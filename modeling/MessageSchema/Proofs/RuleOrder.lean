import MessageSchema.Proofs.HandledOccurrences
import MessageSchema.Proofs.MissedTargets
import Mathlib.Data.List.Dedup
import Mathlib.Data.List.Pairwise

/-!
The order of rules. One rule is made for each target that is not empty, and the rules stand by the
size of their targets, the longest first. The sort is stable and repetitions are dropped behind the
first, so among targets of one size the place where each is listed first decides. A target that is
part of another is smaller, and its rule comes later.
-/

namespace MessageSchema.Rename.Rules

set_option autoImplicit false

/-! ### First occurrences -/

theorem idx_of_lt_of_filter {items : List String} {keep : String → Bool} {a b : String}
    (kept : keep a = true) (kept' : keep b = true)
    (before : (items.filter keep).idxOf a < (items.filter keep).idxOf b) :
    items.idxOf a < items.idxOf b := by
  induction items with
  | nil => exact absurd before (Nat.lt_irrefl _)
  | cons first rest ih =>
      have distinct : a ≠ b := by
        rintro rfl
        exact Nat.lt_irrefl _ before
      by_cases here : first = a
      · subst here
        rw [List.idxOf_cons_self, List.idxOf_cons_ne rest distinct]
        exact Nat.succ_pos _
      · by_cases here' : first = b
        · subst here'
          rw [List.filter_cons_of_pos kept', List.idxOf_cons_self] at before
          exact absurd before (Nat.not_lt_zero _)
        · rw [List.idxOf_cons_ne rest here, List.idxOf_cons_ne rest here']
          apply Nat.succ_lt_succ
          apply ih
          cases stays : keep first with
          | false =>
              rwa [List.filter_cons_of_neg (by simp [stays])] at before
          | true =>
              rw [List.filter_cons_of_pos stays, List.idxOf_cons_ne _ here,
                List.idxOf_cons_ne _ here'] at before
              exact Nat.lt_of_succ_lt_succ before

/-- Dropping repetitions leaves the first occurrences, in their order. -/
theorem pairwise_erase_dups (items : List String) :
    items.eraseDups.Pairwise fun a b => items.idxOf a < items.idxOf b := by
  cases items with
  | nil => exact List.Pairwise.nil
  | cons first rest =>
      rw [List.eraseDups_cons, List.pairwise_cons]
      have other : ∀ item ∈ (rest.filter fun item => !item == first).eraseDups, first ≠ item := by
        intro item member
        rw [List.mem_eraseDups, List.mem_filter] at member
        rintro rfl
        simp at member
      constructor
      · intro item member
        rw [List.idxOf_cons_self, List.idxOf_cons_ne rest (other item member)]
        exact Nat.succ_pos _
      · apply (pairwise_erase_dups (rest.filter fun item => !item == first)).imp_of_mem
        intro a b member member' before
        have kept := other a member
        have kept' := other b member'
        rw [List.idxOf_cons_ne rest kept, List.idxOf_cons_ne rest kept']
        apply Nat.succ_lt_succ
        exact idx_of_lt_of_filter (by simpa using kept.symm) (by simpa using kept'.symm) before
termination_by items.length
decreasing_by
  exact Nat.lt_succ_of_le (List.length_filter_le _ _)

theorem idx_of_lt_of_sublist {items : List String} (distinct : items.Nodup) {a b : String}
    (pair : [a, b].Sublist items) : items.idxOf a < items.idxOf b := by
  have places := pairwise_erase_dups items
  rw [erase_dups_of_nodup distinct] at places
  exact List.pairwise_iff_forall_sublist.1 places pair

theorem sublist_or_sublist {items : List String} {a b : String} (member : a ∈ items)
    (member' : b ∈ items) (different : a ≠ b) :
    [a, b].Sublist items ∨ [b, a].Sublist items := by
  let either (x y : String) : Prop := [x, y].Sublist items ∨ [y, x].Sublist items
  have symmetric : Std.Symm either := ⟨fun x y => Or.symm⟩
  have pairs : items.Pairwise either :=
    List.pairwise_iff_forall_sublist.2 fun pair => Or.inl pair
  exact pairs.forall member member' different

/-! ### The sorted targets -/

/-- The order in which targets are handled: the larger first, and of two that are as large the one
that is listed first. -/
def Precedes (targets : List String) (a b : String) : Prop :=
  b.utf8ByteSize < a.utf8ByteSize ∨
    a.utf8ByteSize = b.utf8ByteSize ∧ targets.idxOf a < targets.idxOf b

/-- Sorting by size moves no two targets of one size past each other. -/
theorem sublist_of_merge_sort {kept : List String} (distinct : kept.Nodup) {a b : String}
    (pair : [a, b].Sublist (kept.mergeSort longerFirst)) (even : a.utf8ByteSize = b.utf8ByteSize) :
    [a, b].Sublist kept := by
  have sorted : (kept.mergeSort longerFirst).Nodup :=
    (List.mergeSort_perm kept longerFirst).nodup_iff.2 distinct
  have before := idx_of_lt_of_sublist sorted pair
  have member : a ∈ kept := List.mem_mergeSort.1 (pair.subset (by simp))
  have member' : b ∈ kept := List.mem_mergeSort.1 (pair.subset (by simp))
  have different : a ≠ b := by
    rintro rfl
    exact Nat.lt_irrefl _ before
  rcases sublist_or_sublist member member' different with same | turned
  · exact same
  · have level : longerFirst b a = true := decide_eq_true (Nat.le_of_eq even)
    have after := idx_of_lt_of_sublist sorted
      (List.pair_sublist_mergeSort longer_first_trans longer_first_total level turned)
    exact absurd before (Nat.lt_asymm after)

theorem precedes_of_targets (lead : String) (targets : List String) :
    ((ofTargets lead targets).map Rule.target).Pairwise (Precedes targets) := by
  have names : (ofTargets lead targets).map Rule.target =
      (targets.filter fun target => !target.isEmpty).eraseDups.mergeSort longerFirst := by
    rw [ofTargets, List.map_map]
    exact List.map_id _
  rw [names, List.pairwise_iff_forall_sublist]
  intro a b pair
  have filled : ∀ target ∈ [a, b], (!target.isEmpty) = true := by
    intro target member
    have kept := List.mem_eraseDups.1 (List.mem_mergeSort.1 (pair.subset member))
    exact (List.mem_filter.1 kept).2
  have large : b.utf8ByteSize ≤ a.utf8ByteSize := by
    have sizes := List.pairwise_mergeSort longer_first_trans longer_first_total
      (targets.filter fun target => !target.isEmpty).eraseDups
    exact of_decide_eq_true (List.pairwise_iff_forall_sublist.1 sizes pair)
  rcases Nat.lt_or_eq_of_le large with shorter | even
  · exact Or.inl shorter
  · have kept := sublist_of_merge_sort (nodup_erase_dups _) pair even.symm
    have first := List.pairwise_iff_forall_sublist.1 (pairwise_erase_dups _) kept
    exact Or.inr ⟨even.symm, idx_of_lt_of_filter (filled a (by simp)) (filled b (by simp)) first⟩

theorem idx_of_lt_of_pairwise {items : List String} {before : String → String → Prop}
    (ordered : items.Pairwise before) {a b : String} (member : a ∈ items) (member' : b ∈ items)
    (different : a ≠ b) (oneWay : ¬before b a) : items.idxOf a < items.idxOf b := by
  induction items with
  | nil => cases member
  | cons first rest ih =>
      rw [List.pairwise_cons] at ordered
      by_cases here : first = a
      · subst here
        rw [List.idxOf_cons_self, List.idxOf_cons_ne rest different]
        exact Nat.succ_pos _
      · have later : a ∈ rest := (List.mem_cons.1 member).resolve_left fun same => here same.symm
        by_cases here' : first = b
        · subst here'
          exact absurd (ordered.1 a later) oneWay
        · have later' : b ∈ rest := (List.mem_cons.1 member').resolve_left fun same => here' same.symm
          rw [List.idxOf_cons_ne rest here, List.idxOf_cons_ne rest here']
          exact Nat.succ_lt_succ (ih ordered.2 later later')

theorem octets_lt_of_infix {inner outer : String} (inside : inner.toList <:+: outer.toList)
    (different : inner ≠ outer) : inner.utf8ByteSize < outer.utf8ByteSize := by
  obtain ⟨front, back, whole⟩ := inside
  rw [← octets_to_list, ← octets_to_list, ← whole, octets_append, octets_append]
  by_cases bare : front = [] ∧ back = []
  · rw [bare.1, bare.2, List.nil_append, List.append_nil] at whole
    exact absurd (String.toList_inj.1 whole) different
  · rcases not_and_or.1 bare with given | given
    · have := octets_pos given
      omega
    · have := octets_pos given
      omega

/-- A target comes before any other that is part of it. -/
theorem idx_of_lt_of_within (lead : String) (targets : List String) {outer inner : String}
    (member : outer ∈ (ofTargets lead targets).map Rule.target)
    (member' : inner ∈ (ofTargets lead targets).map Rule.target) (different : inner ≠ outer)
    (inside : inner.toList <:+: outer.toList) :
    ((ofTargets lead targets).map Rule.target).idxOf outer <
      ((ofTargets lead targets).map Rule.target).idxOf inner := by
  have smaller := octets_lt_of_infix inside different
  refine idx_of_lt_of_pairwise (precedes_of_targets lead targets) member member' different.symm ?_
  rintro (larger | ⟨even, -⟩)
  · exact Nat.lt_asymm smaller larger
  · exact Nat.ne_of_lt smaller even

theorem mem_targets_of_targets (lead : String) (targets : List String) (target : String) :
    target ∈ (ofTargets lead targets).map Rule.target ↔ target ∈ targets ∧ target ≠ "" := by
  rw [List.mem_map]
  constructor
  · rintro ⟨rule, member, rfl⟩
    have parts := (mem_of_targets _ _ _).1 member
    exact ⟨parts.1, parts.2.1⟩
  · rintro ⟨listed, filled⟩
    exact ⟨⟨target, lead⟩, (mem_of_targets _ _ _).2 ⟨listed, filled, rfl⟩, rfl⟩

end MessageSchema.Rename.Rules

namespace MessageSchema

open Rename Rename.Rules

/-- Settings that are accepted have no empty target, so each of their targets has its rule. -/
theorem Settings.targets_perm {s : Settings} (accepted : s.validated = .ok s) :
    (s.rules.map Rule.target).Perm s.targets.dedup := by
  apply (List.perm_ext_iff_of_nodup (nodup_targets_of_targets _ _) (List.nodup_dedup _)).2
  intro target
  rw [mem_targets_of_targets, List.mem_dedup, and_iff_left_iff_imp]
  exact (Settings.checked_of_validated accepted).2.2 target

theorem Settings.replacement_ne {s : Settings} (accepted : s.validated = .ok s) {rule : Rule}
    (member : rule ∈ s.rules) : rule.replacement ≠ rule.target := by
  obtain ⟨listed, -, lead⟩ := (mem_of_targets _ _ _).1 member
  intro same
  have sizes := congrArg String.utf8ByteSize same
  rw [Rule.replacement, String.utf8ByteSize_append, lead] at sizes
  have blank : s.lead = "" := String.utf8ByteSize_eq_zero_iff.1 (by omega)
  rcases (Settings.checked_of_validated accepted).2.1 with none | given
  · rw [none] at listed
    cases listed
  · exact given blank

/-- The rules that are made of a lead and some targets. There is one for each target that is not
empty and no other, all with that lead; the larger targets come first, and those of one size in the
order in which they are listed first, so a target comes before any other that is part of it. For
settings that are accepted no target is dropped, and each becomes something else. -/
theorem rules_of_targets (lead : String) (targets : List String) :
    let names := (ofTargets lead targets).map Rule.target
    names.Nodup ∧
      (∀ target, target ∈ names ↔ target ∈ targets ∧ target ≠ "") ∧
      names.Pairwise (fun a b => b.utf8ByteSize < a.utf8ByteSize ∨
        a.utf8ByteSize = b.utf8ByteSize ∧ targets.idxOf a < targets.idxOf b) ∧
      (∀ outer ∈ names, ∀ inner ∈ names, inner ≠ outer → inner.toList <:+: outer.toList →
        names.idxOf outer < names.idxOf inner) ∧
      (∀ rule ∈ ofTargets lead targets, rule.lead = lead) ∧
      ∀ s : Settings, s.validated = .ok s →
        (s.rules.map Rule.target).Perm s.targets.dedup ∧
          ∀ rule ∈ s.rules, rule.replacement ≠ rule.target := by
  intro names
  refine ⟨nodup_targets_of_targets lead targets, mem_targets_of_targets lead targets,
    precedes_of_targets lead targets, ?_, ?_, ?_⟩
  · intro outer member inner member' different inside
    exact idx_of_lt_of_within lead targets member member' different inside
  · intro rule member
    exact ((mem_of_targets _ _ _).1 member).2.2
  · intro s accepted
    exact ⟨Settings.targets_perm accepted, fun rule => Settings.replacement_ne accepted⟩

/-- Repeated targets, an empty one, some of one size and some that are part of others. -/
theorem rules_of_targets_nested :
    let s : Settings := { targets := ["Set", "é", "Config", "ab", "ConfigSet", "Config"], lead := "R" }
    let names := (ofTargets "R" ("" :: s.targets)).map Rule.target
    names.Nodup ∧ s.validated = .ok s ∧ "Set".toList <:+: "ConfigSet".toList ∧
      names.idxOf "ConfigSet" < names.idxOf "Set" ∧ (∀ rule ∈ s.rules, rule.lead = "R") ∧
      (s.rules.map Rule.target).Perm ["Set", "é", "ab", "ConfigSet", "Config"] ∧
      (Rule.mk "Config" "R").replacement ≠ "Config" := by
  intro s names
  obtain ⟨distinct, exact, -, nested, -, accepted⟩ := rules_of_targets "R" ("" :: s.targets)
  obtain ⟨-, -, -, -, own, -⟩ := rules_of_targets s.lead s.targets
  have valid : s.validated = .ok s := by decide
  have inside : "Set".toList <:+: "ConfigSet".toList := by decide
  have listed : "ConfigSet" ∈ names := (exact "ConfigSet").2 (by decide)
  have listed' : "Set" ∈ names := (exact "Set").2 (by decide)
  have ruled : Rule.mk "Config" "R" ∈ s.rules := by
    exact (mem_of_targets _ _ _).2 (by decide)
  exact ⟨distinct, valid, inside, nested _ listed _ listed' (by decide) inside, own,
    (accepted s valid).1, (accepted s valid).2 _ ruled⟩

/-- Sizes count octets, and two small targets keep their places although a longer one moves. -/
example : (ofTargets "R" ["Set", "é", "Config", "ab", "ConfigSet", "Config"]).map Rule.target =
    ["ConfigSet", "Config", "Set", "é", "ab"] := by cbv

end MessageSchema
