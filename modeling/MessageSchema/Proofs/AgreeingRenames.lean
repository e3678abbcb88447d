import MessageSchema.Proofs.DeepReferences
import MessageSchema.Proofs.NamedDefinitions
import MessageSchema.Proofs.RepeatedTexts

/-!
Where renaming in the text and renaming in the document agree on a reference. The text is changed
where a run begins with a target, the document where the last step of a reference is a target. So the
two part exactly at names that a target begins without being one itself.
-/

namespace MessageSchema.Rename

set_option autoImplicit false

open Yaml Text

/-- A document that is nothing but a reference. -/
def bearer (reference : String) : Value := .mapping [(.string referenceKey, .string reference)]

theorem bearer_injective : Function.Injective bearer := by
  intro a b same
  simpa [bearer] using same

namespace Rules

/-! In the text. -/

/-- A slash keeps what stands before it apart from what stands behind it. -/
theorem value_apply_text_path {rules : Rules} (spelled : ∀ rule ∈ rules, rule.Spelled)
    (front name : String) :
    (rules.applyText (front ++ "/" ++ name)).value =
      (rules.applyText front).value ++ "/" ++ (rules.applyText name).value := by
  have cut : pieces (front ++ "/" ++ name).toList =
      pieces front.toList ++ .gap '/' :: pieces name.toList := by
    have whole : (front ++ "/" ++ name).toList = front.toList ++ '/' :: name.toList := by
      simp [String.toList_append]
    rw [whole, pieces_append_gap (by decide)]
  simp only [apply_text_eq spelled, cut, List.map_append, List.map_cons, joined_append, joined_cons]
  rw [← String.toList_inj]
  simp [String.toList_append, Piece.onRun, Piece.chars]

theorem value_apply_text_run {rules : Rules} (spelled : ∀ rule ∈ rules, rule.Spelled) {name : String}
    (run : IsRun name.toList) :
    (rules.applyText name).value = String.ofList (rules.word name.toList) := by
  rw [apply_text_eq spelled, pieces_of_run run]
  simp [joined, Piece.onRun, Piece.chars]

variable {lead : String} {targets : List String}

/-- Behind a path in which nothing is renamed, a name gets the lead if a target begins it. -/
theorem value_apply_text_reference (spelled : ∀ rule ∈ ofTargets lead targets, rule.Spelled)
    (settled : (ofTargets lead targets).Settled) {front name : String}
    (quiet : ∀ word ∈ runs (pieces front.toList), ∀ target ∈ targets, target ≠ "" →
      ¬target.toList <+: word)
    (run : IsRun name.toList) :
    ((ofTargets lead targets).applyText (front ++ "/" ++ name)).value =
      front ++ "/" ++
        if ∃ target ∈ targets, target ≠ "" ∧ target.toList <+: name.toList then lead ++ name
        else name := by
  have none : ∀ rule ∈ ofTargets lead targets, ∀ word ∈ runs (pieces front.toList),
      rule.begins word = false := by
    intro rule listed word inside
    obtain ⟨member, filled, _⟩ := (mem_of_targets _ _ _).1 listed
    rw [← Bool.not_eq_true, Rule.begins, List.isPrefixOf_iff_prefix]
    exact quiet word inside rule.target member filled
  rw [value_apply_text_path spelled, apply_text_of_none spelled none,
    value_apply_text_run spelled run, word_of_targets settled]
  congr 1
  split
  · rw [← String.toList_append, String.ofList_toList]
  · exact String.ofList_toList

/-! In the document. -/

theorem reference_path (rules : Rules) {name : String} (clean : '/' ∉ name.toList) (base : String)
    {path : String} (leads : path ∈ definitionPaths) :
    rules.reference (base ++ path ++ "/" ++ name) = base ++ path ++ "/" ++ rules.rename name := by
  have named : definition? (base ++ path ++ "/" ++ name) = some name :=
    (definition_eq_some_iff _ _).2 ⟨clean, Or.inr ⟨base, path, leads, rfl⟩⟩
  unfold rename
  cases renamed : rules.replacement? name with
  | none =>
      rw [reference_of_kept (by rw [named]; exact renamed)]
      rfl
  | some new =>
      rw [reference_of_definition named renamed, with_definition_path clean]
      rfl

theorem tree_bearer (rules : Rules) (reference : String) :
    rules.tree (bearer reference) = bearer (rules.reference reference) := by
  have wellKeyed : (bearer reference).WellKeyed := by
    simp [bearer, Value.WellKeyed, Value.WellKeyedEntries]
  have kept : rules.renameKeys (bearer reference) = bearer reference := rfl
  rw [tree_eq rules wellKeyed, kept]
  rfl

/-! Both. -/

/-- A name gets the lead in both, or in none, unless a target begins it without being it. -/
theorem reference_eq_apply_text_iff (filled : lead ≠ "")
    (spelled : ∀ rule ∈ ofTargets lead targets, rule.Spelled)
    (settled : (ofTargets lead targets).Settled) {base path name : String}
    (leads : path ∈ definitionPaths)
    (quiet : ∀ word ∈ runs (pieces (base ++ path).toList), ∀ target ∈ targets, target ≠ "" →
      ¬target.toList <+: word)
    (run : IsRun name.toList) :
    (ofTargets lead targets).reference (base ++ path ++ "/" ++ name) =
        ((ofTargets lead targets).applyText (base ++ path ++ "/" ++ name)).value ↔
      name ∈ targets ∨ ∀ target ∈ targets, target ≠ "" → ¬target.toList <+: name.toList := by
  have clean : '/' ∉ name.toList := slash_not_mem_of_ident run.2
  have named : name ≠ "" := by
    rw [ne_eq, ← String.toList_eq_nil_iff]
    exact run.1
  have longer : lead ++ name ≠ name := by
    intro same
    have sizes := congrArg String.length same
    rw [String.length_append] at sizes
    exact filled (String.length_eq_zero_iff.1 (by omega))
  rw [reference_path _ clean base leads, value_apply_text_reference spelled settled quiet run,
    String.append_right_inj, rename, replacement_of_targets]
  by_cases listed : name ∈ targets
  · have begun : ∃ target ∈ targets, target ≠ "" ∧ target.toList <+: name.toList :=
      ⟨name, listed, named, List.prefix_refl _⟩
    rw [if_pos ⟨listed, named⟩, if_pos begun]
    simp [listed]
  · rw [if_neg fun both => listed both.1, Option.getD_none]
    split
    · next begun =>
        obtain ⟨target, member, given, begins⟩ := begun
        refine ⟨fun same => absurd same.symm longer, ?_⟩
        rintro (here | none)
        · exact absurd here listed
        · exact absurd begins (none target member given)
    · next none =>
        refine ⟨fun _ => Or.inr fun target member given begins => ?_, fun _ => rfl⟩
        exact none ⟨target, member, given, begins⟩

end Rules

/-- A reference to a definition, on the path of which nothing is renamed, becomes the same in the
text and in the document exactly when its name is a target or begins with none. -/
theorem apply_tree_eq_apply_text_iff (lead : String) (targets : List String)
    (base path name : String) (filled : lead ≠ "")
    (identLead : ∀ c ∈ lead.toList, isIdentChar c = true)
    (identTargets : ∀ target ∈ targets, ∀ c ∈ target.toList, isIdentChar c = true)
    (apart : ∀ target ∈ targets, target ≠ "" → ∀ other ∈ targets, other ≠ "" →
      ¬target.toList <+: (lead ++ other).toList)
    (leads : path ∈ definitionPaths)
    (quiet : ∀ word ∈ runs (pieces (base ++ path).toList), ∀ target ∈ targets, target ≠ "" →
      ¬target.toList <+: word)
    (run : IsRun name.toList) :
    let rules := Rules.ofTargets lead targets
    let reference := base ++ path ++ "/" ++ name
    let inText := (rules.applyText reference).value
    let alike := name ∈ targets ∨
      ∀ target ∈ targets, target ≠ "" → ¬target.toList <+: name.toList
    ((rules.applyTree (bearer reference)).value = bearer inText ↔ alike) ∧
      ∀ root : Value, root.WellKeyed →
        (∀ s, rules.collisions (Rules.definitionsOf root s) = []) →
        ∀ place index, referenceAt? root place index = some reference →
          (referenceAt? (rules.applyTree root).value place index = some inText ↔ alike) := by
  intro rules reference inText alike
  have spelled := Rules.spelled_of_targets identLead identTargets
  have settled := Rules.settled_of_targets apart
  have same : rules.reference reference = inText ↔ alike :=
    Rules.reference_eq_apply_text_iff filled spelled settled leads quiet run
  constructor
  · have changed : (rules.applyTree (bearer reference)).value =
        bearer (rules.reference reference) := rules.tree_bearer reference
    rw [changed, bearer_injective.eq_iff, same]
  · intro root wellKeyed distinct place index found
    have plain : referenceKey ∉ targets := by
      intro listed
      have dollar := identTargets referenceKey listed '$' (by decide)
      contradiction
    have changed : referenceAt? (rules.applyTree root).value place index =
        some (rules.reference reference) :=
      reference_at_tree identLead plain wellKeyed distinct found
    rw [changed, Option.some.injEq, same]

/-- A target is renamed in both; a name that goes on behind it only in the text. -/
theorem apply_tree_eq_apply_text_iff_longer :
    let rules := Rules.ofTargets "Realtime" ["Config", "Audio"]
    let front := "common.yml" ++ "#/components/schemas" ++ "/"
    (rules.applyTree (bearer (front ++ "Config"))).value =
        bearer (rules.applyText (front ++ "Config")).value ∧
      (rules.applyTree (bearer (front ++ "ConfigSet"))).value ≠
        bearer (rules.applyText (front ++ "ConfigSet")).value := by
  intro rules front
  have identLead : ∀ c ∈ "Realtime".toList, isIdentChar c = true :=
    List.all_eq_true.1 (by decide +kernel)
  have identTargets : ∀ target ∈ ["Config", "Audio"], ∀ c ∈ target.toList,
      isIdentChar c = true := by
    have all : ∀ target ∈ ["Config", "Audio"], target.toList.all isIdentChar = true := by
      decide +kernel
    exact fun target listed => List.all_eq_true.1 (all target listed)
  have apart : ∀ target ∈ ["Config", "Audio"], target ≠ "" → ∀ other ∈ ["Config", "Audio"],
      other ≠ "" → ¬target.toList <+: ("Realtime" ++ other).toList := by decide +kernel
  have quiet : ∀ word ∈ runs (pieces ("common.yml" ++ "#/components/schemas").toList),
      ∀ target ∈ ["Config", "Audio"], target ≠ "" → ¬target.toList <+: word := by decide +kernel
  have named : ∀ name ∈ ["Config", "ConfigSet"], IsRun name.toList := by
    have all : ∀ name ∈ ["Config", "ConfigSet"],
        name.toList ≠ [] ∧ name.toList.all isIdentChar = true := by decide +kernel
    exact fun name listed => (all name listed).imp_right List.all_eq_true.1
  have iff := fun name listed => (apply_tree_eq_apply_text_iff "Realtime" ["Config", "Audio"]
    "common.yml" "#/components/schemas" name (by decide) identLead identTargets apart (by decide)
    quiet (named name listed)).1
  refine ⟨(iff "Config" (by decide)).2 (by decide), fun same => ?_⟩
  rcases (iff "ConfigSet" (by decide)).1 same with listed | none
  · exact absurd listed (by decide)
  · exact none "Config" (by decide) (by decide) (by decide +kernel)

end MessageSchema.Rename
