import MessageSchema.Rename.Rule
import MessageSchema.Text.Ident

/-!
Renaming in a raw text. An occurrence of a target counts where no identifier character stands right
before it; what follows it does not matter. The text is read once from left to right for each rule.
The character that sets an occurrence apart belongs to it, so that two occurrences never share one.

A target is never too long to be searched for. A search through patterns has a limit of its own, which
only a target of some megabytes reaches; such a rule would be skipped with a line in the log.
-/

namespace MessageSchema.Rename

set_option autoImplicit false

/-- The characters of a text, each with the answer whether an occurrence of the target begins there.
The first `skip` characters belong to an occurrence that has begun before; after them, and after any
other character that is not part of an identifier, `mayBegin` says whether the next one may begin. -/
def marks (target : List Char) : Nat → Bool → List Char → List (Char × Bool)
  | _, _, [] => []
  | skip + 1, _, c :: rest => (c, false) :: marks target skip false rest
  | 0, mayBegin, c :: rest =>
      if mayBegin && target.isPrefixOf (c :: rest) then
        (c, true) :: marks target (target.length - 1) false rest
      else (c, false) :: marks target 0 (!Text.isIdentChar c) rest

theorem map_fst_marks (target text : List Char) (skip : Nat) (mayBegin : Bool) :
    (marks target skip mayBegin text).map (·.1) = text := by
  induction text generalizing skip mayBegin with
  | nil => cases skip <;> rfl
  | cons c rest ih =>
      cases skip with
      | zero => unfold marks; split <;> simp [ih]
      | succ skip => simp [marks, ih]

def expand (lead : List Char) (marked : List (Char × Bool)) : List Char :=
  marked.flatMap fun entry => if entry.2 then lead ++ [entry.1] else [entry.1]

theorem expand_unmarked (lead : List Char) (marked : List (Char × Bool))
    (unmarked : ∀ entry ∈ marked, entry.2 = false) :
    expand lead marked = marked.map (·.1) := by
  induction marked with
  | nil => rfl
  | cons entry rest ih =>
      have first := unmarked entry (by simp)
      have others := ih fun later member => unmarked later (by simp [member])
      simp only [expand, List.flatMap_cons, List.map_cons] at others ⊢
      simp [first, others]

namespace Rule

def marked (rule : Rule) (text : List Char) : List (Char × Bool) :=
  marks rule.target.toList 0 true text

def occurrences (rule : Rule) (text : List Char) : Nat := (rule.marked text).countP (·.2)

def renamed (rule : Rule) (text : List Char) : List Char :=
  expand rule.lead.toList (rule.marked text)

theorem renamed_of_no_occurrence (rule : Rule) (text : List Char)
    (absent : rule.occurrences text = 0) : rule.renamed text = text := by
  have unmarked : ∀ entry ∈ rule.marked text, entry.2 = false := by
    intro entry member
    have := List.countP_eq_zero.1 absent entry member
    simpa using this
  rw [renamed, expand_unmarked _ _ unmarked, marked, map_fst_marks]

def applyText (rule : Rule) (text : List Char) : Noted (List Char) :=
  let count := rule.occurrences text
  if count = 0 then ⟨text, [rule.unmatched], []⟩
  else ⟨rule.renamed text, [], [.renamedText count rule.target rule.replacement]⟩

theorem value_apply_text (rule : Rule) (text : List Char) :
    (rule.applyText text).value = rule.renamed text := by
  simp only [applyText]
  split
  · next absent => exact (rule.renamed_of_no_occurrence text absent).symm
  · rfl

end Rule

namespace Rules

/-- Each rule works on what the rules before it have made of the text. -/
def applyChars (rules : Rules) (text : List Char) : Noted (List Char) :=
  rules.foldlM (fun text rule => rule.applyText text) text

def applyText (rules : Rules) (text : String) : Noted String := do
  let chars ← rules.applyChars text.toList
  pure (String.ofList chars)

end Rules

end MessageSchema.Rename
