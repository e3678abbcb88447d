import MessageSchema.Noted

/-!
Rename rules. Two descriptions may define types of the same name; where both are used together, the
names of one get a common lead. Longer targets come first, so that a shorter one never meets part of
an occurrence that a longer one has yet to handle.
-/

namespace MessageSchema.Rename

set_option autoImplicit false

inductive Mode where
  /-- Among the definitions and references of the document. -/
  | tree
  /-- In the raw text, before it is read. -/
  | text
  deriving DecidableEq

namespace Mode

def name : Mode → String
  | tree => "tree"
  | text => "text"

def ofName? (name : String) : Option Mode := [tree, text].find? (·.name == name)

theorem of_name_name (mode : Mode) : ofName? mode.name = some mode := by
  cases mode <;> rfl

end Mode

structure Rule where
  target : String
  lead : String
  deriving DecidableEq

namespace Rule

/-- What every occurrence of the target becomes. -/
def replacement (rule : Rule) : String := rule.lead ++ rule.target

def unmatched (rule : Rule) : Warning := .unmatchedRename rule.target

end Rule

abbrev Rules := List Rule

namespace Rules

def longerFirst (a b : String) : Bool := b.utf8ByteSize ≤ a.utf8ByteSize

/-- One rule for each target that is not empty, the longest first. Targets of equal length keep
their order. -/
def ofTargets (lead : String) (targets : List String) : Rules :=
  let kept := (targets.filter fun target => !target.isEmpty).eraseDups
  (kept.mergeSort longerFirst).map fun target => ⟨target, lead⟩

/-- The new name of a name that is exactly a target. -/
def replacement? (rules : Rules) (name : String) : Option String :=
  (rules.find? fun rule => rule.target == name).map Rule.replacement

end Rules

end MessageSchema.Rename
