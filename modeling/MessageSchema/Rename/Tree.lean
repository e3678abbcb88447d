import MessageSchema.Rename.Reference
import MessageSchema.Spec

/-!
Renaming in a document. The definitions get their new names first, each by exact comparison of its
key with the targets; then the references that name a definition follow. A name that merely contains
a target is left alone.
-/

namespace MessageSchema.Rename

set_option autoImplicit false

open Yaml

def sections : List Section := [.schemas, .messages]

namespace Rules

def key (rules : Rules) (key : Value) : Value :=
  match key.spelling?.bind rules.replacement? with
  | some name => .string name
  | none => key

def renamedEntries (rules : Rules) (definitions : Mapping) : Mapping :=
  definitions.map fun entry => (rules.key entry.1, entry.2)

def definitions (rules : Rules) (definitions : Mapping) : Mapping :=
  Mapping.ofEntries (rules.renamedEntries definitions)

def collisions (rules : Rules) (definitions : Mapping) : List Value :=
  Mapping.replaced [] (rules.renamedEntries definitions)

theorem length_renamed_entries (rules : Rules) (definitions : Mapping) :
    (rules.renamedEntries definitions).length = definitions.length := by
  simp [renamedEntries]

/-- Applies a change to the definitions of a section, if it is an untagged mapping. -/
def onDefinitions (change : Mapping → Mapping) : Value → Value
  | .mapping definitions => .mapping (change definitions)
  | value => value

/-- Applies a change to the components of a document, seen through tags. -/
def onComponents (change : Mapping → Mapping) (root : Value) : Value :=
  root.underTags (onDefinitions (·.adjust "components"
    (·.underTags (onDefinitions change))))

def renameSections (rules : Rules) (components : Mapping) : Mapping :=
  sections.foldl (fun entries s => entries.adjust s.name (onDefinitions rules.definitions)) components

/-- The document with its definitions renamed and its references as they were. -/
def renameKeys (rules : Rules) (root : Value) : Value :=
  onComponents rules.renameSections root

/-- The definitions of a section, where renaming looks for them: the components are seen through
tags, the section is not. -/
def definitionsOf (root : Value) (s : Section) : Mapping :=
  match (root.get? "components").bind Value.entries? with
  | none => []
  | some components =>
      match components.find? s.name with
      | some (.mapping definitions) => definitions
      | _ => []

def isDefined (root : Value) (target : String) : Bool :=
  sections.any fun s => (definitionsOf root s).any fun entry => entry.1.spelling? == some target

def isReferenced (root : Value) (target : String) : Bool :=
  (references root).any fun reference => definition? reference == some target

/-- Whether a rule changes anything: its target is the name of a definition, or of a definition that
is referred to once the definitions have their new names. -/
def matchesTree (rules : Rules) (root : Value) (rule : Rule) : Bool :=
  isDefined root rule.target || isReferenced (rules.renameKeys root) rule.target

def tree (rules : Rules) (root : Value) : Value :=
  if rules.isEmpty then root else mapReferences rules.reference (rules.renameKeys root)

def treeWarnings (rules : Rules) (root : Value) : List Warning :=
  (rules.filter fun rule => !rules.matchesTree root rule).map Rule.unmatched

def treeLog (rules : Rules) (root : Value) : List Notice :=
  if rules.isEmpty then []
  else
    (sections.flatMap fun s => (rules.collisions (definitionsOf root s)).map .collided) ++
      (rules.filter fun rule => rules.matchesTree root rule).map fun rule =>
        .renamed rule.target rule.replacement

def applyTree (rules : Rules) (root : Value) : Noted Value :=
  ⟨rules.tree root, rules.treeWarnings root, rules.treeLog root⟩

end Rules

end MessageSchema.Rename
