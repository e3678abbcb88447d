import MessageSchema.Settings.Basic
import MessageSchema.Yaml.Document

/-!
Settings from a document. What the document leaves out keeps its default, and keys that are not known
are passed over; a known key may stand only once. Texts are taken as they are written, whatever they
would mean as values, so that a name like `null` or `1.0` needs no quotes.
-/

namespace MessageSchema.Settings

set_option autoImplicit false

open Yaml

/-- What an alias stands for; any other node stands for itself. -/
def resolved (targets : Nat → Option Node) : Node → Option Node
  | .aliasOf number => targets number
  | node => some node

def text? (targets : Nat → Option Node) (node : Node) : Option String := do
  match ← resolved targets node with
  | .scalar _ _ _ text => some text
  | _ => none

/-- A list is a sequence of texts, or nothing at all. -/
def texts? (targets : Nat → Option Node) (node : Node) : Option (List String) := do
  match ← resolved targets node with
  | .sequence _ _ items => items.mapM (text? targets)
  | .scalar _ _ true "" => some []
  | _ => none

/-- A choice is written as a word, or as a tag on nothing. -/
def choice? {α : Type} (named : String → Option α) (targets : Nat → Option Node) (node : Node) :
    Option α := do
  match ← resolved targets node with
  | .scalar _ (.local name) plain text =>
      if plain && (text.isEmpty || Scalar.isNullWord text.toList) then named name else none
  | .scalar _ _ _ text => named text
  | _ => none

inductive Field where
  | inputPath
  | templatePath
  | outputPath
  | publish
  | targets
  | lead
  | mode
  | clientMessages
  deriving DecidableEq

namespace Field

def name : Field → String
  | inputPath => "input_path"
  | templatePath => "template_path"
  | outputPath => "output_path"
  | publish => "publish_messages"
  | targets => "rename_targets"
  | lead => "rename_prefix"
  | mode => "rename_mode"
  | clientMessages => "client_messages_source"

def all : List Field :=
  [inputPath, templatePath, outputPath, publish, targets, lead, mode, clientMessages]

def ofName? (name : String) : Option Field := all.find? (·.name == name)

theorem of_name_name (field : Field) : ofName? field.name = some field := by
  cases field <;> rfl

def set? (field : Field) (source : Nat → Option Node) (node : Node) (s : Settings) :
    Option Settings :=
  match field with
  | inputPath => (text? source node).map fun path => { s with inputPath := path }
  | templatePath => (text? source node).map fun path => { s with templatePath := path }
  | outputPath => (text? source node).map fun path => { s with outputPath := path }
  | publish => (texts? source node).map fun names => { s with publish := names }
  | targets => (texts? source node).map fun names => { s with targets := names }
  | lead => (text? source node).map fun lead => { s with lead := lead }
  | mode => (choice? Rename.Mode.ofName? source node).map fun mode => { s with mode := mode }
  | clientMessages =>
      (choice? ClientSource.ofText? source node).map fun side => { s with clientMessages := side }

end Field

/-- Reads the entries of a document one by one. The fields read so far may not come again. -/
def ofEntries? (source : Nat → Option Node) :
    List Field → Settings → List (Node × Node) → Option Settings
  | _, s, [] => some s
  | seen, s, (key, node) :: rest => do
      let name ← text? source key
      match Field.ofName? name with
      | none => ofEntries? source seen s rest
      | some field =>
          if seen.contains field then none
          else
            let s ← field.set? source node s
            ofEntries? source (field :: seen) s rest

def ofDocument? (d : Document) : Option Settings :=
  match d.root with
  | none => some {}
  | some root =>
      let anchored := root.anchored.reverse
      match root with
      | .mapping _ _ entries => ofEntries? (Document.target? anchored) [] {} entries
      | .scalar _ _ true "" => some {}
      | _ => none

def ofText (text : String) : Except Fault Settings :=
  match (Document.ofText? text.toList).bind ofDocument? with
  | some s => s.validated
  | none => .error .unreadable

end MessageSchema.Settings
