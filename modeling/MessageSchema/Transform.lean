import MessageSchema.Assembly
import MessageSchema.Payloads
import MessageSchema.Rename.Text
import MessageSchema.Rename.Tree
import MessageSchema.Settings.Basic
import MessageSchema.Yaml.Document

/-!
The transformation of a message description: rename, classify, take out the payloads, add the
synthetic schemas, and assemble everything on the template. Both documents are read before anything
else is done with them, so malformed input fails early; every later irregularity is a warning.
-/

namespace MessageSchema

set_option autoImplicit false

open Yaml

structure Output where
  /-- The template with its schemas filled in. -/
  document : Value
  classification : Classification
  /-- All warnings of the run in the order in which they came up. -/
  warnings : List Warning

namespace Output

def toText (output : Output) : Except Failure String :=
  match output.document.toText with
  | .ok text => .ok text
  | .error cause => .error (.unwritable cause)

/-- The entries of a document's schemas, seen through tags. -/
def schemaEntries (document : Value) : Mapping :=
  (((document.get? "components").bind (·.get? "schemas")).bind Value.entries?).getD []

/-- The names in the schemas of a document, in order; keys that are no strings have none. -/
def schemaNamesOf (document : Value) : List String :=
  (schemaEntries document).filterMap fun entry => entry.1.text?

def schemaNames (output : Output) : List String := schemaNamesOf output.document

end Output

def readValue (source : Source) (text : String) : Except Failure Value :=
  match Value.ofText? text with
  | some value => .ok value
  | none => .error (.unreadable source)

def Spec.ofText (text : String) : Except Failure Spec := Spec.mk <$> readValue .spec text

namespace Settings

/-- The text of the description as it is read: renamed already, if that is done in the text. -/
def prepare (s : Settings) (spec : String) : Noted String :=
  match s.mode with
  | .text => s.rules.applyText spec
  | .tree => pure spec

/-- The description with its definitions renamed, if that is done in the document. -/
def renameSpec (s : Settings) (spec : Spec) : Noted Spec :=
  match s.mode with
  | .tree => Spec.mk <$> s.rules.applyTree spec.root
  | .text => pure spec

end Settings

namespace Spec

def readMessages (spec : Spec) : Noted (List Message) :=
  ⟨spec.messages, spec.sectionWarnings .messages, []⟩

def readSchemas (spec : Spec) : Noted Mapping :=
  ⟨spec.schemas, spec.sectionWarnings .schemas, []⟩

end Spec

def classify (publish names : List String) : Noted Classification :=
  ⟨.ofNames publish names, Classification.unmatched publish names, []⟩

def extractPayloads (messages : List Message) : Noted Mapping :=
  ⟨payloadSchemas messages, payloadWarnings messages, []⟩

/-- The catalog of a description: payloads, then synthetic schemas, then the schemas of its own, each
in the place of an equal name before it. -/
def buildCatalog (s : Settings) (spec : Spec) : Noted (Classification × Catalog) := do
  let messages ← spec.readMessages
  let classification ← classify s.publish (messages.map (·.name))
  let payloads ← extractPayloads messages
  let raw ← spec.readSchemas
  let synthetic := Synthetic.schemas classification s.clientMessages
  let catalog ← Catalog.ofStages [payloads, synthetic, raw]
  pure (classification, catalog)

def process (s : Settings) (spec : Spec) : Noted (Classification × Catalog) := do
  let renamed ← s.renameSpec spec
  buildCatalog s renamed

def closing (classification : Classification) (warnings : List Warning) : List Notice :=
  warnings.map .warned ++
    [.transformed classification.publish.length classification.subscribe.length warnings.length]

/-- Transforms the text of a description on the text of a template. The log is kept also when the
run fails. -/
def transform (s : Settings) (spec template : String) : Noted (Except Failure Output) :=
  let prepared := s.prepare spec
  match Spec.ofText prepared.value with
  | .error failure => { prepared with value := .error failure }
  | .ok parsed =>
      match readValue .template template with
      | .error failure => { prepared with value := .error failure }
      | .ok base =>
          let built := prepared.andThen fun _ => process s parsed
          let (classification, catalog) := built.value
          match catalog.assemble base with
          | .error failure => { built with value := .error failure }
          | .ok document =>
              { built with
                value := .ok ⟨document, classification, built.warnings⟩
                log := built.log ++ closing classification built.warnings }

end MessageSchema
