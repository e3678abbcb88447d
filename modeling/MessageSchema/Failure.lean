import MessageSchema.Files.Fault
import MessageSchema.Settings.Basic
import MessageSchema.Yaml.Kind
import MessageSchema.Yaml.Printer

/-!
Why a run stops. Each failure belongs to one of six kinds, and its message begins with the name of the
kind.
-/

namespace MessageSchema

set_option autoImplicit false

inductive Source where
  | spec
  | template
  deriving DecidableEq

namespace Source

def name : Source → String
  | spec => "AsyncAPI spec"
  | template => "OpenAPI template"

def form : Source → String
  | spec => "AsyncAPI YAML"
  | template => "OpenAPI template"

end Source

inductive Failure where
  /-- A document is no YAML. -/
  | unreadable (source : Source)
  /-- The root of the template is neither a mapping nor null. -/
  | templateRoot (found : Yaml.Kind)
  | settings (fault : Settings.Fault)
  /-- The settings in a file are at fault. -/
  | settingsIn (path : String) (fault : Settings.Fault)
  /-- The file with the settings cannot be read. -/
  | settingsFile (path : String) (fault : Files.Fault)
  /-- The file of a document cannot be read. -/
  | sourceFile (source : Source) (path : String) (fault : Files.Fault)
  /-- The result cannot be saved. -/
  | output (fault : Files.Fault)
  | handlersDirectory (fault : Files.Fault)
  | handlersFile (path : String) (fault : Files.Fault)
  /-- The document that was built has no text. -/
  | unwritable (cause : Yaml.Unwritable)
  deriving DecidableEq

namespace Failure

inductive Kind where
  | parse
  | template
  | configuration
  | generation
  | io
  | yaml
  deriving DecidableEq

def Kind.label : Kind → String
  | parse => "Parse error: "
  | template => "Template error: "
  | configuration => "Configuration error: "
  | generation => "Generation error: "
  | io => "IO error: "
  | yaml => "YAML error: "

def kind : Failure → Kind
  | unreadable _ => .parse
  | templateRoot _ => .template
  | settings _ => .configuration
  | settingsIn _ _ => .configuration
  | settingsFile _ _ => .configuration
  | sourceFile _ _ _ => .io
  | output _ => .io
  | handlersDirectory _ => .generation
  | handlersFile _ _ => .generation
  | unwritable _ => .yaml

def detail : Failure → String
  | unreadable source => "Failed to parse " ++ source.form
  | templateRoot found => "OpenAPI template root must be a mapping, found " ++ found.text
  | settings fault => fault.message
  | settingsIn path fault => Text.quoted path ++ ": " ++ fault.message
  | settingsFile path fault =>
      "Failed to read config file " ++ Text.quoted path ++ ": " ++ fault.message
  | sourceFile source path fault =>
      "Failed to read " ++ source.name ++ " " ++ path ++ ": " ++ fault.message
  | output fault => fault.message
  | handlersDirectory fault => "Failed to create output directory: " ++ fault.message
  | handlersFile path fault => "Failed to write " ++ path ++ ": " ++ fault.message
  | unwritable cause => cause.message

def message (failure : Failure) : String := failure.kind.label ++ failure.detail

/-- Whether the message ends where the diagnosis of a reader would go on. -/
def isOpenEnded : Failure → Bool
  | unreadable _ => true
  | settings fault => fault == .unreadable
  | settingsIn _ fault => fault == .unreadable
  | _ => false

/-- A failure of a file or of writing a document passes on what it was told, and so is reported with
that as its cause. -/
def causes (failure : Failure) : List String :=
  match failure.kind with
  | .io => [failure.message, failure.detail]
  | .yaml => [failure.message, failure.detail]
  | _ => [failure.message]

end Failure

end MessageSchema
