import MessageSchema.Warning
import MessageSchema.Yaml.Value

/-!
A message description. Of its document only the two sections with definitions are given a structure;
everything else is carried along as it is. A section that is missing or null is empty, and one that is
anything but a mapping is reported and read as empty.
-/

namespace MessageSchema

set_option autoImplicit false

open Yaml

/-- The sections of `components` whose keys are the names of definitions. -/
inductive Section where
  | schemas
  | messages
  deriving DecidableEq

namespace Section

def name : Section → String
  | schemas => "schemas"
  | messages => "messages"

def path (s : Section) : String := "components." ++ s.name

end Section

structure Message where
  name : String
  payload : Option Value

structure Spec where
  root : Value

namespace Spec

/-- A section is a mapping, absent, or something that cannot be read as one. -/
inductive Lookup where
  | found (entries : Mapping)
  | absent
  | wrong
  deriving Inhabited

/-- How a value is read as a section. Only an untagged mapping is one. -/
def Lookup.ofValue? : Option Value → Lookup
  | none => absent
  | some .null => absent
  | some (.mapping entries) => found entries
  | some _ => wrong

def components (spec : Spec) : Lookup := .ofValue? (spec.root.get? "components")

/-- A section within the components, or the warning that one of the two is no mapping. -/
def lookup (spec : Spec) (s : Section) : Except Warning Mapping :=
  match spec.components with
  | .absent => .ok []
  | .wrong => .error (.notAMapping "components")
  | .found entries =>
      match Lookup.ofValue? (entries.find? s.name) with
      | .absent => .ok []
      | .wrong => .error (.notAMapping s.path)
      | .found definitions => .ok definitions

def entries (spec : Spec) (s : Section) : Mapping :=
  match spec.lookup s with
  | .ok entries => entries
  | .error _ => []

def sectionWarnings (spec : Spec) (s : Section) : List Warning :=
  match spec.lookup s with
  | .ok _ => []
  | .error warning => [warning]

/-- An entry whose key has no name is no message. -/
def message? (entry : Value × Value) : Option Message :=
  entry.1.spelling?.map fun name => ⟨name, entry.2.get? "payload"⟩

def messages (spec : Spec) : List Message := (spec.entries .messages).filterMap message?

def messageNames (spec : Spec) : List String := spec.messages.map (·.name)

/-- A key that has a name becomes that name, so that it meets other spellings of it. -/
def respelled (key : Value) : Value :=
  match key.spelling? with
  | some name => .string name
  | none => key

def schemas (spec : Spec) : Mapping :=
  Mapping.ofEntries ((spec.entries .schemas).map fun entry => (respelled entry.1, entry.2))

end Spec

end MessageSchema
