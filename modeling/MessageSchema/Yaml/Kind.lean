import MessageSchema.Yaml.Value

/-!
The kinds of values, for messages that say what was found in the place of something else.
-/

namespace MessageSchema.Yaml

set_option autoImplicit false

inductive Kind where
  | null
  | boolean
  | number
  | string
  | sequence
  | mapping
  | tagged
  deriving DecidableEq

def Kind.text : Kind → String
  | null => "null"
  | boolean => "a boolean"
  | number => "a number"
  | string => "a string"
  | sequence => "a sequence"
  | mapping => "a mapping"
  | tagged => "a tagged value"

/-- The kind of a value as it is written: a tag is not looked through. -/
def Value.kind : Value → Kind
  | null => .null
  | bool _ => .boolean
  | number _ => .number
  | string _ => .string
  | sequence _ => .sequence
  | mapping _ => .mapping
  | tagged _ _ => .tagged

end MessageSchema.Yaml
