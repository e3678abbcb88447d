import MessageSchema.Yaml.Value
import MessageSchema.Text.Quoted

/-!
How a message names a value: kind first, strings quoted, composite values with all that they hold.
-/

namespace MessageSchema.Yaml.Value

set_option autoImplicit false

mutual

def shown : Value → String
  | null => "Null"
  | bool b => "Bool(" ++ (if b then "true" else "false") ++ ")"
  | number n => "Number(" ++ n.text ++ ")"
  | string text => "String(" ++ Text.quoted text ++ ")"
  | sequence items => "Sequence [" ++ String.intercalate ", " (shownItems items) ++ "]"
  | mapping entries => "Mapping \x7b" ++ String.intercalate ", " (shownEntries entries) ++ "\x7d"
  | tagged tag value =>
      "TaggedValue \x7b tag: " ++ tag.text ++ ", value: " ++ shown value ++ " \x7d"

def shownItems : List Value → List String
  | [] => []
  | item :: rest => shown item :: shownItems rest

/-- Scalar keys are shown bare. -/
def shownEntries : List (Value × Value) → List String
  | [] => []
  | (key, value) :: rest =>
      let name :=
        match key with
        | bool b => if b then "true" else "false"
        | number n => n.text
        | string text => Text.quoted text
        | _ => shown key
      (name ++ ": " ++ shown value) :: shownEntries rest

end

end MessageSchema.Yaml.Value
