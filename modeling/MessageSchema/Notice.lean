import MessageSchema.Warning
import MessageSchema.Yaml.Shown

/-!
What the library reports about its own work while it is doing it. A notice says what happened; its
level says to whom that matters.
-/

namespace MessageSchema

set_option autoImplicit false

inductive Level where
  | debug
  | info
  | warn
  deriving DecidableEq

def Level.text : Level → String
  | debug => "DEBUG"
  | info => "INFO"
  | warn => "WARN"

inductive Notice where
  /-- Occurrences of a target in a raw text got their new name. -/
  | renamedText (count : Nat) (target replacement : String)
  /-- Definitions and references of a document got their new name. -/
  | renamed (target replacement : String)
  /-- A definition took the place of an earlier one with the same new name. -/
  | collided (key : Yaml.Value)
  /-- A schema took the place of an earlier one. -/
  | replaced (key : Yaml.Value)
  | warned (warning : Warning)
  | transformed (publish subscribe warnings : Nat)
  | wroteDocument (path : String)
  | skippedHandler (name : String)
  | wroteHandlers (count : Nat) (path : String)

namespace Notice

def level : Notice → Level
  | renamedText _ _ _ => .debug
  | renamed _ _ => .debug
  | collided _ => .warn
  | replaced _ => .debug
  | warned _ => .warn
  | transformed _ _ _ => .info
  | wroteDocument _ => .info
  | skippedHandler _ => .warn
  | wroteHandlers _ _ => .debug

def message : Notice → String
  | renamedText count target replacement =>
      "Renamed " ++ toString count ++ " occurrence(s) of " ++ target ++ " to " ++ replacement
  | renamed target replacement => "Renamed " ++ target ++ " to " ++ replacement
  | collided key =>
      "Renamed definition " ++ key.shown ++
        " collides with an existing one; keeping the renamed body"
  | replaced key => "Schema " ++ key.shown ++ " replaced by a later definition"
  | warned warning => warning.message
  | transformed publish subscribe warnings =>
      "Transformed " ++ toString (publish + subscribe) ++ " messages (" ++ toString publish ++
        " publish, " ++ toString subscribe ++ " subscribe) with " ++ toString warnings ++
        " warning(s)"
  | wroteDocument path => "Wrote " ++ path
  | skippedHandler name => "Skipping handler for '" ++ name ++ "': not a Rust identifier"
  | wroteHandlers count path => "Wrote " ++ toString count ++ " handler(s) to " ++ path

def line (notice : Notice) : String := notice.level.text ++ " " ++ notice.message

end Notice

end MessageSchema
