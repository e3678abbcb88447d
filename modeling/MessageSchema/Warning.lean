/-!
Irregularities of a description that do not stop the work. Each has a safe reading, which its
message states.
-/

namespace MessageSchema

set_option autoImplicit false

inductive Warning where
  /-- A name of the publish list is not the name of a message. -/
  | unmatchedPublish (name : String)
  /-- A rename target does not occur. -/
  | unmatchedRename (target : String)
  /-- A message has no payload, and its schema is empty. -/
  | missingPayload (message : String)
  /-- A section is something else than a mapping, and is read as an empty one. -/
  | notAMapping (path : String)
  deriving DecidableEq

namespace Warning

def subject : Warning → String
  | unmatchedPublish name => name
  | unmatchedRename target => target
  | missingPayload message => message
  | notAMapping path => path

def message : Warning → String
  | unmatchedPublish name => "publish message '" ++ name ++ "' not found in spec"
  | unmatchedRename target => "rename target '" ++ target ++ "' not found in spec"
  | missingPayload message => "message '" ++ message ++ "' has no payload, using empty schema"
  | notAMapping path => "'" ++ path ++ "' is not a mapping, treating it as empty"

end Warning

end MessageSchema
