import MessageSchema.Spec

/-!
Every payload becomes a schema with the name of its message. Its shape is not looked at; a message
without a payload gets the empty schema.
-/

namespace MessageSchema

set_option autoImplicit false

open Yaml

namespace Message

def schema (message : Message) : Value := message.payload.getD (.mapping [])

def entry (message : Message) : Value × Value := (.string message.name, message.schema)

def warnings (message : Message) : List Warning :=
  if message.payload.isSome then [] else [.missingPayload message.name]

end Message

/-- The payload schemas. Of messages with one name the last counts, in the place of the first. -/
def payloadSchemas (messages : List Message) : Mapping :=
  Mapping.ofEntries (messages.map Message.entry)

def payloadWarnings (messages : List Message) : List Warning := messages.flatMap Message.warnings

end MessageSchema
