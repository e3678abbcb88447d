import MessageSchema.Classification
import MessageSchema.Yaml.Value

/-!
Schemas that no description holds but that clients need: an envelope around any message, and string
enumerations of the message names of either side.
-/

namespace MessageSchema

set_option autoImplicit false

open Yaml

inductive ClientSource where
  | subscribe
  | publish
  deriving DecidableEq

namespace ClientSource

def text : ClientSource → String
  | subscribe => "subscribe"
  | publish => "publish"

def ofText? (text : String) : Option ClientSource :=
  [subscribe, publish].find? (·.text == text)

theorem of_text_text (source : ClientSource) : ofText? source.text = some source := by
  cases source <;> rfl

def names (source : ClientSource) (c : Classification) : List String :=
  match source with
  | subscribe => c.subscribe
  | publish => c.publish

end ClientSource

namespace Synthetic

def envelopeName : String := "RealtimeMessage"

def serverName : String := "ServerMessages"

def clientName : String := "ClientMessages"

def messagesName : String := "Messages"

def names : List String := [envelopeName, serverName, clientName, messagesName]

def envelope : Value :=
  .mapping [
    (.string "type", .string "object"),
    (.string "properties", .mapping [
      (.string "message", .mapping [
        (.string "$ref", .string ("#/components/schemas/" ++ messagesName))])])]

def enumeration (names : List String) : Value :=
  .mapping [(.string "type", .string "string"), (.string "enum", .sequence (names.map .string))]

def schemas (c : Classification) (source : ClientSource) : Mapping := [
  (.string envelopeName, envelope),
  (.string serverName, enumeration c.subscribe),
  (.string clientName, enumeration (source.names c)),
  (.string messagesName, enumeration c.subscribe)]

theorem keys_schemas (c : Classification) (source : ClientSource) :
    (schemas c source).map (·.1) = names.map .string := rfl

end Synthetic

end MessageSchema
