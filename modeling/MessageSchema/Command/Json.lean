import MessageSchema.Classification

/-!
A classification as a JSON object, with two spaces for each level. Strings escape the quote, the
backslash and the control characters, and nothing else.
-/

namespace MessageSchema.Command.Json

set_option autoImplicit false

def hexDigit (n : Nat) : Char := "0123456789abcdef".toList.getD n '0'

def escaped (c : Char) : List Char :=
  if c = '"' then ['\\', '"']
  else if c = '\\' then ['\\', '\\']
  else if c = '\x08' then ['\\', 'b']
  else if c = '\x0c' then ['\\', 'f']
  else if c = '\n' then ['\\', 'n']
  else if c = '\r' then ['\\', 'r']
  else if c = '\t' then ['\\', 't']
  else if c.toNat < 0x20 then
    ['\\', 'u', '0', '0', hexDigit (c.toNat / 16), hexDigit (c.toNat % 16)]
  else [c]

def string (text : String) : String :=
  String.ofList ('"' :: text.toList.flatMap escaped ++ ['"'])

/-- A list of strings that stands at the first level. -/
def strings (texts : List String) : String :=
  if texts.isEmpty then "[]"
  else "[\n    " ++ String.intercalate ",\n    " (texts.map string) ++ "\n  ]"

def classification (c : Classification) : String :=
  "\x7b\n  \"publish\": " ++ strings c.publish ++ ",\n  \"subscribe\": " ++ strings c.subscribe ++
    "\n\x7d"

end MessageSchema.Command.Json
