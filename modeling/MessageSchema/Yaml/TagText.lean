import MessageSchema.Yaml.Cursor
import MessageSchema.Yaml.Scalar

/-!
The text of tags and directives: handles between exclamation marks, and the characters of a resource
identifier, some of which are written as the octets of their encoding.
-/

namespace MessageSchema.Yaml.TagText

set_option autoImplicit false

/-- The characters of an identifier. One that is missing was written in octets that encode none. -/
abbrev Spelling := List (Option Char)

def Spelling.ofText (text : String) : Spelling := text.toList.map some

def Spelling.text? (spelling : Spelling) : Option String :=
  if spelling.all (·.isSome) then some (String.ofList (spelling.filterMap id)) else none

/-- A tag as written: the handle that a directive may declare, and the rest of it. -/
structure Written where
  handle : String
  suffix : Spelling
  deriving DecidableEq

def isUriChar (verbatim : Bool) (c : Char) : Bool :=
  isNameChar c || ";/?:@&=+$.%!~*'()".toList.contains c || (verbatim && ",[]".toList.contains c)

def octet? : List Char → Option Nat
  | '%' :: high :: low :: _ => Scalar.natural? 16 [high, low]
  | _ => none

/-- How many octets a leading octet announces. -/
def octetCount? (octet : Nat) : Option Nat :=
  if octet < 0x80 then some 1
  else if 0xC0 ≤ octet && octet < 0xE0 then some 2
  else if 0xE0 ≤ octet && octet < 0xF0 then some 3
  else if 0xF0 ≤ octet && octet < 0xF8 then some 4
  else none

def continued? : Nat → List Char → Option (List Nat)
  | 0, _ => some []
  | count + 1, text => do
      let octet ← octet? text
      if 0x80 ≤ octet && octet < 0xC0 then (continued? count (text.drop 3)).map (octet :: ·)
      else none

/-- The character of a whole sequence of octets, unless it is overlong, a surrogate or too large. -/
def charOfOctets (octets : List Nat) : Option Char :=
  (String.fromUTF8? ⟨(octets.map UInt8.ofNat).toArray⟩).bind (·.toList.head?)

/-- One escaped character: none if the octets are malformed, and otherwise the character, if there
is one, with the number of octets. -/
def escaped? (text : List Char) : Option (Option Char × Nat) := do
  let first ← octet? text
  let count ← octetCount? first
  let further ← continued? (count - 1) (text.drop 3)
  some (charOfOctets (first :: further), count)

structure Reading where
  spelling : Spelling
  length : Nat

def uri? (verbatim : Bool) : Nat → List Char → Option Reading
  | 0, _ => some ⟨[], 0⟩
  | _ + 1, [] => some ⟨[], 0⟩
  | fuel + 1, c :: rest =>
      if !isUriChar verbatim c then some ⟨[], 0⟩
      else if c == '%' then do
        let (decoded, count) ← escaped? (c :: rest)
        let further ← uri? verbatim fuel (rest.drop (3 * count - 1))
        some ⟨decoded :: further.spelling, 3 * count + further.length⟩
      else do
        let further ← uri? verbatim fuel rest
        some ⟨some c :: further.spelling, 1 + further.length⟩

/-- An identifier ends at a null character, should an octet spell one. -/
def upToNull (spelling : Spelling) : Spelling := spelling.takeWhile (· != some '\x00')

/-- A handle: an exclamation mark, name characters, and perhaps a second mark. -/
def handle? : List Char → Option (List Char)
  | '!' :: rest =>
      let name := rest.takeWhile isNameChar
      match rest.dropWhile isNameChar with
      | '!' :: _ => some ('!' :: name ++ ['!'])
      | _ => some ('!' :: name)
  | _ => none

/-- A handle that a directive can declare is a single mark or closed by a second one. -/
def isClosed (handle : List Char) : Bool :=
  2 ≤ handle.length && handle.getLast? == some '!'

/-- Reads a tag at the cursor. A verbatim tag stands between angle brackets; a tag without a closed
handle belongs to the handle that is a single mark, and the lone mark is a tag of its own. -/
def read? (inFlow : Bool) (c : Cursor) : Option (Written × Cursor) := do
  let (written, after) ←
    match c.rest with
    | '!' :: '<' :: rest => do
        let uri ← uri? true c.fuel rest
        let after := c.advance (2 + uri.length)
        if uri.length = 0 || after.rest.head? != some '>' then none
        else some ((⟨"", upToNull uri.spelling⟩ : Written), after.advance 1)
    | text => do
        let handle ← handle? text
        let after := c.advance handle.length
        let uri ← uri? false c.fuel after.rest
        let place := after.advance uri.length
        if isClosed handle then
          if uri.length = 0 then none
          else some (⟨String.ofList handle, upToNull uri.spelling⟩, place)
        else
          let suffix := upToNull ((handle.drop 1).map some ++ uri.spelling)
          if suffix.isEmpty then some (⟨"", [some '!']⟩, place)
          else some (⟨"!", suffix⟩, place)
  if after.onBlankOrEnd || (inFlow && after.rest.head? == some ',') then some (written, after)
  else none

end MessageSchema.Yaml.TagText
