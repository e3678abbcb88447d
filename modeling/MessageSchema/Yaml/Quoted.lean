import MessageSchema.Yaml.Folding
import MessageSchema.Yaml.Scalar

/-!
Quoted scalars. Between single quotes the quote alone is special, and is written twice; between
double quotes a backslash opens an escape, which may also join two lines.
-/

namespace MessageSchema.Yaml.Quoted

set_option autoImplicit false

/-- Hexadecimal digits of a fixed count; the character they name must exist. -/
def hexChar? (count : Nat) (text : List Char) : Option Char := do
  let digits := text.take count
  if digits.length < count then none
  else
    let value ← Scalar.natural? 16 digits
    if (0xD800 ≤ value && value ≤ 0xDFFF) || 0x10FFFF < value then none
    else some (Char.ofNat value)

/-- The character of an escape and how many characters name it, the backslash left out. -/
def escape? : List Char → Option (Char × Nat)
  | '0' :: _ => some ('\x00', 1)
  | 'a' :: _ => some ('\x07', 1)
  | 'b' :: _ => some ('\x08', 1)
  | 't' :: _ => some ('\t', 1)
  | '\t' :: _ => some ('\t', 1)
  | 'n' :: _ => some ('\n', 1)
  | 'v' :: _ => some ('\x0b', 1)
  | 'f' :: _ => some ('\x0c', 1)
  | 'r' :: _ => some ('\r', 1)
  | 'e' :: _ => some ('\x1b', 1)
  | ' ' :: _ => some (' ', 1)
  | '"' :: _ => some ('"', 1)
  | '/' :: _ => some ('/', 1)
  | '\\' :: _ => some ('\\', 1)
  | 'N' :: _ => some ('\u0085', 1)
  | '_' :: _ => some ('\u00a0', 1)
  | 'L' :: _ => some ('\u2028', 1)
  | 'P' :: _ => some ('\u2029', 1)
  | 'x' :: rest => (hexChar? 2 rest).map (·, 3)
  | 'u' :: rest => (hexChar? 4 rest).map (·, 5)
  | 'U' :: rest => (hexChar? 8 rest).map (·, 9)
  | _ => none

/-- A word: its text, its length in the document, and whether an escaped line break ends it. -/
structure Word where
  text : List Char
  length : Nat
  joined : Bool

def Word.cons (c : Char) (taken : Nat) (word : Word) : Word :=
  { word with text := c :: word.text, length := taken + word.length }

/-- One word, up to a blank, a break or the closing quote. -/
def word? (single : Bool) : Nat → List Char → Option Word
  | 0, _ => some ⟨[], 0, false⟩
  | _ + 1, [] => some ⟨[], 0, false⟩
  | fuel + 1, c :: rest =>
      if isBlankOrBreak c then some ⟨[], 0, false⟩
      else if single then
        match c, rest with
        | '\'', '\'' :: after => (word? single fuel after).map (·.cons '\'' 2)
        | '\'', _ => some ⟨[], 0, false⟩
        | _, _ => (word? single fuel rest).map (·.cons c 1)
      else if c == '"' then some ⟨[], 0, false⟩
      else if c == '\\' then
        if rest.head?.any isBreak then some ⟨[], 1, true⟩
        else do
          let (named, taken) ← escape? rest
          let word ← word? single fuel (rest.drop taken)
          some (word.cons named (taken + 1))
      else (word? single fuel rest).map (·.cons c 1)

def readFrom (single : Bool) : Nat → List Char → Cursor → Option (List Char × Cursor)
  | 0, _, _ => none
  | fuel + 1, text, c =>
      if c.onDocumentMark || c.atEnd then none
      else do
        let word ← word? single c.fuel c.rest
        let after := c.advance word.length
        let (gap, place) := if word.joined then (Gap.escaped, after.nextLine) else (Gap.none, after)
        let read := text ++ word.text
        if place.rest.head? == some (if single then '\'' else '"') then
          some (read, place.advance 1)
        else
          let (gap, next) ← Gap.read 0 place.fuel gap place
          readFrom single fuel (read ++ gap.text) next

def read? (single : Bool) (c : Cursor) : Option (List Char × Cursor) :=
  readFrom single c.fuel [] (c.advance 1)

end MessageSchema.Yaml.Quoted
