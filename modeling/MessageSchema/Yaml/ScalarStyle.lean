import MessageSchema.Yaml.Scalar
import MessageSchema.Yaml.Cursor

/-!
How a string is written. A string that would read back as something else is quoted; one with line
breaks is a literal block; the others are plain as long as no character in them would be taken for a
mark of the document. What cannot be written plainly is single-quoted, and what single quotes cannot
hold is double-quoted.
-/

namespace MessageSchema.Yaml

set_option autoImplicit false

inductive ScalarStyle where
  | plain
  | single
  | double
  | literal
  deriving DecidableEq

namespace ScalarStyle

/-- Characters that may be written as they are outside double quotes. -/
def isPrintable (c : Char) : Bool :=
  let n := c.toNat
  n == 0x0A || (0x20 ≤ n && n ≤ 0x7E) || (0xA0 ≤ n && n ≤ 0xD7FF) ||
    (0xE000 ≤ n && n ≤ 0xFFFD && n != 0xFEFF) || 0x10000 ≤ n

def anyNeighbours (test : Char → Char → Bool) : List Char → Bool
  | first :: second :: rest => test first second || anyNeighbours test (second :: rest)
  | _ => false

def startsWithDocumentMark : List Char → Bool
  | '-' :: '-' :: '-' :: _ => true
  | '.' :: '.' :: '.' :: _ => true
  | _ => false

/-- A first character that would begin something other than a plain scalar. -/
def opensMark : List Char → Bool
  | [] => false
  | c :: rest =>
      "#,[]\x7b\x7d&*!|>'\"%@".toList.contains c || c == '\x60' ||
        (['?', ':', '-'].contains c && endOr isBlankOrBreak rest)

/-- A colon before a blank or at the end, or a number sign after a blank. -/
def holdsMark (text : List Char) : Bool :=
  anyNeighbours (fun before c => c == '#' && isBlankOrBreak before) text ||
    anyNeighbours (fun c after => c == ':' && isBlankOrBreak after) text ||
    text.getLast? == some ':'

structure Traits where
  marked : Bool
  broken : Bool
  special : Bool
  leading : Bool
  trailing : Bool
  trailingSpace : Bool
  breakThenSpace : Bool
  spaceThenBreak : Bool

def isSpaceOrBreak (c : Char) : Bool := c == ' ' || isBreak c

def traits (text : List Char) : Traits where
  marked := startsWithDocumentMark text || opensMark text || holdsMark text
  broken := text.any isBreak
  special := text.any fun c => !isPrintable c
  leading := text.head?.any isSpaceOrBreak
  trailing := text.getLast?.any isSpaceOrBreak
  trailingSpace := text.getLast? == some ' '
  breakThenSpace := anyNeighbours (fun before c => isBreak before && c == ' ') text
  spaceThenBreak := anyNeighbours (fun before c => before == ' ' && isBreak c) text

namespace Traits

def allowsPlain (t : Traits) : Bool :=
  !(t.marked || t.broken || t.special || t.leading || t.trailing || t.breakThenSpace ||
    t.spaceThenBreak)

def allowsSingle (t : Traits) : Bool := !(t.breakThenSpace || t.spaceThenBreak || t.special)

def allowsLiteral (t : Traits) : Bool := !(t.trailingSpace || t.spaceThenBreak || t.special)

end Traits

/-- Whether a text would read back as something other than a string, or is a number with leading
zeros, which a reader should not have to wonder about. -/
def needsQuotes (text : List Char) : Bool :=
  Scalar.meaning text != .string || Scalar.isPaddedDigits text

/-- Single quotes where they can hold the text. -/
def quoted (t : Traits) : ScalarStyle := if t.allowsSingle then .single else .double

def ofText (text : List Char) : ScalarStyle :=
  let t := traits text
  if text.contains '\n' then
    if text.isEmpty || !t.allowsLiteral then .double else .literal
  else if needsQuotes text then quoted t
  else if t.allowsPlain then .plain
  else quoted t

end ScalarStyle

end MessageSchema.Yaml
