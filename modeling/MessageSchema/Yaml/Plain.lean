import MessageSchema.Yaml.Folding

/-!
Plain scalars: words up to a colon before a blank, a comment, a line that is not indented enough, or
inside brackets a comma or bracket.
-/

namespace MessageSchema.Yaml.Plain

set_option autoImplicit false

def isFlowMark (c : Char) : Bool := ['[', ']', '\x7b', '\x7d', ','].contains c

/-- One word. Inside brackets a colon right before a mark is refused, because it could belong to
either side. -/
def word? (inFlow : Bool) : List Char → Option (List Char)
  | [] => some []
  | c :: rest =>
      if isBlankOrBreak c then some []
      else if inFlow && c == ':' && rest.head?.any (fun x => isFlowMark x || x == '?') then none
      else if c == ':' && endOr isBlankOrBreak rest then some []
      else if inFlow && isFlowMark c then some []
      else (word? inFlow rest).map (c :: ·)

structure Reading where
  text : List Char
  gap : Gap
  cursor : Cursor

def readFrom (inFlow : Bool) (margin : Nat) : Nat → Reading → Option Reading
  | 0, r => some r
  | fuel + 1, r =>
      if r.cursor.onDocumentMark || r.cursor.rest.head? == some '#' then some r
      else do
        let word ← word? inFlow r.cursor.rest
        let after := r.cursor.advance word.length
        let read : Reading :=
          if word.isEmpty then r else ⟨r.text ++ r.gap.text ++ word, Gap.none, after⟩
        if !(read.cursor.rest.head?.any isBlankOrBreak) then some read
        else
          let (gap, next) ← Gap.read margin read.cursor.fuel read.gap read.cursor
          let further : Reading := ⟨read.text, gap, next⟩
          if !inFlow && next.column < margin then some further
          else readFrom inFlow margin fuel further

/-- Reads a plain scalar. `margin` is the least column of its further lines. -/
def read? (inFlow : Bool) (margin : Nat) (c : Cursor) : Option Reading :=
  readFrom inFlow margin c.fuel ⟨[], Gap.none, c⟩

end MessageSchema.Yaml.Plain
