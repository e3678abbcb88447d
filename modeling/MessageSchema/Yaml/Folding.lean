import MessageSchema.Yaml.Cursor

/-!
The blank space inside a scalar of several lines. Blanks within a line are kept; around a line break
they fall away, a single break reads as a space, and further breaks are kept as they are.
-/

namespace MessageSchema.Yaml

set_option autoImplicit false

/-- Blank space read so far between two words. `broken` says whether a line has ended in it, also by
an escaped break, which leaves no text behind. -/
structure Gap where
  broken : Bool
  blanks : List Char
  first : List Char
  further : List Char

namespace Gap

def none : Gap := ⟨false, [], [], []⟩

def escaped : Gap := ⟨true, [], [], []⟩

def text (gap : Gap) : List Char :=
  if !gap.broken then gap.blanks
  else if gap.first == ['\n'] then
    if gap.further.isEmpty then [' '] else gap.further
  else gap.first ++ gap.further

theorem text_none : none.text = [] := rfl

/-- Reads on to the next word. A tab in the indentation of a line, left of `margin`, is refused. -/
def read (margin : Nat) : Nat → Gap → Cursor → Option (Gap × Cursor)
  | 0, gap, c => some (gap, c)
  | fuel + 1, gap, c =>
      match c.rest with
      | [] => some (gap, c)
      | x :: _ =>
          if isBlank x then
            if gap.broken then
              if x == '\t' && c.column < margin then Option.none
              else read margin fuel gap (c.advance 1)
            else read margin fuel { gap with blanks := gap.blanks ++ [x] } (c.advance 1)
          else if isBreak x then
            if gap.broken then
              read margin fuel { gap with further := gap.further ++ c.breakText } c.nextLine
            else read margin fuel ⟨true, [], c.breakText, []⟩ c.nextLine
          else some (gap, c)

end Gap

end MessageSchema.Yaml
