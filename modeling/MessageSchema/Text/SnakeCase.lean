import MessageSchema.Text.Letter

/-!
Message names become field names in snake case: a capital opens a new word when it follows a small
letter or a digit, or when a small letter follows it, so a run of capitals stays one word up to its
last letter. Hyphens, spaces and points separate words as well.
-/

namespace MessageSchema.Text

set_option autoImplicit false

def isSeparator (c : Char) : Bool := c == '-' || c == ' ' || c == '.'

/-- Whether a capital between these neighbours opens a word. The first letter never does. -/
def opensWord (before after : Option Char) : Bool :=
  match before with
  | none => false
  | some b => isSmall b || b.isDigit || after.any isSmall

/-- Words are set apart by one underscore, however many reasons there are for one. -/
def withUnderscore (written : List Char) : List Char :=
  if written.getLast? = some '_' then written else written ++ ['_']

def snakeStep (written : List Char) (before : Option Char) (c : Char) (after : Option Char) :
    List Char :=
  if isCapital c then
    (if opensWord before after then withUnderscore written else written) ++ small c
  else if isSeparator c then
    if written.isEmpty then written else withUnderscore written
  else written ++ [c]

def snakeFrom (written : List Char) (before : Option Char) : List Char → List Char
  | [] => written
  | c :: rest => snakeFrom (snakeStep written before c rest.head?) (some c) rest

def trimUnderscores (written : List Char) : List Char :=
  ((written.dropWhile (· == '_')).reverse.dropWhile (· == '_')).reverse

def snakeChars (name : List Char) : List Char := trimUnderscores (snakeFrom [] none name)

def toSnakeCase (name : String) : String := String.ofList (snakeChars name.toList)

theorem to_list_to_snake_case (name : String) : (toSnakeCase name).toList = snakeChars name.toList := by
  simp [toSnakeCase]

end MessageSchema.Text
