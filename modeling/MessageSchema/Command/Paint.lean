/-!
Coloured output. A painted text is set between the sequence of its paint and the one that ends every
paint; where the text itself ends a paint, its own is begun again.
-/

namespace MessageSchema.Command

set_option autoImplicit false

inductive Paint where
  | cyan
  | yellow
  | bold
  | boldGreen
  deriving DecidableEq

namespace Paint

def escape : Char := '\x1b'

def codes : Paint → List Char
  | cyan => ['3', '6']
  | yellow => ['3', '3']
  | bold => ['1']
  | boldGreen => ['1', ';', '3', '2']

def opening (paint : Paint) : List Char := [escape, '['] ++ paint.codes ++ ['m']

def closing : List Char := [escape, '[', '0', 'm']

/-- Begins the paint again behind every sequence in the text that ends it. -/
def renew (paint : Paint) : List Char → List Char
  | [] => []
  | c :: rest =>
      let more := renew paint rest
      match c :: rest.take 3 with
      | ['\x1b', '[', '0', 'm'] => c :: (rest.take 3 ++ paint.opening ++ more.drop 3)
      | _ => c :: more

def apply (colored : Bool) (paint : Paint) (text : String) : String :=
  if colored then
    String.ofList (paint.opening ++ paint.renew text.toList ++ closing)
  else text

end Paint

/-- Whether the output has colours, by what the environment says. They can be forced or declined; else
a terminal has them unless they are turned off. A zero forces nothing, but it turns off. -/
def isColored (forced declined enabled : Option String) (terminal : Bool) : Bool :=
  if forced.any (· != "0") then true
  else if declined.isSome then false
  else enabled.all (· != "0") && terminal

end MessageSchema.Command
