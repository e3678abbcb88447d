import MessageSchema.Files.Fault

/-!
Paths as they are written: pieces between slashes. Empty pieces and single points lead nowhere, but a
slash at the end asks for a directory.
-/

namespace MessageSchema.Files

set_option autoImplicit false

structure Path where
  text : String
  deriving DecidableEq

namespace Path

def split (text : List Char) : List (List Char) :=
  text.foldr
    (fun c pieces =>
      if c == '/' then [] :: pieces
      else
        match pieces with
        | piece :: rest => (c :: piece) :: rest
        | [] => [[c]])
    [[]]

def pieces (path : Path) : List (List Char) := split path.text.toList

def ofPieces (pieces : List (List Char)) : Path :=
  ⟨String.intercalate "/" (pieces.map String.ofList)⟩

def absolute (path : Path) : Bool := path.text.toList.head? == some '/'

def closed (path : Path) : Bool := path.text.toList.getLast? == some '/'

def steps (path : Path) : List String :=
  (path.pieces.filter fun piece => !piece.isEmpty).map String.ofList

def octetLimit : Nat := 4096

/-- What is wrong with a path on any disk. -/
def fault? (path : Path) : Option Fault :=
  if path.text.toList.contains '\x00' then some .nullInPath
  else if octetLimit ≤ path.text.utf8ByteSize then some .tooLong
  else none

/-- The paths that end behind a piece, given in reverse behind the first. A point counts only as the
first piece, an empty piece nowhere. -/
def lineage (first : List Char) : List (List Char) → List Path
  | [] => if first.isEmpty then [] else [ofPieces [first]]
  | last :: before =>
      let shorter := lineage first before
      if last.isEmpty || last == ['.'] then shorter
      else ofPieces (first :: (last :: before).reverse) :: shorter

/-- The path and those of the directories that lead to it, the longest first. -/
def ancestry (path : Path) : List Path :=
  match path.pieces with
  | [] => []
  | first :: rest => lineage first rest.reverse

/-- The directory that has to exist before a file can be written, if the path names one. -/
def parent? (path : Path) : Option Path := path.ancestry.tail.head?

end Path

end MessageSchema.Files
