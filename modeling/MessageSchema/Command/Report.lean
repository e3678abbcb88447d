import MessageSchema.Failure

/-!
What a command leaves behind: its exit code, what it printed, and on failure a report that goes from
what was attempted down to the cause.
-/

namespace MessageSchema.Command

set_option autoImplicit false

/-- The failure of a command: what was attempted, and the chain of causes. The report of one that is
open-ended stops where a reader's diagnosis would follow. -/
structure Trouble where
  attempt : String
  causes : List String
  openEnded : Bool
  deriving DecidableEq

namespace Trouble

def ofFailure (attempt : String) (failure : Failure) : Trouble :=
  ⟨attempt, failure.causes, failure.isOpenEnded⟩

def hanging (indent : Nat) (text : String) : String :=
  String.ofList (text.toList.flatMap fun c =>
    if c == '\n' then '\n' :: List.replicate indent ' ' else [c])

/-- A single cause is set in by four spaces; several are numbered. -/
def causeLines (causes : List String) : List String :=
  match causes with
  | [cause] => ["    " ++ hanging 4 cause]
  | _ =>
      causes.zipIdx.map fun (cause, index) =>
        let number := toString index
        String.ofList (List.replicate (5 - number.length) ' ') ++ number ++ ": " ++ hanging 7 cause

def text (trouble : Trouble) : String :=
  let whole := "Error: " ++ trouble.attempt ++
    (if trouble.causes.isEmpty then ""
    else "\n\nCaused by:\n" ++ String.intercalate "\n" (causeLines trouble.causes))
  if trouble.openEnded then whole else whole ++ "\n"

end Trouble

structure Report where
  code : Nat
  stdout : String
  /-- Nothing when the arguments were refused: the usage is not part of a report. -/
  stderr : Option String
  deriving DecidableEq

namespace Report

def success (stdout : String) : Report := ⟨0, stdout, some ""⟩

def failure (stdout : String) (trouble : Trouble) : Report := ⟨1, stdout, some trouble.text⟩

def refused : Report := ⟨2, "", none⟩

end Report

end MessageSchema.Command
