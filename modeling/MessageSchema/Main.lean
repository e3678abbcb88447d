import MessageSchema.Command.Run

/-!
The program: a plan carried out on the real disk, which may refuse an operation for reasons of its own.
-/

namespace MessageSchema.Program

set_option autoImplicit false

open Files

def systemFault (code : UInt32) (reason : String) : Fault :=
  match code.toNat with
  | 2 => .notFound
  | 17 => .occupied
  | 20 => .notDirectory
  | 21 => .isDirectory
  | 36 => .tooLong
  | code => .refused reason code

def faultOf : IO.Error → Fault
  | .alreadyExists _ code reason | .noFileOrDirectory _ code reason
  | .invalidArgument _ code reason | .inappropriateType _ code reason
  | .permissionDenied _ code reason | .resourceExhausted _ code reason
  | .noSuchThing _ code reason | .interrupted _ code reason
  | .resourceBusy code reason | .resourceVanished code reason
  | .unsupportedOperation code reason | .hardwareFault code reason
  | .unsatisfiedConstraints code reason | .illegalOperation code reason
  | .protocolError code reason | .timeExpired code reason
  | .otherError code reason => systemFault code reason
  | error => .refused error.toString 0

def readText (path : Path) : IO (Except Fault String) := do
  try
    let bytes ← IO.FS.readBinFile path.text
    match String.fromUTF8? bytes with
    | some text => pure (.ok text)
    | none => pure (.error .notText)
  catch error => pure (.error (faultOf error))

def attempt (action : IO Unit) : IO (Option Fault) := do
  try
    action
    pure none
  catch error => pure (some (faultOf error))

def attemptOn (path : Path) (action : String → IO Unit) : IO (Option Fault) :=
  match path.fault? with
  | some fault => pure (some fault)
  | none => attempt (action path.text)

def perform {α : Type} : Plan α → IO α
  | .done result => pure result
  | .read path next => do
      let file : Path := ⟨path⟩
      let answer ← match file.fault? with
        | some fault => pure (.error fault)
        | none => readText file
      perform (next answer)
  | .makeDirectories path next => do
      let fault ← attemptOn path fun text => IO.FS.createDirAll text
      perform (next fault)
  | .write path text next => do
      let fault ← attemptOn ⟨path⟩ fun file => IO.FS.writeFile file text
      perform (next fault)

end MessageSchema.Program

def main (arguments : List String) : IO UInt32 := do
  let forced ← IO.getEnv "CLICOLOR_FORCE"
  let declined ← IO.getEnv "NO_COLOR"
  let enabled ← IO.getEnv "CLICOLOR"
  let terminal ← (← IO.getStdout).isTty
  let colored := MessageSchema.Command.isColored forced declined enabled terminal
  let report ← MessageSchema.Program.perform (MessageSchema.Command.run colored arguments)
  IO.print report.stdout
  IO.eprint (report.stderr.getD "usage: asyncapi-openapi (transform | classify | handlers) ...\n")
  pure (UInt32.ofNat report.code)
