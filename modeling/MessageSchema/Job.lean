import MessageSchema.Files.Plan
import MessageSchema.Handlers
import MessageSchema.Settings.Reading
import MessageSchema.Transform

/-!
Runs that read and write files. Nothing is written before the whole result is there, so a run that
fails leaves every file as it was.
-/

namespace MessageSchema.Job

set_option autoImplicit false

open Files

variable {α : Type}

def failed (failure : Failure) : Noted (Except Failure α) := Noted.silent (.error failure)

def loadSettings (path : String) : Plan (Except Failure Settings) :=
  .read path fun
    | .error fault => .done (.error (.settingsFile path fault))
    | .ok text =>
        match Settings.ofText text with
        | .error fault => .done (.error (.settingsIn path fault))
        | .ok s => .done (.ok s)

def saveOutput (path : String) (ran : Noted (Except Failure Output)) (output : Output)
    (text : String) : Plan (Noted (Except Failure Output)) :=
  .save path text fun
    | some fault, _ => .done { ran with value := .error (.output fault) }
    | none, some fault => .done { ran with value := .error (.output fault) }
    | none, none =>
        .done { ran with value := .ok output, log := ran.log ++ [.wroteDocument path] }

def transformFiles (s : Settings) : Plan (Noted (Except Failure Output)) :=
  .read s.inputPath fun
    | .error fault => .done (failed (.sourceFile .spec s.inputPath fault))
    | .ok spec =>
        .read s.templatePath fun
          | .error fault => .done (failed (.sourceFile .template s.templatePath fault))
          | .ok template =>
              let ran := transform s spec template
              match ran.value with
              | .error failure => .done { ran with value := .error failure }
              | .ok output =>
                  match output.toText with
                  | .error failure => .done { ran with value := .error failure }
                  | .ok text => saveOutput s.outputPath ran output text

def writeHandlers (o : Handlers.Options) (c : Classification) (path : String) :
    Plan (Noted (Except Failure Unit)) :=
  let log := Handlers.skippedLog c
  .save path (Handlers.render o c) fun
    | some fault, _ => .done ⟨.error (.handlersDirectory fault), [], log⟩
    | none, some fault => .done ⟨.error (.handlersFile path fault), [], log⟩
    | none, none =>
        .done ⟨.ok (), [], log ++ [.wroteHandlers (Handlers.handled c).length path]⟩

end MessageSchema.Job
