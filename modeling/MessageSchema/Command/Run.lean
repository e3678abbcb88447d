import MessageSchema.Command.Help
import MessageSchema.Command.Json
import MessageSchema.Command.Paint
import MessageSchema.Command.Report
import MessageSchema.Job

/-!
The three commands. Each takes its settings from a file or the defaults, lets the options override
them, and checks the outcome before it does anything else.
-/

namespace MessageSchema.Command

set_option autoImplicit false

open Files

def versionText : String := "asyncapi-openapi 0.2.0\n"

def override (values : Values) (s : Settings) : Settings where
  inputPath := (values.single? .input).getD s.inputPath
  templatePath := s.templatePath
  outputPath := s.outputPath
  publish := (values.get? .publish).getD s.publish
  targets := (values.get? .rename).getD s.targets
  lead := (values.single? .lead).getD s.lead
  mode := ((values.single? .renameMode).bind Rename.Mode.ofName?).getD s.mode
  clientMessages := s.clientMessages

def overrideOutput (values : Values) (s : Settings) : Settings :=
  { s with
    templatePath := (values.single? .template).getD s.templatePath
    outputPath := (values.single? .output).getD s.outputPath
    clientMessages :=
      ((values.single? .clientMessages).bind ClientSource.ofText?).getD s.clientMessages }

/-- The base of the settings: a file, which must be valid by itself, or the defaults. -/
def baseSettings (values : Values) : Plan (Except Trouble Settings) :=
  match values.single? .config with
  | none => .done (.ok {})
  | some path => do
      match ← Job.loadSettings path with
      | .ok s => pure (.ok s)
      | .error failure => pure (.error (.ofFailure ("Failed to load config " ++ path) failure))

def resolve (values : Values) : Plan (Except Trouble Settings) := do
  match ← baseSettings values with
  | .error trouble => pure (.error trouble)
  | .ok base =>
      match (override values base).validated with
      | .ok s => pure (.ok s)
      | .error fault =>
          pure (.error (.ofFailure "Invalid configuration" (.settings fault)))

def arrow (colored : Bool) : String := Paint.cyan.apply colored "→"

def verboseLine (colored verbose : Bool) : String :=
  if verbose then arrow colored ++ " Verbose mode enabled\n" else ""

def warningCount? (count : Nat) : Option String :=
  match count with
  | 0 => none
  | 1 => some "⚠ 1 warning (see log)"
  | n => some ("⚠ " ++ toString n ++ " warnings (see log)")

def warningLine (colored : Bool) (indent : String) (count : Nat) : String :=
  match warningCount? count with
  | none => ""
  | some line => indent ++ Paint.yellow.apply colored line ++ "\n"

def bullets (colored : Bool) (paint : Paint) (names : List String) : String :=
  String.join (names.map fun name => "  • " ++ paint.apply colored name ++ "\n")

def settingsLines (s : Settings) : String :=
  let mode := match s.mode with | .tree => "Tree" | .text => "Text"
  let source := match s.clientMessages with | .subscribe => "Subscribe" | .publish => "Publish"
  "  Template: " ++ s.templatePath ++ "\n" ++
    "  Output: " ++ s.outputPath ++ "\n" ++
    "  Publish: " ++ String.intercalate ", " s.publish ++ "\n" ++
    "  Rename: " ++ String.intercalate ", " s.targets ++ " (" ++ mode ++ ", prefix " ++ s.lead ++
    ")\n" ++
    "  ClientMessages: " ++ source ++ "\n"

def classificationCounts (c : Classification) : String :=
  "  Messages: " ++ toString c.size ++ " (" ++ toString c.publish.length ++ " publish, " ++
    toString c.subscribe.length ++ " subscribe)\n"

def transformSummary (colored verbose : Bool) (path : String) (output : Output) : String :=
  "\n" ++ Paint.boldGreen.apply colored "✓ Transformation complete!" ++ "\n" ++
    "\n" ++ Paint.bold.apply colored "Summary:" ++ "\n" ++
    classificationCounts output.classification ++
    "  Schemas: " ++ toString output.schemaNames.length ++ "\n" ++
    warningLine colored "  " output.warnings.length ++
    "  📄 " ++ path ++ "\n" ++
    (if verbose then
      "\n" ++ Paint.bold.apply colored "Schemas:" ++ "\n" ++
        bullets colored .cyan output.schemaNames
    else "")

def transformCommand (colored verbose : Bool) (s : Settings) (printed : String) : Plan Report := do
  let opening := printed ++ arrow colored ++ " Transforming spec: " ++ s.inputPath ++ "\n" ++
    (if verbose then settingsLines s else "")
  match (← Job.transformFiles s).value with
  | .error failure =>
      pure (.failure opening (.ofFailure "Failed to transform AsyncAPI spec" failure))
  | .ok output =>
      pure (.success (opening ++ transformSummary colored verbose s.outputPath output))

/-- The transformation of the description alone, on an empty template. -/
def transformSpec (s : Settings) : Plan (Except Trouble Output) :=
  .read s.inputPath fun
    | .error fault =>
        .done (.error ⟨"Failed to read " ++ s.inputPath, [fault.message], false⟩)
    | .ok spec =>
        match (transform s spec "\x7b\x7d").value with
        | .error failure => .done (.error (.ofFailure "Failed to parse AsyncAPI spec" failure))
        | .ok output => .done (.ok output)

def classificationText (colored : Bool) (output : Output) : String :=
  warningLine colored "" output.warnings.length ++
    "\n" ++ Paint.bold.apply colored "Publish (client → server):" ++ "\n" ++
    bullets colored .cyan output.classification.publish ++
    "\n" ++ Paint.bold.apply colored "Subscribe (server → client):" ++ "\n" ++
    bullets colored .yellow output.classification.subscribe

def classifyCommand (colored json : Bool) (s : Settings) (printed : String) : Plan Report := do
  match ← transformSpec s with
  | .error trouble => pure (.failure printed trouble)
  | .ok output =>
      let answer :=
        if json then Json.classification output.classification ++ "\n"
        else classificationText colored output
      pure (.success (printed ++ answer))

def handlerNames (c : Classification) : String :=
  String.join ((Handlers.handled c).map fun name => "  " ++ Handlers.slot name ++ "\n")

def handlersSummary (colored : Bool) (path : String) (count : Nat) : String :=
  "\n" ++ Paint.boldGreen.apply colored "✓ Generation complete!" ++ "\n" ++
    "  📄 " ++ path ++ " (" ++ toString count ++ " handlers)\n"

def handlersCommand (colored verbose : Bool) (s : Settings) (path : String)
    (options : Handlers.Options) (printed : String) : Plan Report := do
  let opening := printed ++ arrow colored ++ " Generating handlers from: " ++ s.inputPath ++ "\n"
  match ← transformSpec s with
  | .error trouble => pure (.failure opening trouble)
  | .ok output =>
      let c := output.classification
      let listed := opening ++ warningLine colored "  " output.warnings.length ++
        (if verbose then handlerNames c else "")
      match (← Job.writeHandlers options c path).value with
      | .error failure => pure (.failure listed (.ofFailure "Failed to generate handlers" failure))
      | .ok () =>
          pure (.success (listed ++ handlersSummary colored path (Handlers.handled c).length))

def handlersOptions (values : Values) : Handlers.Options :=
  let options : Handlers.Options := {}
  { options with
    modelsPath := (values.single? .modelsPath).getD options.modelsPath
    asynchronous := values.has .asynchronous }

def runVerb (colored : Bool) (verb : Verb) (verbose : Bool) (values : Values) : Plan Report := do
  let printed := verboseLine colored verbose
  match ← resolve values with
  | .error trouble => pure (.failure printed trouble)
  | .ok s =>
      match verb with
      | .transform => transformCommand colored verbose (overrideOutput values s) printed
      | .classify => classifyCommand colored (values.has .json) s printed
      | .handlers =>
          let path := (values.single? .output).getD ""
          handlersCommand colored verbose s path (handlersOptions values) printed

def run (colored : Bool) (arguments : List String) : Plan Report :=
  match request? arguments false with
  | none => .done .refused
  | some .version => .done (.success versionText)
  | some (.help page long) => .done (.success (Help.text page long))
  | some (.run verb verbose values) => runVerb colored verb verbose values

end MessageSchema.Command
