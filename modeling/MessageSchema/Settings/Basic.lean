import MessageSchema.Rename.Rule
import MessageSchema.Synthetic
import MessageSchema.Text.Ident
import MessageSchema.Text.Quoted

/-!
The settings of a run, with their defaults, and the check that they make sense together. A lead has
to consist of identifier characters because it becomes part of names; it may only be empty when
nothing is renamed.
-/

namespace MessageSchema

set_option autoImplicit false

structure Settings where
  inputPath : String := "../schemas/realtime.yml"
  templatePath : String := "template-openapi.yaml"
  outputPath : String := "openapi-transformed.yaml"
  /-- Names of the messages that clients send. -/
  publish : List String := ["StartRecognition", "AddAudio", "EndOfStream", "SetRecognitionConfig"]
  targets : List String := ["TranscriptionConfig", "DiarizationConfig"]
  lead : String := "Realtime"
  mode : Rename.Mode := .tree
  clientMessages : ClientSource := .subscribe
  deriving DecidableEq

namespace Settings

inductive Fault where
  /-- The settings are no document of the expected form. -/
  | unreadable
  | missingLead
  | badLead (lead : String) (found : Char)
  | emptyTarget (targets : List String)
  deriving DecidableEq

def Fault.message : Fault → String
  | unreadable => "Failed to parse config YAML"
  | missingLead => "rename_prefix must not be empty when rename_targets are set"
  | badLead lead found =>
      "rename_prefix '" ++ lead ++ "' contains non-identifier character '" ++
        String.singleton found ++ "'"
  | emptyTarget targets => "empty rename target in " ++ Text.quotedList targets

def fault? (s : Settings) : Option Fault :=
  if s.lead.isEmpty && !s.targets.isEmpty then some .missingLead
  else
    match s.lead.toList.find? fun c => !Text.isIdentChar c with
    | some c => some (.badLead s.lead c)
    | none => if s.targets.any String.isEmpty then some (.emptyTarget s.targets) else none

def validated (s : Settings) : Except Fault Settings :=
  match s.fault? with
  | some fault => .error fault
  | none => .ok s

theorem validated_eq_ok_iff (s t : Settings) :
    s.validated = .ok t ↔ s.fault? = none ∧ s = t := by
  unfold validated
  cases s.fault? <;> simp

def rules (s : Settings) : Rename.Rules := Rename.Rules.ofTargets s.lead s.targets

end Settings

end MessageSchema
