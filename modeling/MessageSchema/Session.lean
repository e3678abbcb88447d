import MessageSchema.Handlers
import MessageSchema.Transform

/-!
The stages of a transformation one at a time, in any order and as often as wanted. A session holds
what the stages pass on to each other: the description, the rename rules, the last classification,
the last catalog, and the catalogs staged so far.
-/

namespace MessageSchema

set_option autoImplicit false

open Yaml

structure Session where
  spec : Spec
  rules : Rename.Rules
  classification : Classification := .empty
  /-- The catalog that the next staging takes. -/
  catalog : Catalog := []
  /-- What has been staged. -/
  staged : Catalog := []

namespace Session

inductive Step where
  | setRules (rules : Rename.Rules)
  | rename
  | load (spec : Except Failure Spec)
  | messages
  | names
  | classify (publish : List String)
  | extract
  | synthetic (source : ClientSource)
  | schemas
  | setCatalog (catalog : Catalog)
  | stage
  | clear
  | assemble (template : Value)
  | reload (template : Value)
  | handlers (options : Handlers.Options)

inductive Answer where
  | rules (rules : Rename.Rules)
  | value (value : Value)
  | messages (messages : List Message)
  | names (names : List String)
  | classification (classification : Classification)
  | count (count : Nat)
  | handlers (options : Handlers.Options) (classification : Classification)
  | failed (failure : Failure)

/-- Takes a step. One that fails leaves the session as it was. -/
def step (s : Session) : Step → Noted (Session × Answer)
  | .setRules rules => pure ({ s with rules := rules }, .rules rules)
  | .rename => do
      let root ← s.rules.applyTree s.spec.root
      pure ({ s with spec := ⟨root⟩ }, .value root)
  | .load (.ok spec) => pure ({ s with spec := spec }, .value spec.root)
  | .load (.error failure) => pure (s, .failed failure)
  | .messages => do
      let messages ← s.spec.readMessages
      pure (s, .messages messages)
  | .names => pure (s, .names s.spec.messageNames)
  | .classify publish => do
      let classification ← MessageSchema.classify publish s.spec.messageNames
      pure ({ s with classification := classification }, .classification classification)
  | .extract => do
      let messages ← s.spec.readMessages
      let payloads ← extractPayloads messages
      pure ({ s with catalog := payloads }, .value (.mapping payloads))
  | .synthetic source =>
      let catalog := Synthetic.schemas s.classification source
      pure ({ s with catalog := catalog }, .value (.mapping catalog))
  | .schemas => do
      let catalog ← s.spec.readSchemas
      pure ({ s with catalog := catalog }, .value (.mapping catalog))
  | .setCatalog catalog => pure ({ s with catalog := catalog }, .count catalog.length)
  | .stage => do
      let staged ← Catalog.stage s.staged s.catalog
      pure ({ s with staged := staged }, .value (.mapping staged))
  | .clear => pure ({ s with staged := [] }, .value (.mapping []))
  | .assemble template =>
      match Catalog.assemble s.staged template with
      | .ok document => pure (s, .value document)
      | .error failure => pure (s, .failed failure)
  | .reload template =>
      match Catalog.assemble s.staged template with
      | .ok document => pure ({ s with spec := ⟨document⟩ }, .value document)
      | .error failure => pure (s, .failed failure)
  | .handlers options => do
      Noted.note (Handlers.skippedLog s.classification)
      pure (s, .handlers options s.classification)

def run (s : Session) : List Step → List (Noted Answer)
  | [] => []
  | step :: rest =>
      let taken := s.step step
      { taken with value := taken.value.2 } :: run taken.value.1 rest

end Session

end MessageSchema
