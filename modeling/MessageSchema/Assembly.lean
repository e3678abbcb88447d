import MessageSchema.Noted
import MessageSchema.Failure

/-!
Catalogs of schemas are staged one after the other, and a later schema takes the place of an earlier
one with an equal name. The catalog then replaces the components of a template, of which everything
else is kept.
-/

namespace MessageSchema

set_option autoImplicit false

open Yaml

abbrev Catalog := Mapping

namespace Catalog

def stage (catalog added : Catalog) : Noted Catalog :=
  ⟨catalog.insertAll added, [], (catalog.replaced added).map .replaced⟩

def ofStages (stages : List Catalog) : Noted Catalog :=
  stages.foldlM stage []

def components (catalog : Catalog) : Value := .mapping [(.string "schemas", .mapping catalog)]

/-- The template with the catalog as its only components, in their old place or at the end. -/
def assemble (catalog : Catalog) (template : Value) : Except Failure Value :=
  match template with
  | .mapping entries => .ok (.mapping (Mapping.insert entries (.string "components") catalog.components))
  | .null => .ok (.mapping [(.string "components", catalog.components)])
  | other => .error (.templateRoot other.kind)

end Catalog

end MessageSchema
