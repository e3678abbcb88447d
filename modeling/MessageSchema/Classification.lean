import MessageSchema.Warning

/-!
Messages split by the side that sends them: those that a client publishes are listed, and all others
are subscribed to. Both lists keep the order of the description, repetitions included.
-/

namespace MessageSchema

set_option autoImplicit false

structure Classification where
  publish : List String
  subscribe : List String
  deriving DecidableEq

namespace Classification

def empty : Classification := ⟨[], []⟩

def size (c : Classification) : Nat := c.publish.length + c.subscribe.length

def isEmpty (c : Classification) : Bool := c.publish.isEmpty && c.subscribe.isEmpty

def contains (c : Classification) (name : String) : Bool :=
  c.publish.contains name || c.subscribe.contains name

/-- Each name goes to the side that the publish list says, and to no other. -/
def ofNames (publish names : List String) : Classification where
  publish := names.filter fun name => publish.contains name
  subscribe := names.filter fun name => !publish.contains name

/-- Entries of the publish list that no message bears, one warning for each. -/
def unmatched (publish names : List String) : List Warning :=
  (publish.filter fun name => !names.contains name).map .unmatchedPublish

theorem of_names_append (publish left right : List String) :
    ofNames publish (left ++ right) =
      ⟨(ofNames publish left).publish ++ (ofNames publish right).publish,
        (ofNames publish left).subscribe ++ (ofNames publish right).subscribe⟩ := by
  simp [ofNames]

end Classification

end MessageSchema
