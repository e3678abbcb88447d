import MessageSchema.Files.Disk

/-!
A plan says which files are read and written, and how it goes on with each answer. It can be carried
out on a disk that is a value, where its effects can be studied, or on a real one.
-/

namespace MessageSchema.Files

set_option autoImplicit false

inductive Plan (α : Type) where
  | done (result : α)
  | read (path : String) (next : Except Fault String → Plan α)
  | makeDirectories (path : Path) (next : Option Fault → Plan α)
  | write (path text : String) (next : Option Fault → Plan α)

namespace Plan

variable {α β : Type}

def bind (plan : Plan α) (next : α → Plan β) : Plan β :=
  match plan with
  | done result => next result
  | read path more => read path fun answer => (more answer).bind next
  | makeDirectories path more => makeDirectories path fun answer => (more answer).bind next
  | write path text more => write path text fun answer => (more answer).bind next

instance : Monad Plan where
  pure := done
  bind := bind

def run : Plan α → Disk → Disk × α
  | done result, d => (d, result)
  | read path next, d => (next (d.read ⟨path⟩)).run d
  | makeDirectories path next, d =>
      let (made, fault) := d.ensureDirectories path
      (next fault).run made
  | write path text next, d =>
      match d.write ⟨path⟩ text with
      | .ok written => (next none).run written
      | .error fault => (next (some fault)).run d

theorem run_bind (plan : Plan α) (next : α → Plan β) (d : Disk) :
    (plan >>= next).run d = (next (plan.run d).2).run (plan.run d).1 := by
  show (plan.bind next).run d = _
  induction plan generalizing d with
  | done result => rfl
  | read path more ih => exact ih _ _
  | makeDirectories path more ih => exact ih _ _
  | write path text more ih =>
      simp only [bind, run]
      split <;> exact ih _ _

/-- Writes a file after making the directories that lead to it. The two faults are told apart. -/
def save (path text : String) (next : Option Fault → Option Fault → Plan α) : Plan α :=
  match Path.parent? ⟨path⟩ with
  | none => write path text (next none)
  | some parent =>
      makeDirectories parent fun
        | some fault => next (some fault) none
        | none => write path text (next none)

end Plan

end MessageSchema.Files
