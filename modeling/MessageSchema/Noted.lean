import MessageSchema.Notice

/-!
A result together with the warnings and notices that came up on the way to it. Steps are joined in
the order in which they run, so both lists tell the course of the work.
-/

namespace MessageSchema

set_option autoImplicit false

structure Noted (α : Type) where
  value : α
  warnings : List Warning
  log : List Notice

namespace Noted

variable {α β : Type}

def silent (value : α) : Noted α := ⟨value, [], []⟩

def note (log : List Notice) : Noted Unit := ⟨(), [], log⟩

def andThen (first : Noted α) (next : α → Noted β) : Noted β :=
  let second := next first.value
  ⟨second.value, first.warnings ++ second.warnings, first.log ++ second.log⟩

instance : Monad Noted where
  pure := silent
  bind := andThen

theorem warnings_bind (first : Noted α) (next : α → Noted β) :
    (first >>= next).warnings = first.warnings ++ (next first.value).warnings := rfl

theorem value_pure (value : α) : (pure value : Noted α).value = value := rfl

theorem warnings_pure (value : α) : (pure value : Noted α).warnings = [] := rfl

theorem log_pure (value : α) : (pure value : Noted α).log = [] := rfl

end Noted

end MessageSchema
