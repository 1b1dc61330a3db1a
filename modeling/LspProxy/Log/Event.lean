/-!
# Log events

What the proxy reports about itself is a sequence of events. An event has a level, a message and
named values in a fixed order. `Logged` carries a result together with the events on the way to it,
so that a function that reports is still a function.
-/
namespace LspProxy.Log

/-- How much an event matters, most first. -/
inductive Level where
  | error
  | warning
  | info
  | debug
  | trace
  deriving Repr, DecidableEq

/-- The value of a field. -/
inductive Value where
  /-- A text in its own right. -/
  | text (written : String)
  /-- The displayed form of something else. -/
  | shown (written : String)
  | number (value : Nat)
  deriving Repr, DecidableEq

/-- One report. -/
structure Event where
  level : Level
  message : String
  fields : List (String × Value) := []
  deriving Repr, DecidableEq

/-- A result and the events on the way to it, in order. -/
structure Logged (α : Type) where
  value : α
  events : List Event := []

namespace Logged

instance : Monad Logged where
  pure value := ⟨value, []⟩
  bind first next :=
    let second := next first.value
    ⟨second.value, first.events ++ second.events⟩

/-- A result by itself is its own value. -/
@[simp] theorem value_pure {α : Type} (result : α) : (pure result : Logged α).value = result := rfl

/-- The value of a sequence does not depend on what was reported on the way. -/
@[simp] theorem value_bind {α β : Type} (first : Logged α) (next : α → Logged β) :
    (first >>= next).value = (next first.value).value := rfl

/-- What a sequence reports is what its parts report, in order. -/
@[simp] theorem events_bind {α β : Type} (first : Logged α) (next : α → Logged β) :
    (first >>= next).events = first.events ++ (next first.value).events := rfl

end Logged

/-- Report an event. -/
def report (level : Level) (message : String) (fields : List (String × Value) := []) : Logged Unit :=
  ⟨(), [⟨level, message, fields⟩]⟩

/-- The text of a value. -/
def Value.display : Value → String
  | text written | shown written => written
  | number value => toString value

end LspProxy.Log
