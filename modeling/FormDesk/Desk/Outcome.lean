/-
How an action ends. It returns, or it is interrupted: an interruption unwinds
through the calls in progress, each of which first closes what it opened. An
interruption that arrives during such an unwinding is fatal, and nothing runs
after it.
-/
namespace FormDesk

/-- How an action ends. -/
inductive Outcome (α : Type) where
  | returned (value : α)
  | interrupted (message : String)
  | fatal
  deriving DecidableEq, Repr, Inhabited

namespace Outcome

/-- The same end, with another value if there is one. -/
def map {α β : Type} (f : α → β) : Outcome α → Outcome β
  | returned value => returned (f value)
  | interrupted message => interrupted message
  | fatal => fatal

end Outcome

end FormDesk
