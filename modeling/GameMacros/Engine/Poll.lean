/-!
# Polls

A poll asks a question again and again, at a fixed interval, until there is an answer or until
another wait would take it past its time limit.

All durations are whole milliseconds and have no upper bound. Where durations are bounded, the time
waited so far may overflow when the interval is added to it; intervals and limits of that size are
out of range here.
-/

namespace GameMacros

/-- A poll under way. -/
structure Poll where
  interval : Nat
  timeout : Nat
  waited : Nat := 0
  deriving DecidableEq, Repr

/-- What comes after a question. -/
inductive Poll.Outcome (α : Type) where
  | ready (answer : α)
  | asleep (later : Poll)
  | timedOut
  deriving DecidableEq, Repr

/-- What comes after a question that was answered or not. A question without an answer is asked
again after the interval, if that does not exceed the time limit. -/
def Poll.next {α : Type} (poll : Poll) : Option α → Poll.Outcome α
  | some answer => .ready answer
  | none =>
    let waited := poll.waited + poll.interval
    if poll.timeout < waited then .timedOut else .asleep { poll with waited }

end GameMacros
