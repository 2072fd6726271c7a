import GameMacros.Engine.Poll
import GameMacros.Engine.Sleep
import GameMacros.Engine.StopSignal

/-!
# Timers

A timer lets work sleep or poll on a clock until it is stopped. The stops to come are known in
advance, with their times. Each sleep is bracketed by two notes: one that work is suspended and one
that it goes on.

All durations are whole milliseconds. The time that a poll has waited has no upper bound here, so
the overflow of bounded durations when an interval is added to it is out of range.
-/

namespace GameMacros

/-- What happens to a stop signal. -/
inductive Firing where
  | trigger
  | drop
  deriving DecidableEq, Repr

/-- The signal after it was fired. -/
def StopSignal.fire (signal : StopSignal) : Firing → StopSignal
  | .trigger => signal.trigger
  | .drop => signal.drop

/-- A timer with its clock, in milliseconds. -/
structure Timer where
  now : Nat := 0
  signal : StopSignal := {}
  /-- The stops before this timer was made. -/
  seen : Nat := 0
  /-- What is going to happen to the signal, and when, in the order of time. -/
  firings : List (Nat × Firing) := []
  /-- Sleeps are noted. -/
  hooked : Bool := false
  /-- The notes so far: when, and whether work was suspended or went on. -/
  notes : List (Nat × Bool) := []
  deriving DecidableEq, Repr

namespace Timer

/-- How a sleep ended. -/
inductive SleepOutcome where
  | elapsed
  | cancelled
  deriving DecidableEq, Repr

/-- How a poll ended. `unsettled` stands for a poll that was given up because it would have asked
more often than allowed. -/
inductive PollOutcome (α : Type) where
  | ready (answer : α)
  | timedOut
  | cancelled
  | unsettled
  deriving DecidableEq, Repr

/-- A timer for work that starts now. -/
def ofSignal (signal : StopSignal) (hooked : Bool) : Timer :=
  { signal, seen := signal.count, hooked }

/-- There was a stop after the timer was made. -/
def isStopped (timer : Timer) : Bool :=
  timer.signal.stoppedSince timer.seen

/-- Notes that work is suspended or goes on. -/
def note (timer : Timer) (suspended : Bool) : Timer :=
  if timer.hooked then { timer with notes := timer.notes ++ [(timer.now, suspended)] } else timer

/-- Lets the clock run to the first firing and fires. -/
def fire (timer : Timer) : Timer :=
  match timer.firings with
  | [] => timer
  | (time, firing) :: later =>
    { timer with
      now := max timer.now time
      signal := timer.signal.fire firing
      firings := later }

/-- Lets everything happen that is going to happen to the signal. -/
def settle (timer : Timer) : Timer :=
  timer.firings.foldl (fun timer _ => timer.fire) timer

/-- The next firing comes before a time. -/
def firesBefore (timer : Timer) (time : Nat) : Bool :=
  match timer.firings with
  | [] => false
  | (next, _) :: _ => next < time

/-- Sleeps for a time. A timer that is stopped does not sleep at all, and one that is stopped
meanwhile wakes at once. -/
def sleep (timer : Timer) (ms : Nat) : SleepOutcome × Timer :=
  if timer.isStopped then (.cancelled, timer)
  else
    let asleep := timer.note true
    let wakeAt := asleep.now + Sleep.granted ms
    if asleep.firesBefore wakeAt then (.cancelled, asleep.fire.note false)
    else (.elapsed, { asleep with now := wakeAt }.note false)

/-- Polls, asking at most `allowed` times. The probe is told how often it was asked before and what
the time is. Gives the times of the probes too. -/
def pollWith {α : Type} (probe : (asked now : Nat) → Option α) :
    (allowed asked : Nat) → Poll → Timer → PollOutcome α × List Nat × Timer
  | 0, _, _, timer => (.unsettled, [], timer)
  | allowed + 1, asked, poll, timer =>
    if timer.isStopped then (.cancelled, [], timer)
    else
      match poll.next (probe asked timer.now) with
      | .ready answer => (.ready answer, [timer.now], timer)
      | .timedOut => (.timedOut, [timer.now], timer)
      | .asleep later =>
        match timer.sleep poll.interval with
        | (.cancelled, woken) => (.cancelled, [timer.now], woken)
        | (.elapsed, woken) =>
          let (outcome, probes, last) := pollWith probe allowed (asked + 1) later woken
          (outcome, timer.now :: probes, last)

/-- How often a poll with a positive interval may ask. -/
def probeLimit (interval timeout : Nat) : Nat :=
  timeout / interval + 1

/-- Polls a probe that succeeds once it was asked more than `readyAfter` times, or never. The answer
is how often it was asked. A poll without an interval goes on until then. -/
def pollCounted (timer : Timer) (interval timeout : Nat) (readyAfter : Option Nat) :
    PollOutcome Nat × List Nat × Timer :=
  let allowed := max (probeLimit interval timeout) (readyAfter.getD 0 + 1)
  pollWith
    (fun asked _ => if readyAfter.any (· ≤ asked) then some (asked + 1) else none)
    allowed 0 { interval, timeout } timer

/-- A summary for diagnostics. -/
def summary (timer : Timer) : String :=
  "Timer \x7b stopped: " ++ toString timer.isStopped ++ ", has_hook: " ++
    toString timer.hooked ++ " \x7d"

end Timer

end GameMacros
