import GameMacros.Number.Binary
import GameMacros.Text.Blank

/-!
# Waits

A wait is a fixed number of milliseconds, or a range from which a value is drawn each time. Both are
written in seconds: `3`, `1.5` or `2-3.5`.
-/

namespace GameMacros

/-- A delay in milliseconds. -/
inductive Wait where
  | fixed (ms : Nat)
  | between (least bound : Nat) (least_lt_bound : least < bound)
  deriving DecidableEq, Repr

namespace Wait

/-- No delay at all. -/
def zero : Wait := .fixed 0

instance : Inhabited Wait := ⟨Wait.zero⟩

/-- The delays from `least` up to but not including `bound`, or exactly `least` if there are no
others. -/
def range (least bound : Nat) : Wait :=
  if h : least < bound then .between least bound h else .fixed least

/-- There is nothing to wait for. -/
def isZero : Wait → Bool
  | .fixed ms => ms == 0
  | .between .. => false

/-- The delay is drawn anew each time. -/
def isRange : Wait → Bool
  | .fixed _ => false
  | .between .. => true

/-- The delay that a random number selects. -/
def draw (roll : Nat) : Wait → Nat
  | .fixed ms => ms
  | .between least bound _ => least + roll % (bound - least)

/-- The delay is one that the wait allows. -/
def allows (delay : Nat) : Wait → Bool
  | .fixed ms => delay == ms
  | .between least bound _ => least ≤ delay && delay < bound

/-- Whatever the roll, the delay drawn is one that the wait allows. -/
theorem allows_draw (wait : Wait) (roll : Nat) : wait.allows (wait.draw roll) = true := by
  cases wait with
  | fixed ms => simp [allows, draw]
  | between least bound h =>
    have hlt : roll % (bound - least) < bound - least := Nat.mod_lt roll (Nat.sub_pos_of_lt h)
    have hbound : least + roll % (bound - least) < bound := by omega
    simp [allows, draw, hbound]

/-- Whole milliseconds in a number of seconds, with blanks allowed around it. -/
def milliseconds? (s : List Char) : Option Nat :=
  (Decimal.ofText? (Text.trim s)).map Decimal.milliseconds

/-- The text is `N` or `N-M`, each a decimal, with no blanks anywhere. -/
def isInForm (s : List Char) : Bool :=
  match Text.splitOnce '-' s with
  | some (start, stop) => (Decimal.ofText? start).isSome && (Decimal.ofText? stop).isSome
  | none => (Decimal.ofText? s).isSome

/-- Reads `N` or `N-M` in seconds. A range must not end before it starts. -/
def ofSeconds? (s : List Char) : Option Wait :=
  match Text.splitOnce '-' s with
  | some (start, stop) =>
    match milliseconds? start, milliseconds? stop with
    | some least, some bound => if bound < least then none else some (range least bound)
    | _, _ => none
  | none => (milliseconds? s).map fixed

end Wait

end GameMacros
