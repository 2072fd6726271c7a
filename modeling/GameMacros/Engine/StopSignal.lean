/-!
# Stop signals

A stop is meant for the work that is under way. The signal counts the stops; work notes the count
when it starts, and is stopped as soon as the count has grown. A signal that is dropped stops
everything for good.
-/

namespace GameMacros

/-- The stops so far. -/
structure StopSignal where
  count : Nat := 0
  dropped : Bool := false
  deriving DecidableEq, Repr

namespace StopSignal

/-- Stops the work under way. A dropped signal stays as it is. -/
def trigger (signal : StopSignal) : StopSignal :=
  if signal.dropped then signal else { signal with count := signal.count + 1 }

/-- Stops all work from now on. -/
def drop (signal : StopSignal) : StopSignal :=
  { signal with dropped := true }

/-- There was a stop after the count was noted as `seen`. -/
def stoppedSince (signal : StopSignal) (seen : Nat) : Bool :=
  signal.dropped || seen < signal.count

end StopSignal

end GameMacros
