import GameMacros.CommandLine.Outcome
import GameMacros.Host.DryRun

/-!
# Rehearsals

A rehearsal queues macros and executes them in a dry run, on a clock that does not wait.
-/

namespace GameMacros.Rehearsal

/-- Queues macros, each with another count for its last loop if one is given. Those that cannot be
queued are reported. -/
def enqueueAll (engine : Engine) :
    List (SavedMacro × Option Nat) → Engine × List String
  | [] => (engine, [])
  | (saved, loops) :: others =>
    match engine.enqueue saved loops with
    | .ok queued => enqueueAll queued others
    | .error failure =>
      let (last, lines) := enqueueAll engine others
      (last, s!"enqueue: {failure.message}" :: lines)

/-- The lines on one of the streams. -/
def linesOn (stream : DryRun.Stream) (lines : List (DryRun.Stream × String)) : List String :=
  (lines.filter (·.1 = stream)).map (·.2)

/-- Queues macros and executes them in at most `fuel` moves. Gives `none` if these do not suffice. -/
def run? (settings : Settings) (library : Library) (macros : List (SavedMacro × Option Nat))
    (colored : Bool) (fuel : Nat) : Option Outcome := do
  let (engine, refused) := enqueueAll (.ofSettings settings) macros
  let machine : Machine DryRun := { engine, world := { host := { library } } }
  let (last, _) ← machine.runUntilIdle? DryRun.host library fuel []
  let lines := last.world.past.reverse.map fun (_, effect) => DryRun.line colored effect
  return {
    output := Outcome.unlines (linesOn .output lines)
    errors := Outcome.unlines (refused ++ linesOn .errors lines) }

end GameMacros.Rehearsal
