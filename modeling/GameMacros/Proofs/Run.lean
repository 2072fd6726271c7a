import GameMacros.Engine.Schedule

/-!
# Runs

A run is a list of moves: the machine works, the clock runs, the world outside changes, the engine
is controlled. Any order is allowed. What can be reached from a new engine by a run is reachable. A
run under a schedule is one of these runs; without calls it is a drive, which alternates between
work and sleep in the only possible way.
-/

namespace GameMacros

/-- What happens to a machine: it works, or something around it changes. -/
inductive Move (σ : Type) where
  /-- The machine takes a step of its own. -/
  | work
  /-- The clock runs to a time. -/
  | wait (time : Nat)
  /-- The world outside the engine changes by itself. -/
  | drift (state : σ)
  /-- The engine is controlled. -/
  | call (library : Library) (call : Call)
  /-- The queue is to be executed. Only one call at a time does that. -/
  | launch (mode : Mode)

namespace Machine

variable {σ : Type} {host : Host σ}

/-- The machine after a move, if the move can be made. -/
def move? (machine : Machine σ) (host : Host σ) : Move σ → Option (Machine σ)
  | .work => machine.step? host
  | .wait time => some (machine.waitUntil time)
  | .drift state => some { machine with world := { machine.world with host := state } }
  | .call library call => some (machine.handle library call).1
  | .launch mode => if machine.task = .ended then some (machine.launch mode) else none

/-- A run from a machine to another one by a list of moves. -/
inductive Run (host : Host σ) : Machine σ → List (Move σ) → Machine σ → Prop
  | nil (machine : Machine σ) : Run host machine [] machine
  | cons {machine next last : Machine σ} {move : Move σ} {moves : List (Move σ)} :
      machine.move? host move = some next → Run host next moves last →
      Run host machine (move :: moves) last

/-- One run after another is a run. -/
theorem Run.append {machine middle last : Machine σ} {moves more : List (Move σ)}
    (hfirst : Run host machine moves middle) (hsecond : Run host middle more last) :
    Run host machine (moves ++ more) last := by
  induction hfirst with
  | nil => exact hsecond
  | cons hmove _ ih => exact .cons hmove (ih hsecond)

/-- What every move of a run keeps holds at its end if it holds at its start. -/
theorem Run.keeps {P : Machine σ → Prop} {machine last : Machine σ} {moves : List (Move σ)}
    (hrun : Run host machine moves last)
    (hkeeps : ∀ move ∈ moves, ∀ {before after : Machine σ},
      P before → before.move? host move = some after → P after)
    (hstart : P machine) : P last := by
  induction hrun with
  | nil => exact hstart
  | cons hmove _ ih =>
    exact ih (fun move hmem => hkeeps move (List.mem_cons_of_mem _ hmem))
      (hkeeps _ List.mem_cons_self hstart hmove)

/-- The machine after a list of moves, if all of them can be made. -/
def follow? (host : Host σ) : List (Move σ) → Machine σ → Option (Machine σ)
  | [], machine => some machine
  | move :: moves, machine => (machine.move? host move).bind (follow? host moves)

/-- Moves that can all be made are a run. -/
theorem run_of_follow? {machine last : Machine σ} {moves : List (Move σ)}
    (h : follow? host moves machine = some last) : Run host machine moves last := by
  induction moves generalizing machine with
  | nil =>
    cases h
    exact .nil _
  | cons move moves ih =>
    obtain ⟨next, hmove, hrest⟩ := Option.bind_eq_some_iff.mp h
    exact .cons hmove (ih hrest)

/-- The moves of a run can all be made. -/
theorem follow?_of_run {machine last : Machine σ} {moves : List (Move σ)}
    (h : Run host machine moves last) : follow? host moves machine = some last := by
  induction h with
  | nil => rfl
  | cons hmove _ ih => rw [follow?, hmove, Option.bind_some, ih]

/-- The machine before each move of a list, with that move, as far as the moves can be made. -/
def trail (host : Host σ) : List (Move σ) → Machine σ → List (Machine σ × Move σ)
  | [], _ => []
  | move :: moves, machine =>
    (machine, move) :: ((machine.move? host move).map (trail host moves)).getD []

/-- The trail of a move that can be made goes on with the trail of what follows. -/
theorem trail_cons {machine next : Machine σ} {move : Move σ}
    (h : machine.move? host move = some next) (moves : List (Move σ)) :
    trail host (move :: moves) machine = (machine, move) :: trail host moves next := by
  rw [trail, h, Option.map_some, Option.getD_some]

/-- The machine can come about from a new engine, in any world. -/
def Reachable (host : Host σ) (machine : Machine σ) : Prop :=
  ∃ (settings : Settings) (world : World σ) (moves : List (Move σ)),
    Run host { engine := .ofSettings settings, world } moves machine

/-- What a run reaches from a reachable machine is reachable. -/
theorem Reachable.run {machine last : Machine σ} {moves : List (Move σ)}
    (hmachine : Reachable host machine) (hrun : Run host machine moves last) :
    Reachable host last := by
  obtain ⟨settings, world, before, hbefore⟩ := hmachine
  exact ⟨settings, world, before ++ moves, hbefore.append hrun⟩

/-- Only a command that sleeps has a time to wake. -/
theorem exists_flight_of_wakeTime? {machine : Machine σ} (h : machine.wakeTime?.isSome = true) :
    ∃ flight wakeAt, machine.task = .suspended flight wakeAt := by
  cases htask : machine.task with
  | suspended flight wakeAt => exact ⟨flight, wakeAt, rfl⟩
  | ready | parked | ended => simp [wakeTime?, htask] at h

/-- The activation whose command starts with the next step, if a command starts with it. -/
def starting? (machine : Machine σ) : Option Activation :=
  match machine.task, machine.engine.nextJob.2 with
  | .ready, .run activation => some activation
  | _, _ => none

/-- A command starts when the machine is about to choose one and the engine chooses it. -/
theorem nextJob_of_starting? {machine : Machine σ} {front : Activation}
    (h : machine.starting? = some front) :
    machine.task = .ready ∧ ∃ engine, machine.engine.nextJob = (engine, .run front) := by
  unfold starting? at h
  split at h
  · next htask hrun =>
    cases h
    exact ⟨htask, machine.engine.nextJob.1, Prod.ext rfl hrun⟩
  · cases h

/-- The activation for which the next step works: that of the command under way, or the one whose
command starts. -/
def worker? (machine : Machine σ) : Option Activation :=
  match machine.task with
  | .suspended flight _ => some flight.activation
  | .ready | .parked | .ended => machine.starting?

/-! ## Schedules -/

/-- Making the calls that are due is a run. -/
theorem run_handleDue (library : Library) (schedule : Schedule) (machine : Machine σ) :
    ∃ moves, Run host machine moves (handleDue library schedule machine).1 := by
  induction schedule generalizing machine with
  | nil => exact ⟨[], .nil _⟩
  | cons entry later ih =>
    obtain ⟨time, call⟩ := entry
    by_cases hdue : time ≤ machine.world.now
    · obtain ⟨moves, hrun⟩ := ih (machine.handle library call).1
      simp only [handleDue, if_pos hdue]
      exact ⟨.call library call :: moves, .cons rfl hrun⟩
    · simp only [handleDue, if_neg hdue]
      exact ⟨[], .nil _⟩

/-- A run under a schedule is a run. -/
theorem run_of_run? {library : Library} {fuel : Nat} {schedule : Schedule}
    {machine last : Machine σ} {observations : List Observation}
    (h : run? host library fuel schedule machine = some (last, observations)) :
    ∃ moves, Run host machine moves last := by
  induction fuel generalizing schedule machine observations with
  | zero => simp [run?] at h
  | succ fuel ih =>
    rw [run?] at h
    split at h
    · next next hstep =>
      obtain ⟨moves, hrun⟩ := ih h
      exact ⟨.work :: moves, .cons hstep hrun⟩
    · obtain ⟨calls, hcalls⟩ : ∃ calls, Run host machine calls _ :=
        run_handleDue library schedule machine
      simp only at h
      split at h
      · obtain ⟨⟨reached, others⟩, hrest, heq⟩ := Option.map_eq_some_iff.mp h
        cases heq
        obtain ⟨moves, hrun⟩ := ih hrest
        exact ⟨calls ++ moves, hcalls.append hrun⟩
      · split at h
        · cases h
          exact ⟨[], .nil _⟩
        · next time _ =>
          obtain ⟨moves, hrun⟩ := ih h
          exact ⟨.wait time :: moves, .cons rfl hrun⟩

/-! ## Drives -/

/-- What a machine does that is left alone: it works, or sleeps until its command wakes. -/
def advance (host : Host σ) (machine : Machine σ) : Machine σ :=
  match machine.step? host with
  | some next => next
  | none =>
    match machine.wakeTime? with
    | some time => machine.waitUntil time
    | none => machine

/-- A machine that is left alone for a number of moves. -/
def drive (host : Host σ) : (moves : Nat) → Machine σ → Machine σ
  | 0, machine => machine
  | moves + 1, machine => drive host moves (machine.advance host)

/-- Nothing happens any more to a machine that is left alone. -/
def AtRest (host : Host σ) (machine : Machine σ) : Prop :=
  machine.step? host = none ∧ machine.wakeTime? = none

/-- A machine at rest stays as it is. -/
theorem AtRest.advance_eq {machine : Machine σ} (h : AtRest host machine) :
    machine.advance host = machine := by
  simp only [advance, h.1, h.2]

/-- A drive leaves a machine at rest as it is. -/
theorem AtRest.drive_eq {machine : Machine σ} (h : AtRest host machine) (moves : Nat) :
    drive host moves machine = machine := by
  induction moves with
  | zero => rfl
  | succ moves ih => rw [drive, h.advance_eq, ih]

/-- Moves of a drive add up. -/
theorem drive_add (moves more : Nat) (machine : Machine σ) :
    drive host (moves + more) machine = drive host more (drive host moves machine) := by
  induction moves generalizing machine with
  | zero => rw [Nat.zero_add, drive]
  | succ moves ih => rw [Nat.add_right_comm, drive, ih, drive]

/-- A run without calls takes the moves of a drive. -/
theorem run?_nil_succ {library : Library} {fuel : Nat} {machine : Machine σ}
    (h : ¬AtRest host machine) :
    run? host library (fuel + 1) [] machine = run? host library fuel [] (machine.advance host) := by
  rw [run?, advance]
  cases hstep : machine.step? host with
  | some next => rfl
  | none =>
    have hwake : machine.wakeTime? ≠ none := fun hnone => h ⟨hstep, hnone⟩
    obtain ⟨time, htime⟩ := Option.ne_none_iff_exists'.mp hwake
    simp [handleDue, nextTime?, htime]

/-- A run without calls ends with a machine at rest. -/
theorem run?_nil_of_atRest {library : Library} {fuel : Nat} {machine : Machine σ}
    (h : AtRest host machine) :
    run? host library (fuel + 1) [] machine = some (machine, []) := by
  simp [run?, handleDue, nextTime?, h.1, h.2]

/-- A drive that comes to rest is a run without calls. -/
theorem run?_of_drive {library : Library} {moves : Nat} {machine : Machine σ}
    (h : AtRest host (drive host moves machine)) :
    run? host library (moves + 1) [] machine = some (drive host moves machine, []) := by
  induction moves generalizing machine with
  | zero => exact run?_nil_of_atRest h
  | succ moves ih =>
    by_cases hrest : AtRest host machine
    · rw [drive, hrest.advance_eq] at h ⊢
      have hresult := Option.some.inj ((ih h).symm.trans (run?_nil_of_atRest hrest))
      rw [run?_nil_of_atRest hrest, ← hresult]
    · rw [run?_nil_succ hrest, drive]
      exact ih h

/-- A run without calls is a drive, and ends at rest. -/
theorem drive_of_run? {library : Library} {fuel : Nat} {machine last : Machine σ}
    {observations : List Observation}
    (h : run? host library fuel [] machine = some (last, observations)) :
    AtRest host last ∧ ∃ moves, last = drive host moves machine := by
  induction fuel generalizing machine with
  | zero => simp [run?] at h
  | succ fuel ih =>
    by_cases hrest : AtRest host machine
    · rw [run?_nil_of_atRest hrest] at h
      cases h
      exact ⟨hrest, 0, rfl⟩
    · rw [run?_nil_succ hrest] at h
      obtain ⟨hlast, moves, rfl⟩ := ih h
      exact ⟨hlast, moves + 1, rfl⟩

end Machine

end GameMacros
