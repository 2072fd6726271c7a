import GameMacros.Proofs.ClockFree
import GameMacros.Proofs.Holding
import GameMacros.Proofs.Waking
import Mathlib.Algebra.Ring.Nat

/-!
# Time that passes

Executing takes no time, only sleeping does. So the time that passes while commands sleep is that
for which they asked, as far as the clock granted it. Both are counted along a run: a sleep is
entered when a command asks for it and is used up as the clock runs, and only a stop cuts it short.
-/

namespace GameMacros

open Execution

variable {σ : Type} {host : Host σ}

/-- Every host answers in the same way in the same world, and an effect takes no time. -/
theorem World.respects_now (host : Host σ) (now : Nat) :
    host.Respects fun world other => world = other ∧ world.now = now where
  agree := by
    rintro world _ ⟨rfl, _⟩
    exact host.agree_refl world.host world.now
  perform := by
    rintro world _ effect ⟨rfl, hnow⟩
    exact ⟨rfl, hnow⟩

/-- A command takes no time at its start. -/
theorem Execution.now_start (scope : Scope σ) (command : Command) (activation : Activation)
    (world : World σ) : (start scope command activation world).world.now = world.now :=
  (agree_start (World.respects_now scope.host world.now) command activation ⟨rfl, rfl⟩).world.2

/-- A command takes no time when it goes on. -/
theorem Execution.now_resume (scope : Scope σ) (command : Command) (pause : Pause)
    (world : World σ) : (resume scope command pause world).1.now = world.now :=
  (agree_resume (World.respects_now scope.host world.now) command pause ⟨rfl, rfl⟩).1.2

namespace Machine

variable {machine next last : Machine σ} {moves : List (Move σ)} {flight : InFlight}
  {standing : Standing}

/-! ## Pieces take no time -/

/-- A piece of a command takes no time. -/
theorem Piece.now_eq (h : Piece host machine flight next standing) :
    next.world.now = machine.world.now := by
  cases h with
  | starts _ _ _ hbegun => exact hbegun ▸ now_start _ _ _ machine.world
  | resumes _ _ hreached => exact hreached ▸ now_resume _ _ _ machine.world

/-- Putting the outcome of a piece into effect takes no time. -/
theorem now_settle (machine : Machine σ) (activation : Activation) (command : Command)
    (callee : Option Program) (seen : Nat) (standing : Standing) :
    (machine.settle host activation command callee seen standing).world.now =
      machine.world.now := by
  cases standing with
  | finished | asleep => rfl
  | failed failure =>
    exact (related_report (World.respects_now host machine.world.now) _ _ failure ⟨rfl, rfl⟩).2

/-- A step puts the outcome of a piece of a command into effect that was not stopped, or none is
executed. Then nothing is under way afterwards, and nothing is done. -/
theorem Step.piece_or_none (h : Step host machine next) :
    (∃ flight after standing, Piece host machine flight after standing ∧
      machine.outcome? host = some standing ∧
      (machine.engine.signal.dropped = false →
        after.engine.signal.stoppedSince flight.seen = false) ∧
      next = after.settle host flight.activation flight.command flight.callee flight.seen
        standing) ∨
    (machine.outcome? host = none ∧ next.world = machine.world ∧
      ∀ flight wakeAt, next.task ≠ .suspended flight wakeAt) := by
  cases h with
  | @starts engine front htask hjob =>
    have hchoice := Engine.choice_of_nextJob hjob
    have hframe : machine.engine.Frame engine := hchoice.frame
    obtain ⟨command, hcurrent⟩ := Activation.exists_current?_of_not_finished hchoice.of_run.1
    have hscope : ({ machine with engine } : Machine σ).scope host = machine.scope host :=
      scope_eq_of_frame hframe
    have hbegun := congrArg (fun scope => start scope command front machine.world) hscope
    refine .inl ⟨_, _, _, .starts htask hjob hcurrent hbegun, ?_, fun hdropped => ?_, ?_⟩
    · simp only [outcome?, starting?, htask, hjob, Option.bind_some, hcurrent, Option.map_some]
    · have hkept : engine.signal.dropped = false := hframe.dropped_eq.trans hdropped
      simp [StopSignal.stoppedSince, hkept]
    · rw [begin_of_current? hcurrent, hscope]
  | ends htask hjob =>
    exact .inr ⟨by simp [outcome?, starting?, htask, hjob], rfl, by simp⟩
  | @rests engine htask hjob =>
    obtain ⟨wake, task, hrest, hawake⟩ := exists_rest_eq { machine with engine } htask
    rw [hrest]
    exact .inr ⟨by simp [outcome?, starting?, htask, hjob], rfl, hawake⟩
  | cancels htask hstopped => exact .inr ⟨by simp [outcome?, htask, hstopped], rfl, by simp⟩
  | resumes htask hlive htime =>
    refine .inl ⟨_, _, _, .resumes htask htime rfl, ?_, fun _ => ?_, wake_of_live hlive⟩
    · simp only [outcome?, htask, hlive, Bool.false_eq_true, if_false, if_pos htime]
    · obtain ⟨runState, hawake⟩ := machine.engine.exists_noteAwake_eq
      rwa [hawake]
  | unparks htask => exact .inr ⟨by simp [outcome?, htask], rfl, by simp⟩

/-- A piece of a command is executed in a step. -/
theorem exists_step?_of_outcome? {standing : Standing} (h : machine.outcome? host = some standing) :
    ∃ next, machine.step? host = some next := by
  cases htask : machine.task with
  | ready => exact ⟨machine.choose host, by simp only [step?, htask]⟩
  | suspended flight wakeAt =>
    simp only [outcome?, htask] at h
    split at h
    · cases h
    · split at h
      · next hdue =>
        exact ⟨machine.wake host flight, by
          simp only [step?, htask, decide_eq_true hdue, Bool.or_true, if_true]⟩
      · cases h
  | parked | ended => simp [outcome?, htask] at h

/-- A step takes no time. -/
theorem Step.now_eq (h : Step host machine next) : next.world.now = machine.world.now := by
  obtain ⟨flight, after, standing, hpiece, _, _, rfl⟩ | ⟨_, hworld, _⟩ := h.piece_or_none
  · rw [now_settle, hpiece.now_eq]
  · rw [hworld]

/-! ## Sleeps -/

/-- For how long the command under way still sleeps. One that was stopped does not sleep on. -/
def restOf (machine : Machine σ) : Nat :=
  match machine.task with
  | .suspended flight wakeAt =>
    if machine.engine.signal.stoppedSince flight.seen then 0 else wakeAt - machine.world.now
  | .ready | .parked | .ended => 0

/-- The sleep that is granted in the move, if a command asks for one. -/
def grantedIn (host : Host σ) (entry : Machine σ × Move σ) : Nat :=
  match entry.2, entry.1.outcome? host with
  | .work, some (.asleep ms _) => Sleep.granted ms
  | _, _ => 0

/-- The time that passes in the move while a command sleeps. -/
def sleptIn (entry : Machine σ × Move σ) : Nat :=
  match entry.2 with
  | .wait time => min entry.1.restOf (time - entry.1.world.now)
  | .work | .drift _ | .call .. | .launch _ => 0

/-- No command sleeps while none is under way. -/
theorem restOf_of_not_suspended (h : ∀ flight wakeAt, machine.task ≠ .suspended flight wakeAt) :
    machine.restOf = 0 := by
  unfold restOf
  split
  · next flight wakeAt htask => exact absurd htask (h flight wakeAt)
  · rfl
  · rfl
  · rfl

/-- A command that can go on does not sleep on. -/
theorem restOf_of_step? (h : machine.step? host = some next) : machine.restOf = 0 := by
  cases step_of_step? h with
  | starts htask | ends htask | rests htask | unparks htask => simp only [restOf, htask]
  | cancels htask hstopped => simp only [restOf, htask, hstopped, if_true]
  | resumes htask hlive htime =>
    simp only [restOf, htask, hlive, Bool.false_eq_true, if_false, Nat.sub_eq_zero_of_le htime]

/-- Where a piece of a command leads, it sleeps for what it asks for. -/
theorem restOf_settle (machine : Machine σ) (activation : Activation) (command : Command)
    (callee : Option Program) {seen : Nat}
    (hseen : machine.engine.signal.stoppedSince seen = false) (standing : Standing) :
    (machine.settle host activation command callee seen standing).restOf =
      match standing with
      | .asleep ms _ => Sleep.granted ms
      | .finished | .failed _ => 0 := by
  cases standing with
  | finished | failed => rfl
  | asleep ms pause =>
    obtain ⟨runState, hasleep⟩ := machine.engine.exists_noteAsleep_eq
    simp only [settle, restOf, World.drawn_now, hasleep, hseen, Bool.false_eq_true, if_false,
      Nat.add_sub_cancel_left]

/-- A step enters the sleep that a command asks for. -/
theorem Step.restOf_eq (h : Step host machine next)
    (hdropped : machine.engine.signal.dropped = false) :
    next.restOf = grantedIn host (machine, .work) := by
  unfold grantedIn
  obtain ⟨flight, after, standing, _, houtcome, hseen, rfl⟩ | ⟨houtcome, _, hawake⟩ :=
    h.piece_or_none
  · rw [restOf_settle after _ _ _ (hseen hdropped), houtcome]
    cases standing <;> rfl
  · rw [restOf_of_not_suspended hawake, houtcome]

/-- A call that does not stop the command under way lets it sleep on. -/
theorem restOf_handle (machine : Machine σ) (library : Library) {call : Call}
    (hcall : ¬call.StopsAtOnce) : (machine.handle library call).1.restOf = machine.restOf := by
  have hsignal := ((machine.engine.control_handle library call).queue_eq_append hcall).1
  simp only [restOf, handle, hsignal]

/-- No call lets the command under way sleep longer. -/
theorem restOf_handle_le (machine : Machine σ) (library : Library) (call : Call) :
    (machine.handle library call).1.restOf ≤ machine.restOf := by
  have hframe := (machine.engine.control_handle library call).frame
  unfold restOf
  cases htask : machine.task with
  | ready | parked | ended => simp only [handle, htask, Nat.le_refl]
  | suspended flight wakeAt =>
    cases hstopped : machine.engine.signal.stoppedSince flight.seen with
    | true =>
      simp only [handle, htask, hframe.stoppedSince hstopped, hstopped, if_true, Nat.le_refl]
    | false =>
      simp only [handle, htask, hstopped, Bool.false_eq_true, if_false]
      split
      · exact Nat.zero_le _
      · exact Nat.le_refl _

/-- A sleep is used up as the clock runs. -/
theorem restOf_waitUntil (machine : Machine σ) (time : Nat) :
    min machine.restOf (time - machine.world.now) + (machine.waitUntil time).restOf =
      machine.restOf := by
  unfold restOf
  cases htask : machine.task with
  | ready | parked | ended => simp only [waitUntil, htask, Nat.zero_min]
  | suspended flight wakeAt =>
    simp only [waitUntil, World.waitUntil, htask]
    split
    · rw [Nat.zero_min]
    · omega

/-- What is left of a sleep is what was left before and what is granted, less the time that has
passed, unless a call stops the command. -/
theorem balance_of_move? (hdropped : machine.engine.signal.dropped = false) {move : Move σ}
    (hmove : machine.move? host move = some next)
    (hcall : ∀ library call, move = .call library call → ¬call.StopsAtOnce) :
    sleptIn (machine, move) + next.restOf = machine.restOf + grantedIn host (machine, move) := by
  cases move with
  | work =>
    have hnext : machine.step? host = some next := hmove
    rw [restOf_of_step? hnext, (step_of_step? hnext).restOf_eq hdropped, sleptIn]
  | wait time =>
    cases hmove
    exact restOf_waitUntil machine time
  | drift state =>
    cases hmove
    exact Nat.zero_add _
  | call library call =>
    cases hmove
    rw [restOf_handle machine library (hcall library call rfl)]
    exact Nat.zero_add _
  | launch mode =>
    simp only [move?] at hmove
    split at hmove
    · next hended =>
      cases hmove
      simp [sleptIn, grantedIn, restOf, launch, hended]
    · cases hmove

/-- What is left of a sleep is never more than that. -/
theorem balance_le_of_move? (hdropped : machine.engine.signal.dropped = false) {move : Move σ}
    (hmove : machine.move? host move = some next) :
    sleptIn (machine, move) + next.restOf ≤ machine.restOf + grantedIn host (machine, move) := by
  by_cases hcall : ∃ library call, move = .call library call
  · obtain ⟨library, call, rfl⟩ := hcall
    cases hmove
    rw [sleptIn, Nat.zero_add]
    exact Nat.le_add_right_of_le (restOf_handle_le machine library call)
  · exact Nat.le_of_eq (balance_of_move? hdropped hmove
      fun library call heq => absurd ⟨library, call, heq⟩ hcall)

/-- Over a run, the time that passes while commands sleep is at most what was left of a sleep at the
start and what is granted since. -/
theorem Run.slept_le (hrun : Run host machine moves last)
    (hdropped : machine.engine.signal.dropped = false) :
    ((trail host moves machine).map sleptIn).sum + last.restOf ≤
      machine.restOf + ((trail host moves machine).map (grantedIn host)).sum := by
  induction hrun with
  | nil => exact Nat.le_of_eq (Nat.add_comm _ _)
  | @cons machine next last move moves hmove _ ih =>
    have hfirst := balance_le_of_move? hdropped hmove
    have hothers := ih ((proceeds_of_move? hmove).frame.dropped_eq.trans hdropped)
    rw [trail_cons hmove, List.map_cons, List.map_cons, List.sum_cons, List.sum_cons]
    omega

/-! ## Clocks -/

/-- The sleep that is granted in a drive. -/
def granted (host : Host σ) : (moves : Nat) → Machine σ → Nat
  | 0, _ => 0
  | moves + 1, machine =>
    grantedIn host (machine, .work) + granted host moves (machine.advance host)

/-- A machine that is left alone goes on at once, or lets the clock run to the end of a sleep. -/
theorem clock_advance (machine : Machine σ) (hdropped : machine.engine.signal.dropped = false) :
    (machine.advance host).world.now + (machine.advance host).restOf =
      machine.world.now + machine.restOf + grantedIn host (machine, .work) := by
  unfold advance
  cases hstep : machine.step? host with
  | some next =>
    have hnext := step_of_step? hstep
    rw [hnext.now_eq, hnext.restOf_eq hdropped, restOf_of_step? hstep]
    rfl
  | none =>
    cases htask : machine.task with
    | suspended flight wakeAt =>
      obtain ⟨hlive, hlate⟩ : machine.engine.signal.stoppedSince flight.seen = false ∧
          ¬wakeAt ≤ machine.world.now := by
        simpa [step?, htask] using hstep
      simp only [wakeTime?, waitUntil, World.waitUntil, restOf, grantedIn, outcome?, htask, hlive,
        Bool.false_eq_true, if_false, if_neg hlate]
      omega
    | ready => simp [step?, htask] at hstep
    | parked | ended =>
      simp only [wakeTime?, restOf, grantedIn, outcome?, htask]

/-- In a drive the clock runs for what was left of a sleep at the start and what is granted since,
less what is left at the end. -/
theorem clock_drive (moves : Nat) (machine : Machine σ)
    (hdropped : machine.engine.signal.dropped = false) :
    (drive host moves machine).world.now + (drive host moves machine).restOf =
      machine.world.now + machine.restOf + granted host moves machine := by
  induction moves generalizing machine with
  | zero => rfl
  | succ moves ih =>
    have hkept : (machine.advance host).engine.signal.dropped = false := by
      unfold advance
      split
      · next next hstep =>
        have hmove : machine.move? host .work = some next := hstep
        exact (proceeds_of_move? hmove).frame.dropped_eq.trans hdropped
      · split <;> exact hdropped
    rw [drive, ih _ hkept, clock_advance machine hdropped, granted]
    omega

end Machine

end GameMacros
