import GameMacros.Proofs.Elapsing

/-!
# Following an activation

An activation rests in the queue until one of its commands starts. Then the machine has a copy of
it, with what the command has changed, until that wakes for the last time and the copy takes its
place. What a move does to an activation is said once, for wherever the activation is; what has to
be known about its place, its counters and the times of its commands follows from that by induction
over the run.
-/

namespace GameMacros

open Execution

/-- What a command has done to its activation when it has started is one of its courses. -/
theorem Execution.course_of_start_eq {σ : Type} {scope : Scope σ} {command : Command}
    {activation : Activation} {world : World σ} {begun : Start σ}
    (hbegun : start scope command activation world = begun) :
    Course scope.settings command activation begun.activation :=
  hbegun ▸ course_start scope command activation world

namespace Machine

variable {σ : Type} {host : Host σ} {machine next last : Machine σ} {moves : List (Move σ)}
  {activation : Activation} {wakeTime? : Option Nat}

/-! ## Where an activation is -/

/-- The machine has the activation. It rests in the queue; or a command of it is under way that no
stop came for, and wakes at a time. -/
inductive Has (machine : Machine σ) : Activation → Option Nat → Prop
  | resting {activation : Activation} (hmem : activation ∈ machine.engine.queue)
      (hidle : ∀ flight wakeAt, machine.task = .suspended flight wakeAt →
        flight.Live machine.engine → flight.activation.id ≠ activation.id) :
      Has machine activation none
  | executing {flight : InFlight} {wakeAt : Nat} (htask : machine.task = .suspended flight wakeAt)
      (hlive : flight.Live machine.engine) : Has machine flight.activation (some wakeAt)

/-- While no command is under way, what is queued rests. -/
theorem has_of_mem (hmem : activation ∈ machine.engine.queue)
    (htask : ∀ flight wakeAt, machine.task ≠ .suspended flight wakeAt) :
    machine.Has activation none :=
  .resting hmem fun flight wakeAt h => absurd h (htask flight wakeAt)

/-- A command starts for an activation that rests. -/
theorem has_of_starting? (h : machine.starting? = some activation) :
    machine.Has activation none := by
  obtain ⟨htask, _⟩ := nextJob_of_starting? h
  exact has_of_mem (mem_queue_of_starting? h) (by simp [htask])

/-- An activation for which a command starts has no other place to go on at. -/
theorem nextStep_of_starting? (hsound : machine.Sound) {front : Activation}
    (hstarting : machine.starting? = some front) : front.nextStep = none :=
  (hsound.engine.queued front (mem_queue_of_starting? hstarting)).nextStep_eq

/-- The number of an activation that the machine has was given before. -/
theorem Has.id_lt (h : machine.Has activation wakeTime?) (hsound : machine.Sound) :
    activation.id < machine.engine.nextId := by
  cases h with
  | resting hmem => exact hsound.engine.id_lt activation hmem
  | executing htask => exact (hsound.flight _ _ htask).id_lt

/-- Where an activation comes from that the machine has after a move. -/
inductive Comes (host : Host σ) (machine : Machine σ) (move : Move σ) :
    Activation → Option Nat → Prop
  /-- Nothing happens to it, in particular no command of it starts. -/
  | stays {activation : Activation} {wakeTime? : Option Nat}
      (hhas : machine.Has activation wakeTime?)
      (hother : ∀ front, move = .work → machine.starting? = some front →
        front.id ≠ activation.id) : Comes host machine move activation wakeTime?
  /-- It is new. -/
  | fresh {id : Nat} (hid : machine.engine.nextId ≤ id) (program : Program) :
      Comes host machine move (.ofProgram id program) none
  /-- Its command starts, and ends at once. -/
  | passes {front : Activation} {command : Command} {begun : Start σ} (hmove : move = .work)
      (hstarting : machine.starting? = some front) (hcurrent : front.current? = some command)
      (hbegun : start (machine.scope host) command front machine.world = begun)
      (hfinished : begun.standing = .finished) :
      Comes host machine move begun.activation.advance none
  /-- Its command starts, and goes to sleep. -/
  | begins {front : Activation} {command : Command} {begun : Start σ} {ms : Nat} {pause : Pause}
      (hmove : move = .work) (hstarting : machine.starting? = some front)
      (hcurrent : front.current? = some command)
      (hbegun : start (machine.scope host) command front machine.world = begun)
      (hasleep : begun.standing = .asleep ms pause) :
      Comes host machine move begun.activation (some (machine.world.now + Sleep.granted ms))
  /-- Its command wakes, and goes to sleep again. -/
  | goesOn {activation : Activation} {wakeAt : Nat} (hmove : move = .work)
      (hhas : machine.Has activation (some wakeAt)) (hdue : wakeAt ≤ machine.world.now) (ms : Nat) :
      Comes host machine move activation (some (machine.world.now + Sleep.granted ms))
  /-- Its command wakes, and ends. -/
  | ends {activation : Activation} {wakeAt : Nat} (hmove : move = .work)
      (hhas : machine.Has activation (some wakeAt)) (hdue : wakeAt ≤ machine.world.now) :
      Comes host machine move activation.advance none

/-- Where the outcome of a piece is put into effect, the machine has what the command calls, its
activation, and the others of the queue. -/
theorem has_settle (middle : Machine σ) (flight : InFlight) {front : Activation}
    {others : List Activation} (hqueue : middle.engine.queue = front :: others)
    (hid : front.id = flight.activation.id) (hlive : flight.Live middle.engine)
    {standing : Standing}
    (h : (middle.settle host flight.activation flight.command flight.callee flight.seen
      standing).Has activation wakeTime?) :
    (∃ program, activation = .ofProgram middle.engine.nextId program ∧ wakeTime? = none) ∨
      (standing = .finished ∧ activation = flight.activation.advance ∧ wakeTime? = none) ∨
      (∃ ms pause, standing = .asleep ms pause ∧ activation = flight.activation ∧
        wakeTime? = some (middle.world.now + Sleep.granted ms)) ∨
      activation ∈ others ∧ wakeTime? = none := by
  cases standing with
  | finished =>
    rcases h with ⟨hmem, _⟩ | ⟨htask, _⟩
    · simp only [settle, Engine.commit_of_front hqueue hid, List.mem_append, List.mem_cons,
        Option.mem_toList, Option.map_eq_some_iff] at hmem
      obtain ⟨program, _, rfl⟩ | rfl | hmem := hmem
      · exact .inl ⟨program, rfl, rfl⟩
      · exact .inr (.inl ⟨rfl, rfl, rfl⟩)
      · exact .inr (.inr (.inr ⟨hmem, rfl⟩))
    · cases htask
  | failed failure =>
    rcases h with ⟨hmem, _⟩ | ⟨htask, _⟩
    · cases hmem
    · cases htask
  | asleep ms pause =>
    rcases h with ⟨hmem, hidle⟩ | ⟨htask, _⟩
    · have hother : flight.activation.id ≠ activation.id := by
        apply hidle _ _ rfl
        obtain ⟨runState, hasleep⟩ := middle.engine.exists_noteAsleep_eq
        simp only [settle, hasleep]
        exact hlive
      simp only [settle, Engine.noteAsleep_queue, hqueue] at hmem
      rcases List.mem_cons.mp hmem with rfl | hmem
      · exact absurd hid.symm hother
      · exact .inr (.inr (.inr ⟨hmem, rfl⟩))
    · cases htask
      exact .inr (.inr (.inl ⟨ms, pause, rfl, rfl, rfl⟩))

/-- In the queue of a sound engine the others have other numbers than the front. -/
theorem id_ne_of_mem_others {engine : Engine} (h : engine.Sound) {front : Activation}
    {others : List Activation} (hqueue : engine.queue = front :: others)
    (hmem : activation ∈ others) : front.id ≠ activation.id := by
  have hids := h.ids_nodup
  rw [hqueue, List.map_cons, List.nodup_cons] at hids
  intro heq
  exact hids.1 (heq ▸ List.mem_map_of_mem hmem)

/-- Where what a machine has after a step comes from. -/
theorem comes_of_step (hmachine : machine.Reachable host) (hstep : Step host machine next)
    (h : next.Has activation wakeTime?) : Comes host machine .work activation wakeTime? := by
  have hsound := sound_of_reachable hmachine
  cases hstep with
  | @starts engine front htask hjob =>
    have hstarting : machine.starting? = some front := by simp only [starting?, htask, hjob]
    have hchoice := Engine.choice_of_nextJob hjob
    have hframe : machine.engine.Frame engine := hchoice.frame
    have hengine : engine.Sound := hsound.engine.choice hchoice
    obtain ⟨hunfinished, others, _, hqueue⟩ := hchoice.of_run
    obtain ⟨command, hcurrent⟩ := Activation.exists_current?_of_not_finished hunfinished
    have hscope : ({ machine with engine } : Machine σ).scope host = machine.scope host :=
      scope_eq_of_frame hframe
    have hcourse := course_start (machine.scope host) command front machine.world
    rw [begin_of_current? hcurrent, hscope] at h
    generalize hbegun : start (machine.scope host) command front machine.world = begun
      at hcourse h
    let begunFlight : InFlight :=
      ⟨begun.activation, command, begun.callee, .trailing, engine.signal.count⟩
    have hlive : begunFlight.Live engine := by
      simp [begunFlight, InFlight.Live, StopSignal.stoppedSince, hengine.undropped]
    obtain ⟨program, rfl, rfl⟩ | ⟨hfinished, rfl, rfl⟩ | ⟨ms, pause, hasleep, rfl, rfl⟩ |
        ⟨hmem, rfl⟩ :=
      has_settle { machine with engine, world := begun.world } begunFlight hqueue
        hcourse.id_eq.symm hlive h
    · exact .fresh hframe.nextId_le program
    · exact .passes rfl hstarting hcurrent hbegun hfinished
    · have hnow : begun.world.now = machine.world.now := by
        rw [← hbegun, now_start]
      simp only [hnow]
      exact .begins rfl hstarting hcurrent hbegun hasleep
    · have hqueued : activation ∈ machine.engine.queue :=
        hchoice.queue_sublist.subset (hqueue ▸ List.mem_cons_of_mem _ hmem)
      refine .stays (has_of_mem hqueued (by simp [htask])) fun other _ hother => ?_
      cases hstarting.symm.trans hother
      exact id_ne_of_mem_others hengine hqueue hmem
  | @ends engine htask hjob =>
    have hquiet : machine.starting? = none := by simp only [starting?, htask, hjob]
    rcases h with ⟨hmem, _⟩ | ⟨hsuspended, _⟩
    · have hqueued := (Engine.choice_of_nextJob hjob).queue_sublist.subset hmem
      exact .stays (has_of_mem hqueued (by simp [htask])) (by simp [hquiet])
    · cases hsuspended
  | @rests engine htask hjob =>
    have hquiet : machine.starting? = none := by simp only [starting?, htask, hjob]
    obtain ⟨wake, task, hrest, hawake⟩ := exists_rest_eq { machine with engine } htask
    rw [hrest] at h
    rcases h with ⟨hmem, _⟩ | ⟨hsuspended, _⟩
    · have hqueued := (Engine.choice_of_nextJob hjob).queue_sublist.subset hmem
      exact .stays (has_of_mem hqueued (by simp [htask])) (by simp [hquiet])
    · exact absurd hsuspended (hawake _ _)
  | @cancels flight wakeAt htask hstopped =>
    have hquiet : machine.starting? = none := by simp only [starting?, htask]
    rcases h with ⟨hmem, _⟩ | ⟨hsuspended, _⟩
    · rw [Engine.noteAwake_queue] at hmem
      refine .stays (.resting hmem fun other time hother hlive => ?_) (by simp [hquiet])
      cases htask.symm.trans hother
      cases hstopped.symm.trans hlive
    · cases hsuspended
  | @resumes flight wakeAt htask hlive hdue =>
    have hquiet : machine.starting? = none := by simp only [starting?, htask]
    obtain ⟨front, others, hqueue, _, hcourse⟩ :=
      (steady_of_reachable hmachine htask).inFront hlive
    obtain ⟨runState, _, hwake⟩ := exists_wake_eq host machine hlive
    have hnow := now_resume (machine.scope host) flight.command flight.pause machine.world
    rw [hwake] at h
    generalize resume (machine.scope host) flight.command flight.pause machine.world = piece
      at hnow h
    obtain ⟨program, rfl, rfl⟩ | ⟨_, rfl, rfl⟩ | ⟨ms, pause, _, rfl, rfl⟩ | ⟨hmem, rfl⟩ :=
      has_settle { machine with engine.runState := runState, world := piece.1, task := .ready }
        flight hqueue hcourse.id_eq.symm hlive h
    · exact .fresh (Nat.le_refl _) program
    · exact .ends rfl (.executing htask hlive) hdue
    · simp only [hnow]
      exact .goesOn rfl (.executing htask hlive) hdue ms
    · have hqueued : activation ∈ machine.engine.queue := hqueue ▸ List.mem_cons_of_mem _ hmem
      refine .stays (.resting hqueued fun other time hother _ => ?_) (by simp [hquiet])
      cases htask.symm.trans hother
      rw [hcourse.id_eq]
      exact id_ne_of_mem_others hsound.engine hqueue hmem
  | unparks htask =>
    have hquiet : machine.starting? = none := by simp only [starting?, htask]
    rcases h with ⟨hmem, _⟩ | ⟨hsuspended, _⟩
    · exact .stays (has_of_mem hmem (by simp [htask])) (by simp [hquiet])
    · cases hsuspended

/-- Where what a machine has after a move comes from. -/
theorem comes_of_move? (hmachine : machine.Reachable host) {move : Move σ}
    (hmove : machine.move? host move = some next) (h : next.Has activation wakeTime?) :
    Comes host machine move activation wakeTime? := by
  cases move with
  | work => exact comes_of_step hmachine (step_of_step? hmove) h
  | wait | drift =>
    cases hmove
    rcases h with ⟨hmem, hidle⟩ | ⟨htask, hlive⟩
    · exact .stays (.resting hmem hidle) (by simp)
    · exact .stays (.executing htask hlive) (by simp)
  | call library call =>
    cases hmove
    have hcontrol := machine.engine.control_handle library call
    by_cases hcall : call.StopsAtOnce
    · obtain ⟨hempty, _, hsignal, _⟩ := machine.engine.handle_of_stopsAtOnce hcall library
      rcases h with ⟨hmem, _⟩ | ⟨htask, hlive⟩
      · have hmem : activation ∈ (machine.engine.handle library call).1.queue := hmem
        simp [hempty] at hmem
      · have hseen := ((sound_of_reachable hmachine).flight _ _ htask).seen_le
        have hstopped := Engine.stoppedSince_trigger hseen
        rw [← hsignal] at hstopped
        cases hstopped.symm.trans hlive
    · have hsignal := (hcontrol.queue_eq_append hcall).1
      have hlater {flight : InFlight} : flight.Live (machine.engine.handle library call).1 ↔
          flight.Live machine.engine := by
        rw [InFlight.Live, InFlight.Live, hsignal]
      rcases h with ⟨hmem, hidle⟩ | ⟨htask, hlive⟩
      · have hmem : activation ∈ (machine.engine.handle library call).1.queue := hmem
        have hrests (hqueued : activation ∈ machine.engine.queue) :
            Comes host machine (.call library call) activation none :=
          .stays (.resting hqueued fun flight wakeAt htask hlive =>
            hidle flight wakeAt htask (hlater.mpr hlive)) (by simp)
        obtain hqueue | hqueue | ⟨program, _, _, hqueue⟩ := hcontrol.queue_cases
        · exact hrests (hqueue ▸ hmem)
        · simp [hqueue] at hmem
        · rw [hqueue] at hmem
          rcases List.mem_append.mp hmem with hmem | hmem
          · exact hrests hmem
          · rw [List.mem_singleton.mp hmem]
            exact .fresh (Nat.le_refl _) program
      · exact .stays (.executing htask (hlater.mp hlive)) (by simp)
  | launch mode =>
    simp only [move?] at hmove
    split at hmove
    · next hended =>
      cases hmove
      rcases h with ⟨hmem, _⟩ | ⟨htask, _⟩
      · exact .stays (has_of_mem hmem (by simp [hended])) (by simp)
      · cases htask
    · cases hmove

/-! ## Commands that start -/

/-- The start of a command: the activation, the place of the command and the time. -/
structure Beginning where
  id : Nat
  place : Nat
  time : Nat
  deriving DecidableEq, Repr

/-- The command that starts in a move, if one does. -/
def beginning? (entry : Machine σ × Move σ) : Option Beginning :=
  match entry.2 with
  | .work => entry.1.starting?.map fun front => ⟨front.id, front.step, entry.1.world.now⟩
  | .wait _ | .drift _ | .call _ _ | .launch _ => none

/-- The commands that start in a run, in their order. -/
def beginnings (host : Host σ) (moves : List (Move σ)) (machine : Machine σ) : List Beginning :=
  (trail host moves machine).filterMap beginning?

/-- Commands that start in a move come before those that start later. -/
theorem beginnings_cons {move : Move σ} (hmove : machine.move? host move = some next)
    (moves : List (Move σ)) :
    beginnings host (move :: moves) machine =
      (beginning? (machine, move)).toList ++ beginnings host moves next := by
  rw [beginnings, trail_cons hmove, List.filterMap_cons]
  cases beginning? (machine, move) <;> rfl

/-- A command starts in a step, for the activation that is chosen. -/
theorem exists_starting? {move : Move σ} {beginning : Beginning}
    (h : beginning? (machine, move) = some beginning) :
    move = .work ∧ ∃ front, machine.starting? = some front ∧
      beginning = ⟨front.id, front.step, machine.world.now⟩ := by
  cases move with
  | work =>
    obtain ⟨front, hstarting, rfl⟩ := Option.map_eq_some_iff.mp h
    exact ⟨rfl, front, hstarting, rfl⟩
  | wait | drift | call | launch => cases h

/-- The clock never runs backwards. -/
theorem now_le_of_move? {move : Move σ} (hmove : machine.move? host move = some next) :
    machine.world.now ≤ next.world.now := by
  cases move with
  | work => exact Nat.le_of_eq (step_of_step? hmove).now_eq.symm
  | wait time =>
    cases hmove
    exact Nat.le_max_left _ _
  | drift | call =>
    cases hmove
    exact Nat.le_refl _
  | launch mode =>
    simp only [move?] at hmove
    split at hmove
    · cases hmove
      exact Nat.le_refl _
    · cases hmove

end Machine

end GameMacros
