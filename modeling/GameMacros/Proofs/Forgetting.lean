import GameMacros.Proofs.LegacyRuns
import GameMacros.Proofs.Waking

/-!
# A stopped engine has no memory

A stopped engine keeps its numbers, its count of stops, perhaps a command that is still to be broken
off, a wake-up that nobody has taken and latches that were set for a macro that is gone. None of
that has any influence once a macro is queued. The machine then makes the moves that one with a new
engine makes on a host in the same state, only later, after other effects and with other numbers,
and at most one step of its own goes before, which breaks off the old command or wakes the server.
-/

namespace GameMacros

variable {σ : Type}

namespace Engine

variable {engine : Engine}

/-- What an engine queues every engine queues that has the same settings and is not shut down. -/
theorem exists_program_of_queued {library : Library} {call : Call}
    (h : (engine.handle library call).2 = .queued) :
    ∃ program, ∀ other : Engine, other.settings = engine.settings →
      other.reader = engine.reader → other.isShutDown = false →
      other.handle library call = ((other.push program).notify, .queued) := by
  have hsaved {saved : SavedMacro} {loops : Option Nat}
      (h : (engine.handle library (.enqueue saved loops)).2 = .queued) :
      ∃ program, ∀ other : Engine, other.settings = engine.settings →
        other.reader = engine.reader → other.isShutDown = false →
        other.enqueue saved loops = .ok (other.push program).notify := by
    dsimp only [handle] at h
    split at h
    · next queued henqueue =>
      obtain ⟨program, hprogram, _, _⟩ := enqueue_eq_ok henqueue
      refine ⟨program, fun other hsettings hreader hup => ?_⟩
      rw [enqueue, hsettings, hreader, hprogram, hup]
      rfl
    · cases h
  cases call with
  | enqueue saved loops =>
    obtain ⟨program, hall⟩ := hsaved h
    refine ⟨program, fun other hsettings hreader hup => ?_⟩
    rw [handle, hall other hsettings hreader hup]
  | enqueueByName name loops =>
    cases hfind : library.find name with
    | error error => simp [handle, enqueueByName, hfind] at h
    | ok saved =>
      have hbyName (other : Engine) :
          other.handle library (.enqueueByName name loops) =
            other.handle library (.enqueue saved loops) := by
        simp only [handle, enqueueByName, hfind]
      rw [hbyName] at h
      obtain ⟨program, hall⟩ := hsaved h
      refine ⟨program, fun other hsettings hreader hup => ?_⟩
      rw [hbyName, handle, hall other hsettings hreader hup]
  | pause | resume | stepOnce | stop | login | logout | shutDown | look | summary => cases h

/-- Of a stopped engine there are left its latches, its wake-up, its number and its stops. -/
theorem Sound.eq_of_stopped (h : engine.Sound) (hstate : engine.runState = .stopped)
    (hup : engine.isShutDown = false) :
    engine =
      { settings := engine.settings
        reader := engine.reader
        loggedIn := engine.loggedIn
        pauseAtLoop := engine.pauseAtLoop
        stopAtLoop := engine.stopAtLoop
        signal := { count := engine.signal.count }
        wake := engine.wake
        nextId := engine.nextId } := by
  have hqueue : engine.queue = [] := h.queue_eq_nil_iff.mpr hstate
  have hstep : engine.stepPending = false := by
    rw [Bool.eq_false_iff]
    intro hpending
    cases hstate.symm.trans (h.paused_of_stepPending hpending)
  have hdropped : engine.signal.dropped = false := h.undropped
  cases engine with
  | mk _ _ _ _ _ _ _ _ _ signal =>
    cases signal
    cases hqueue
    cases hstate
    cases hstep
    cases hup
    cases hdropped
    rfl

end Engine

namespace Machine

variable {host : Host σ} {machine : Machine σ}

/-! ## New machines -/

/-- What there is already when the machine has been at work. -/
def legacy (machine : Machine σ) : Legacy where
  start := machine.world.now
  past := machine.world.past
  numbers := machine.engine.nextId
  stops := machine.engine.signal.count

/-- A machine that has just been built, with a new engine that knows whether there is a game. The
draws go on from where they are, since random numbers come from outside. -/
def built (machine : Machine σ) : Machine σ where
  engine := { Engine.ofSettings machine.engine.settings with loggedIn := machine.engine.loggedIn }
  world := { host := machine.world.host, draws := machine.world.draws }
  mode := machine.mode

/-- The machine that has just been built and does what this one does: nothing, or it sleeps, or it
is about to choose a command. -/
def renewed (machine : Machine σ) : Machine σ :=
  match machine.task with
  | .ended => machine.built
  | .ready | .suspended .. => { machine.built with task := .ready }
  | .parked =>
    if machine.engine.wake = .parked then
      { machine.built with
        engine := { machine.built.engine with wake := .parked }
        task := .parked }
    else { machine.built with task := .ready }

/-- Only a server sleeps until it is woken. -/
theorem serving_of_parked (h : machine.Reachable host) (htask : machine.task = .parked) :
    machine.mode = .serving := by
  obtain ⟨settings, world, moves, hrun⟩ := h
  refine hrun.keeps (P := fun machine => machine.task = .parked → machine.mode = .serving) ?_
    (by simp) htask
  intro move _ before after hbefore hmove htask
  have hsettled (machine : Machine σ) (activation : Activation) (command : Command)
      (callee : Option Program) (seen : Nat) (standing : Standing) :
      (machine.settle host activation command callee seen standing).task ≠ .parked := by
    cases standing <;> simp [settle]
  cases move with
  | wait | drift | call =>
    cases hmove
    exact hbefore htask
  | launch mode =>
    simp only [move?] at hmove
    split at hmove
    · cases hmove
      cases htask
    · cases hmove
  | work =>
    cases step_of_step? hmove with
    | @starts engine front hready hjob =>
      obtain ⟨command, hcurrent⟩ :=
        Activation.exists_current?_of_not_finished (Engine.choice_of_nextJob hjob).of_run.1
      rw [begin_of_current? hcurrent] at htask
      exact absurd htask (hsettled _ _ _ _ _ _)
    | ends | cancels | unparks => cases htask
    | rests hready hjob =>
      unfold rest at htask ⊢
      split at htask
      · cases htask
      · cases hready.symm.trans htask
      · next hserving _ => exact hserving
    | resumes hsuspended hlive =>
      rw [wake_of_live hlive] at htask
      exact absurd htask (hsettled _ _ _ _ _ _)

/-- A new engine has nothing to do. -/
theorem nextJob_built (machine : Machine σ) :
    machine.built.engine.nextJob = (machine.built.engine, .idle) := by
  dsimp only [built, Engine.nextJob]
  cases machine.engine.loggedIn <;> rfl

/-- The new machine comes about when the queue is to be executed, if it is to be executed here. -/
theorem exists_run_renewed (h : machine.Reachable host) :
    ∃ moves, (∀ move ∈ moves, move = .launch machine.mode ∨ move = .work) ∧
      Run (host.since machine.world.now) machine.built moves machine.renewed := by
  have hlaunch : Run (host.since machine.world.now) machine.built [.launch machine.mode]
      { machine.built with task := .ready } := .cons rfl (.nil _)
  unfold renewed
  cases htask : machine.task with
  | ended => exact ⟨[], by simp, .nil _⟩
  | ready | suspended => exact ⟨_, by simp, hlaunch⟩
  | parked =>
    dsimp only
    split
    · have hserving := serving_of_parked h htask
      have hsleeps :
          { machine.built with task := .ready }.move? (host.since machine.world.now) .work =
            some
              { machine.built with
                engine := { machine.built.engine with wake := .parked }
                task := .parked } := by
        have hmode : machine.built.mode = .serving := hserving
        have hwake : machine.built.engine.wake = .quiet := rfl
        simp only [move?, step?, choose, nextJob_built, rest, hmode, hwake]
      exact ⟨_, by simp, hlaunch.append (.cons hsleeps (.nil _))⟩
    · exact ⟨_, by simp, hlaunch⟩

/-! ## What is left behind -/

/-- The machine has to break off a command that was stopped, or to notice that it was woken. -/
def Lags (machine : Machine σ) : Prop :=
  (∃ flight wakeAt, machine.task = .suspended flight wakeAt ∧
      machine.engine.signal.stoppedSince flight.seen = true ∧ machine.engine.runState ≠ .waiting) ∨
    machine.task = .parked ∧ machine.engine.wake ≠ .parked

/-- No call takes from a machine what it has to do. -/
theorem Lags.handle (h : machine.Lags) (library : Library) (call : Call) :
    (machine.handle library call).1.Lags := by
  have hcontrol := machine.engine.control_handle library call
  rcases h with ⟨flight, wakeAt, htask, hstopped, hwaiting⟩ | ⟨htask, hwake⟩
  · left
    refine ⟨flight, wakeAt, htask, hcontrol.frame.stoppedSince hstopped, ?_⟩
    exact fun hlater => hwaiting (hcontrol.waiting hlater)
  · right
    exact ⟨htask, hcontrol.wake_ne_parked hwake⟩

/-- A machine that is where a new one is on top of a legacy, but for one step. -/
structure Behind (legacy : Legacy) (machine new : Machine σ) : Prop where
  ready : new.task = .ready
  engine_eq : machine.engine = legacy.engine new.engine
  world_eq : machine.world = legacy.world new.world
  mode_eq : machine.mode = new.mode
  lags : machine.Lags

variable {legacy : Legacy} {new : Machine σ}

/-- A machine that is behind is executing the queue. -/
theorem Behind.not_ended (h : Behind legacy machine new) : machine.task ≠ .ended := by
  rcases h.lags with ⟨flight, wakeAt, hsuspended, _⟩ | ⟨hparked, _⟩
  · simp [hsuspended]
  · simp [hparked]

/-- With its next step the machine is where the new one is. -/
theorem Behind.move?_work (h : Behind legacy machine new) :
    machine.move? host .work = some (legacy.machine new) := by
  have htask : legacy.task new.task = .ready := by rw [h.ready]; rfl
  have hcaughtUp : { machine with task := .ready } = legacy.machine new := by
    rw [Legacy.machine, htask, ← h.engine_eq, ← h.world_eq, ← h.mode_eq]
  dsimp only [move?, step?]
  rcases h.lags with ⟨flight, wakeAt, hsuspended, hstopped, hwaiting⟩ | ⟨hparked, hwoken⟩
  · have hawake : machine.engine.noteAwake = machine.engine := if_neg hwaiting
    simp only [hsuspended, hstopped, Bool.true_or, if_true, wake_of_stopped hstopped, hawake,
      hcaughtUp]
  · simp only [hparked, if_neg hwoken, hcaughtUp]

/-- The machine stays behind until its next step. Everything else that can be done to it can be done
to the new one and shows the same, and nothing more. -/
theorem Behind.move (h : Behind legacy machine new) (host : Host σ) {move : Move σ}
    (hwork : move ≠ .work) :
    machine.move? host move = none ∧
        new.move? (host.since legacy.start) (move.since legacy.start) = none ∨
      ∃ next after, machine.move? host move = some next ∧
        new.move? (host.since legacy.start) (move.since legacy.start) = some after ∧
        Behind legacy next after ∧
        machine.shown move =
          (new.shown (move.since legacy.start)).map (Observation.after legacy.start) := by
  cases move with
  | work => exact absurd rfl hwork
  | wait time =>
    right
    refine ⟨_, _, rfl, rfl, ⟨h.ready, h.engine_eq, ?_, h.mode_eq, h.lags⟩, rfl⟩
    dsimp only [waitUntil]
    rw [h.world_eq]
    exact Legacy.waitUntil_world time
  | drift state =>
    right
    refine ⟨_, _, rfl, rfl, ⟨h.ready, h.engine_eq, ?_, h.mode_eq, h.lags⟩, rfl⟩
    rw [h.world_eq]
    rfl
  | call library call =>
    right
    have hcall : machine.engine.handle library call =
        (legacy.engine (new.engine.handle library call).1, (new.engine.handle library call).2) := by
      rw [h.engine_eq]
      exact Legacy.handle_engine library call
    refine ⟨_, _, rfl, rfl, ⟨h.ready, congrArg Prod.fst hcall, h.world_eq, h.mode_eq,
      h.lags.handle library call⟩, ?_⟩
    dsimp only [shown, handle, Move.since]
    rw [hcall, h.world_eq]
    exact congrArg (fun observation => [observation]) (Legacy.observe_engine _ _)
  | launch mode =>
    left
    exact ⟨if_neg h.not_ended, if_neg (by simp [h.ready])⟩

/-! ## Runs that match -/

/-- The moves from a start on. The first step of the machine may be missing, which only makes up for
what it has left behind. -/
inductive Unwinds (start : Nat) : List (Move σ) → List (Move σ) → Prop
  | same (moves : List (Move σ)) : Unwinds start moves (moves.map (Move.since start))
  | unwinds {early : List (Move σ)} (late : List (Move σ)) (hearly : .work ∉ early) :
      Unwinds start (early ++ .work :: late) ((early ++ late).map (Move.since start))

/-- What there is to see of a machine is what there is to see of a new one on top of a legacy. -/
structure Resembles (legacy : Legacy) (machine new : Machine σ) : Prop where
  world_eq : machine.world = legacy.world new.world
  observe_eq : ∀ answer, machine.engine.observe answer machine.world.now =
    (new.engine.observe answer new.world.now).after legacy.start
  ended_iff : machine.task = .ended ↔ new.task = .ended

/-- A run of the machine and one of the new machine match: they consist of the same moves, perhaps
but for one step, the same is shown on the way, and what there is to see in the end is the same. -/
structure Match (host : Host σ) (legacy : Legacy) (machine : Machine σ) (moves : List (Move σ))
    (last new : Machine σ) (others : List (Move σ)) (after : Machine σ) : Prop where
  unwinds : Unwinds legacy.start moves others
  observations_eq : observations host moves machine =
    (observations (host.since legacy.start) others new).map (Observation.after legacy.start)
  resembles : Resembles legacy last after

/-- Another move that only makes up for nothing may come first. -/
theorem Unwinds.cons {start : Nat} {moves others : List (Move σ)} {move : Move σ}
    (h : Unwinds start moves others) (hwork : move ≠ .work) :
    Unwinds start (move :: moves) (move.since start :: others) := by
  cases h with
  | same => exact .same (move :: moves)
  | unwinds late hearly =>
    exact .unwinds late (List.not_mem_cons_of_ne_of_not_mem (Ne.symm hwork) hearly)

/-- A machine resembles a new one if engine and world are what they are on top of a legacy. -/
theorem resembles_of_eq (hengine : machine.engine = legacy.engine new.engine)
    (hworld : machine.world = legacy.world new.world)
    (hended : machine.task = .ended ↔ new.task = .ended) : Resembles legacy machine new where
  world_eq := hworld
  observe_eq answer := by
    rw [hengine, hworld]
    exact Legacy.observe_engine answer new.world.now
  ended_iff := hended

/-- A machine on top of a legacy resembles the one without. -/
theorem resembles_machine (legacy : Legacy) (new : Machine σ) :
    Resembles legacy (legacy.machine new) new :=
  resembles_of_eq rfl rfl Legacy.task_machine_eq_ended_iff

/-- A machine that is behind is not seen to be. -/
theorem Behind.resembles (h : Behind legacy machine new) : Resembles legacy machine new :=
  resembles_of_eq h.engine_eq h.world_eq
    ⟨fun hended => absurd hended h.not_ended, fun hended => by cases h.ready.symm.trans hended⟩

variable {last after : Machine σ} {moves others : List (Move σ)}

/-- A run on top of a legacy is a run without. -/
theorem exists_run_since (hrun : Run host (legacy.machine new) moves last) :
    ∃ after, last = legacy.machine after ∧
      Run (host.since legacy.start) new (moves.map (Move.since legacy.start)) after := by
  have hfollow := follow?_of_run hrun
  rw [Legacy.follow?_machine] at hfollow
  obtain ⟨after, hafter, rfl⟩ := Option.map_eq_some_iff.mp hfollow
  exact ⟨after, rfl, run_of_follow? hafter⟩

/-- A run without a legacy is one on top of it. -/
theorem exists_run_after (hrun : Run (host.since legacy.start) new others after) :
    ∃ moves, others = moves.map (Move.since legacy.start) ∧
      Run host (legacy.machine new) moves (legacy.machine after) := by
  have hmoves : others = (others.map (Move.after legacy.start)).map (Move.since legacy.start) := by
    rw [List.map_map, show Move.since legacy.start ∘ Move.after legacy.start = id from
      funext (Move.since_after legacy.start), List.map_id]
  refine ⟨_, hmoves, run_of_follow? ?_⟩
  rw [Legacy.follow?_machine, ← hmoves, follow?_of_run hrun, Option.map_some]

/-- A run on top of a legacy matches the one without. -/
theorem match_machine (moves : List (Move σ)) :
    Match host legacy (legacy.machine new) moves (legacy.machine after) new
      (moves.map (Move.since legacy.start)) after :=
  ⟨.same moves, Legacy.observations_machine host new moves, resembles_machine legacy after⟩

/-- After its next step a machine that is behind matches the new one. -/
theorem Behind.match_machine (h : Behind legacy machine new) (moves : List (Move σ)) :
    Match host legacy machine (.work :: moves) (legacy.machine after) new
      (moves.map (Move.since legacy.start)) after where
  unwinds := .unwinds moves List.not_mem_nil
  observations_eq := by
    rw [observations_cons h.move?_work]
    exact Legacy.observations_machine host new moves
  resembles := resembles_machine legacy after

/-- A move that is no step goes before runs that match. -/
theorem Match.cons {next other : Machine σ} {move : Move σ} (h : Match host legacy next moves last
      other others after)
    (hwork : move ≠ .work) (hmove : machine.move? host move = some next)
    (hother : new.move? (host.since legacy.start) (move.since legacy.start) = some other)
    (hshown : machine.shown move =
      (new.shown (move.since legacy.start)).map (Observation.after legacy.start)) :
    Match host legacy machine (move :: moves) last new (move.since legacy.start :: others)
      after where
  unwinds := h.unwinds.cons hwork
  observations_eq := by
    rw [observations_cons hmove, observations_cons hother, hshown, h.observations_eq,
      List.map_append]
  resembles := h.resembles

/-- A run of a machine that is behind matches one of the new machine. -/
theorem Behind.exists_match (h : Behind legacy machine new) (hrun : Run host machine moves last) :
    ∃ others after, Run (host.since legacy.start) new others after ∧
      Match host legacy machine moves last new others after := by
  induction hrun generalizing new with
  | nil machine => exact ⟨[], new, .nil _, .same [], rfl, h.resembles⟩
  | @cons machine next last move moves hmove hrest ih =>
    by_cases hwork : move = .work
    · subst hwork
      obtain rfl : legacy.machine new = next := Option.some.inj (h.move?_work.symm.trans hmove)
      obtain ⟨after, rfl, hafter⟩ := exists_run_since hrest
      exact ⟨_, after, hafter, h.match_machine moves⟩
    · rcases h.move host hwork with ⟨hnone, _⟩ | ⟨_, other, hnext, hother, hbehind, hshown⟩
      · cases hnone.symm.trans hmove
      · cases hnext.symm.trans hmove
        obtain ⟨others, after, hothers, hmatch⟩ := ih hbehind
        exact ⟨_, after, .cons hother hothers, hmatch.cons hwork hmove hother hshown⟩

/-- A run of the new machine matches one of a machine that is behind. -/
theorem Behind.exists_match_of_new (h : Behind legacy machine new)
    (hrun : Run (host.since legacy.start) new others after) :
    ∃ moves last, Run host machine moves last ∧
      Match host legacy machine moves last new others after := by
  induction hrun generalizing machine with
  | nil new => exact ⟨[], machine, .nil _, .same [], rfl, h.resembles⟩
  | @cons new other after move others hmove hrest ih =>
    by_cases hwork : move = .work
    · obtain ⟨moves, hothers, hafter⟩ := exists_run_after (.cons hmove hrest)
      rw [hothers]
      exact ⟨_, _, .cons h.move?_work hafter, h.match_machine moves⟩
    · obtain ⟨later, rfl⟩ : ∃ later : Move σ, move = later.since legacy.start :=
        ⟨move.after legacy.start, (Move.since_after legacy.start move).symm⟩
      have hlater : later ≠ .work := by
        rintro rfl
        exact hwork rfl
      rcases h.move host hlater with ⟨_, hnone⟩ | ⟨next, _, hnext, hother, hbehind, hshown⟩
      · cases hnone.symm.trans hmove
      · cases hother.symm.trans hmove
        obtain ⟨moves, last, hmoves, hmatch⟩ := ih hbehind
        exact ⟨_, last, .cons hnext hmoves, hmatch.cons hlater hnext hmove hshown⟩

/-! ## Starting over -/

/-- The reader of a machine is made from its settings. -/
theorem reader_eq_of_reachable (h : machine.Reachable host) :
    machine.engine.reader = .ofSettings machine.engine.settings := by
  obtain ⟨settings, world, moves, hrun⟩ := h
  rw [hrun.frame.reader_eq, hrun.frame.settings_eq]
  rfl

/-- The new machine has a new engine. Its server is woken as the one here is. -/
theorem exists_renewed_eq (h : machine.Wakeful) :
    ∃ wake task, machine.renewed =
        { machine.built with engine := { machine.built.engine with wake }, task } ∧
      wake.notify = machine.engine.wake.notify := by
  have hawake {wake : Wake} (hwake : wake ≠ .parked) : Wake.quiet.notify = wake.notify :=
    (Wake.notify_of_ne_parked hwake).symm
  unfold renewed
  cases htask : machine.task with
  | ended => exact ⟨.quiet, .ended, rfl, hawake (h.wake_ne_parked (by simp [htask]))⟩
  | ready | suspended => exact ⟨.quiet, .ready, rfl, hawake (h.wake_ne_parked (by simp [htask]))⟩
  | parked =>
    dsimp only
    split
    · next hwake => exact ⟨.parked, .parked, rfl, by rw [hwake]⟩
    · next hwake => exact ⟨.quiet, .ready, rfl, hawake hwake⟩

/-- A macro that a stopped engine queues is all that counts from then on. -/
theorem handle_engine_of_queued (h : machine.Reachable host)
    (hstate : machine.engine.runState = .stopped) (hup : machine.engine.isShutDown = false)
    {library : Library} {call : Call} (hqueued : (machine.engine.handle library call).2 = .queued) :
    machine.engine.handle library call =
      (machine.legacy.engine (machine.renewed.engine.handle library call).1,
        (machine.renewed.engine.handle library call).2) := by
  obtain ⟨program, hall⟩ := Engine.exists_program_of_queued hqueued
  obtain ⟨wake, task, hrenewed, hwake⟩ :=
    exists_renewed_eq (wakeful_of_served (served_of_reachable h))
  have hreader := reader_eq_of_reachable h
  have hstopped := (sound_of_reachable h).engine.eq_of_stopped hstate hup
  have hnew := hall machine.renewed.engine (by rw [hrenewed]; rfl)
    (by rw [hrenewed, hreader]; rfl) (by rw [hrenewed]; rfl)
  have hpush : (machine.engine.push program).notify =
      { machine.legacy.engine ({ machine.built.engine with wake }.push program).notify with
        wake := machine.engine.wake.notify } := by
    conv_lhs => rw [hstopped, hreader]
    rfl
  rw [hall machine.engine rfl rfl hup, hnew, hrenewed, hpush, ← hwake]
  rfl

/-- A command that is under way while the engine is stopped was stopped. -/
theorem stoppedSince_of_stopped (h : machine.Reachable host)
    (hstate : machine.engine.runState = .stopped) {flight : InFlight} {wakeAt : Nat}
    (htask : machine.task = .suspended flight wakeAt) :
    machine.engine.signal.stoppedSince flight.seen = true := by
  by_contra hlive
  obtain ⟨front, others, hqueue, _⟩ :=
    (steady_of_reachable h htask).inFront (Bool.eq_false_iff.mpr hlive)
  have hempty := (sound_of_reachable h).engine.queue_eq_nil_iff.mpr hstate
  cases hqueue.symm.trans hempty

/-- Once a stopped machine has queued a macro it is where the new one is, or one step behind. -/
theorem eq_machine_or_behind_of_queued (h : machine.Reachable host)
    (hstate : machine.engine.runState = .stopped) (hup : machine.engine.isShutDown = false)
    {library : Library} {call : Call} (hqueued : (machine.engine.handle library call).2 = .queued) :
    (machine.handle library call).1 =
        machine.legacy.machine (machine.renewed.handle library call).1 ∨
      Behind machine.legacy (machine.handle library call).1
        (machine.renewed.handle library call).1 := by
  have hengine := congrArg Prod.fst (handle_engine_of_queued h hstate hup hqueued)
  obtain ⟨wake, task, hrenewed, _⟩ := exists_renewed_eq (wakeful_of_served (served_of_reachable h))
  have hworld : machine.world = machine.legacy.world machine.renewed.world := by
    rw [hrenewed]
    rfl
  have hmode : machine.mode = machine.renewed.mode := by rw [hrenewed]; rfl
  have hsame (htask : machine.task = machine.legacy.task machine.renewed.task) :
      (machine.handle library call).1 =
        machine.legacy.machine (machine.renewed.handle library call).1 := by
    dsimp only [handle] at hengine ⊢
    rw [hengine, Legacy.machine, ← hworld, ← hmode, ← htask]
  cases htask : machine.task with
  | ready => exact .inl (hsame (by simp [renewed, htask, Legacy.task]))
  | ended => exact .inl (hsame (by simp [renewed, htask, Legacy.task, built]))
  | suspended flight wakeAt =>
    have hready : machine.renewed.task = .ready := by simp [renewed, htask]
    have hlags : machine.Lags :=
      .inl ⟨flight, wakeAt, htask, stoppedSince_of_stopped h hstate htask, by simp [hstate]⟩
    exact .inr ⟨hready, hengine, hworld, hmode, hlags.handle library call⟩
  | parked =>
    by_cases hwake : machine.engine.wake = .parked
    · exact .inl (hsame (by simp [renewed, htask, hwake, Legacy.task]))
    · have hready : machine.renewed.task = .ready := by simp [renewed, htask, hwake]
      have hlags : machine.Lags := .inr ⟨htask, hwake⟩
      exact .inr ⟨hready, hengine, hworld, hmode, hlags.handle library call⟩

/-- From a call on, a machine goes on like one that has just been built. -/
structure StartsOver (host : Host σ) (machine : Machine σ) (library : Library) (call : Call) :
    Prop where
  /-- The other machine has just been built. If the queue is being executed here, it is being
  executed there, and if the server sleeps here, it sleeps there. -/
  built : ∃ moves, (∀ move ∈ moves, move = .launch machine.mode ∨ move = .work) ∧
    Run (host.since machine.world.now) machine.built moves machine.renewed
  /-- The same is observed when the call is made. -/
  observation_eq : (machine.handle library call).2 =
    (machine.renewed.handle library call).2.after machine.world.now
  /-- Whatever is done then, the other machine does the same. -/
  asNew : ∀ {moves last}, Run host (machine.handle library call).1 moves last →
    ∃ others after,
      Run (host.since machine.world.now) (machine.renewed.handle library call).1 others after ∧
        Match host machine.legacy (machine.handle library call).1 moves last
          (machine.renewed.handle library call).1 others after
  /-- Whatever the other machine does, this one does the same. -/
  viceVersa : ∀ {others after},
    Run (host.since machine.world.now) (machine.renewed.handle library call).1 others after →
      ∃ moves last, Run host (machine.handle library call).1 moves last ∧
        Match host machine.legacy (machine.handle library call).1 moves last
          (machine.renewed.handle library call).1 others after

/-- A stopped engine that queues a macro has no memory of what was before. -/
theorem startsOver_of_stopped (hmachine : machine.Reachable host)
    (hstate : machine.engine.runState = .stopped) (hup : machine.engine.isShutDown = false)
    {library : Library} {call : Call}
    (hqueued : (machine.handle library call).2.answer = .queued) :
    machine.StartsOver host library call := by
  have hanswer : (machine.engine.handle library call).2 = .queued := hqueued
  have hplace := eq_machine_or_behind_of_queued hmachine hstate hup hanswer
  have hresembles : Resembles machine.legacy (machine.handle library call).1
      (machine.renewed.handle library call).1 := by
    rcases hplace with heq | hbehind
    · rw [heq]
      exact resembles_machine _ _
    · exact hbehind.resembles
  refine ⟨exists_run_renewed hmachine, ?_, fun hrun => ?_, fun hrun => ?_⟩
  · have hanswers : (machine.engine.handle library call).2 =
        (machine.renewed.engine.handle library call).2 := by
      rw [handle_engine_of_queued hmachine hstate hup hanswer]
    have hobserve := hresembles.observe_eq (machine.engine.handle library call).2
    exact hobserve.trans (by rw [hanswers]; rfl)
  · rcases hplace with heq | hbehind
    · rw [heq] at hrun ⊢
      obtain ⟨after, rfl, hafter⟩ := exists_run_since hrun
      exact ⟨_, after, hafter, match_machine _⟩
    · exact hbehind.exists_match hrun
  · rcases hplace with heq | hbehind
    · have hsince : Run (host.since machine.legacy.start)
          (machine.renewed.handle library call).1 _ _ := hrun
      obtain ⟨moves, rfl, hmoves⟩ := exists_run_after hsince
      rw [heq]
      exact ⟨moves, _, hmoves, match_machine moves⟩
    · exact hbehind.exists_match_of_new hrun

/-- An engine that was stopped while its command slept, and then asked to pause at the next loop:
the command is still to be broken off, and yet the next macro is executed as by a new engine. -/
theorem startsOver_of_stopped_asleep :
    ∃ (machine : Machine DryRun) (flight : InFlight) (wakeAt : Nat),
      machine.Reachable DryRun.host ∧ machine.engine.runState = .stopped ∧
        machine.task = .suspended flight wakeAt ∧ machine.engine.pauseAtLoop = true ∧
        machine.world.now = 1000 ∧
        machine.StartsOver DryRun.host {}
          (.enqueue { name := "twice", contents := "/echo hello\n/loop 2" } none) := by
  let moves : List (Move DryRun) :=
    [.call {} (.enqueue { name := "rest", contents := "/wait 5" } none), .launch .serving, .work,
      .wait 1000, .call {} (.stop false), .call {} (.pause true)]
  let call : Call := .enqueue { name := "twice", contents := "/echo hello\n/loop 2" } none
  have hfollow : (follow? DryRun.host moves
      { engine := .ofSettings {}, world := { host := {} } }).map (fun machine =>
        decide (machine.engine.runState = .stopped ∧ machine.wakeTime?.isSome = true ∧
          machine.engine.pauseAtLoop = true ∧ machine.world.now = 1000 ∧
          machine.engine.isShutDown = false ∧ (machine.handle {} call).2.answer = .queued)) =
      some true := by decide +kernel
  obtain ⟨machine, hmachine, hseen⟩ := Option.map_eq_some_iff.mp hfollow
  obtain ⟨hstate, hasleep, hlatched, hnow, hup, hqueued⟩ := of_decide_eq_true hseen
  obtain ⟨flight, wakeAt, htask⟩ := exists_flight_of_wakeTime? hasleep
  have hreachable : machine.Reachable DryRun.host := ⟨_, _, moves, run_of_follow? hmachine⟩
  exact ⟨machine, flight, wakeAt, hreachable, hstate, htask, hlatched, hnow,
    startsOver_of_stopped hreachable hstate hup hqueued⟩

end Machine

end GameMacros
