import GameMacros.Proofs.ClockFree
import GameMacros.Proofs.Refinement
import Mathlib.Data.List.DropRight

/-!
# Interruptions

A run on a queue may be paused, stepped, resumed, stopped and logged out of at any moment. Next to
it stands the machine that is left alone with the same queue. Both are between two commands with the
same queue, or within the same command, until the interrupted run is over for good. So interruptions
change when something is done, but not what is done.
-/

namespace GameMacros

open Execution

/-- The move at most interrupts the work on the queue: nothing is queued, and the world outside does
not change by itself. -/
def Move.Interrupts {σ : Type} : Move σ → Prop
  | .work | .wait _ | .launch _ => True
  | .drift _ => False
  | .call _ made => ¬made.Queues

namespace Engine

variable {engine next : Engine}

/-- Without a command to start the queue stays, but for what is finished, or is discarded. -/
theorem Choice.queue_of_idle (h : Choice engine (next, .idle)) :
    next.queue = [] ∨ next.dropFinished.queue = engine.dropFinished.queue := by
  have hagain : engine.dropFinished.dropFinished.queue = engine.dropFinished.queue :=
    List.dropWhile_idempotent _ _
  cases h with
  | loggedOut => exact .inr rfl
  | drained | stoppedAtLoop => exact .inl rfl
  | stopped | held | pausedAtLoop => exact .inr hagain

/-- A choice gives no numbers and no stops. -/
theorem Choice.same {result : Engine × Job} (h : Choice engine result) :
    result.1.nextId = engine.nextId ∧ result.1.signal = engine.signal := by
  cases h <;> exact ⟨rfl, rfl⟩

end Engine

namespace Machine

variable {σ : Type} {host : Host σ} {start : World σ} {machine other next : Machine σ}

/-! ## Side by side -/

/-- Two machines have the same to do, in worlds that have come about by the same effects. -/
structure Alike (host : Host σ) (start : World σ) (machine other : Machine σ) : Prop where
  world : World.Alike host start machine.world other.world
  settings_eq : machine.engine.settings = other.engine.settings
  reader_eq : machine.engine.reader = other.engine.reader
  nextId_eq : machine.engine.nextId = other.engine.nextId
  undropped : machine.engine.signal.dropped = false

/-- Machines alike execute commands with the same things. -/
theorem Alike.scope_eq (h : Alike host start machine other) (host : Host σ) :
    machine.scope host = other.scope host := by
  simp only [scope, h.settings_eq, h.reader_eq]

/-- Machines alike stay so in other worlds that are alike. -/
theorem Alike.with_world {world world' : World σ} (h : Alike host start machine other)
    (hworld : World.Alike host start world world') :
    Alike host start { machine with world } { other with world := world' } :=
  ⟨hworld, h.settings_eq, h.reader_eq, h.nextId_eq, h.undropped⟩

/-- A machine that only sets other things stays alike. -/
theorem Alike.left (h : Alike host start machine other)
    (hworld : World.Alike host start next.world other.world)
    (hframe : machine.engine.Frame next.engine)
    (hnextId : next.engine.nextId = machine.engine.nextId) : Alike host start next other :=
  ⟨hworld, hframe.settings_eq.trans h.settings_eq, hframe.reader_eq.trans h.reader_eq,
    hnextId.trans h.nextId_eq, hframe.dropped_eq.trans h.undropped⟩

/-- How a machine whose run is interrupted stands to one that is left alone. -/
inductive Shadows (host : Host σ) (start : World σ) (machine other : Machine σ) : Prop
  /-- Both are between two commands. -/
  | between (halike : Alike host start machine other)
      (htask : ∀ flight wakeAt, machine.task ≠ .suspended flight wakeAt)
      (hready : other.task = .ready) (hfree : other.engine.Unhindered)
      (hqueue : machine.engine.dropFinished.queue = other.engine.dropFinished.queue)
  /-- Both are within the same command. -/
  | within {flight : InFlight} {wakeAt seen time : Nat} (halike : Alike host start machine other)
      (htask : machine.task = .suspended flight wakeAt)
      (hother : other.task = .suspended { flight with seen } time)
      (hseen : flight.seen = machine.engine.signal.count)
      (hlive : other.engine.signal.stoppedSince seen = false)
      (hfree : other.engine.noteAwake.Unhindered)
      (hqueue : machine.engine.queue = other.engine.queue)
      (hfront : ∃ front others, machine.engine.queue = front :: others ∧
        front.id = flight.activation.id)
  /-- The interrupted run is over. -/
  | ended (hqueue : machine.engine.queue = [])
      (hstopped : ∀ flight wakeAt, machine.task = .suspended flight wakeAt →
        machine.engine.signal.stoppedSince flight.seen = true)
      (heffects : machine.world.effects <+: other.world.effects)

/-- An interrupted run has done nothing that the other machine has not done. -/
theorem Shadows.keeps_effects (h : Shadows host start machine other) :
    machine.world.effects <+: other.world.effects := by
  cases h with
  | between halike | within halike => exact halike.world.keeps_effects
  | ended _ _ heffects => exact heffects

/-- Two machines alike end a command of the activation in front of the same queue. -/
theorem shadows_finished (halike : Alike host start machine other)
    (hfree : other.engine.Unhindered) (hqueue : machine.engine.queue = other.engine.queue)
    {activation front : Activation} {others : List Activation}
    (hcons : machine.engine.queue = front :: others) (hid : front.id = activation.id)
    (command : Command) (callee : Option Program) (seen seen' : Nat) :
    Shadows host start (machine.settle host activation command callee seen .finished)
      (other.settle host activation command callee seen' .finished) := by
  have hcommit := machine.engine.commit_of_front hcons hid callee
  have hcommit' := other.engine.commit_of_front (hqueue ▸ hcons) hid callee
  simp only [settle, hcommit, hcommit']
  refine .between ⟨halike.world, halike.settings_eq, halike.reader_eq, ?_, halike.undropped⟩
    (by simp) rfl (hfree.with_queue _ _) ?_
  · change machine.engine.nextId + _ = other.engine.nextId + _
    rw [halike.nextId_eq]
  · simp only [Engine.dropFinished, halike.nextId_eq]

/-- Two machines alike go to sleep within the same command. -/
theorem shadows_asleep (halike : Alike host start machine other)
    (hfree : other.engine.Unhindered) (hqueue : machine.engine.queue = other.engine.queue)
    {activation : Activation}
    (hfront : ∃ front others, machine.engine.queue = front :: others ∧ front.id = activation.id)
    (command : Command) (callee : Option Program) {seen seen' : Nat} (ms ms' : Nat) (pause : Pause)
    (hseen : seen = machine.engine.signal.count)
    (hlive : other.engine.signal.stoppedSince seen' = false) :
    Shadows host start (machine.settle host activation command callee seen (.asleep ms pause))
      (other.settle host activation command callee seen' (.asleep ms' pause)) := by
  obtain ⟨state, hasleep⟩ := machine.engine.exists_noteAsleep_eq
  obtain ⟨state', hasleep'⟩ := other.engine.exists_noteAsleep_eq
  have hawake := Engine.noteAwake_noteAsleep hfree.ne_waiting
  simp only [settle, hasleep, hasleep'] at hawake ⊢
  refine .within ⟨halike.world, halike.settings_eq, halike.reader_eq, halike.nextId_eq,
    halike.undropped⟩ rfl rfl hseen hlive ?_ hqueue hfront
  rw [hawake]
  exact hfree

/-- Two machines alike, and the same place where a piece of a command of the activation in front has
led: they go on side by side, or the command has failed and both are done. -/
theorem shadows_settle (halike : Alike host start machine other)
    (hhost : host.IgnoresClock start.host) (hfree : other.engine.Unhindered)
    (hqueue : machine.engine.queue = other.engine.queue) {activation : Activation}
    (hfront : ∃ front others, machine.engine.queue = front :: others ∧ front.id = activation.id)
    (command : Command) (callee : Option Program) {standing standing' : Standing}
    (hstanding : standing.untimed = standing'.untimed) {seen seen' : Nat}
    (hseen : seen = machine.engine.signal.count)
    (hlive : other.engine.signal.stoppedSince seen' = false) :
    Shadows host start (machine.settle host activation command callee seen standing)
      (other.settle host activation command callee seen' standing') := by
  cases standing with
  | finished =>
    cases standing' with
    | failed | asleep => cases hstanding
    | finished =>
      obtain ⟨front, others, hcons, hid⟩ := hfront
      exact shadows_finished halike hfree hqueue hcons hid command callee seen seen'
  | failed failure =>
    cases standing' with
    | finished | asleep => cases hstanding
    | failed failure' =>
      cases hstanding
      refine .ended rfl (by simp [settle]) ?_
      have hreported := related_report (World.respects_alike hhost) machine.engine.settings
        activation.name failure halike.world
      simp only [settle, ← halike.settings_eq]
      exact hreported.keeps_effects
  | asleep ms pause =>
    cases standing' with
    | finished | failed => cases hstanding
    | asleep ms' pause' =>
      cases hstanding
      exact shadows_asleep halike hfree hqueue hfront command callee ms ms' pause hseen hlive

/-- Two machines alike start the command of the same activation in front of the same queue. -/
theorem shadows_begin (halike : Alike host start machine other)
    (hhost : host.IgnoresClock start.host) (hfree : other.engine.Unhindered) {front : Activation}
    {others : List Activation} (hqueue : machine.engine.queue = front :: others)
    (hother : other.engine.queue = front :: others) {command : Command}
    (hcurrent : front.current? = some command) :
    Shadows host start (machine.begin host front) (other.begin host front) := by
  have hrespects : (machine.scope host).host.Respects (World.Alike host start) :=
    World.respects_alike hhost
  have hagree := agree_start hrespects command front halike.world
  have hid : front.id =
      (Execution.start (machine.scope host) command front machine.world).activation.id :=
    (course_start _ command front _).id_eq.symm
  rw [begin_of_current? hcurrent, begin_of_current? hcurrent, ← halike.scope_eq host,
    ← hagree.activation_eq, ← hagree.callee_eq]
  have hbegun := halike.with_world hagree.world
  exact shadows_settle hbegun hhost hfree (hqueue.trans hother.symm) ⟨front, others, hqueue, hid⟩
    command _ hagree.standing_eq rfl hfree.not_stoppedSince

/-- Two machines alike go on with the same command. -/
theorem shadows_wake (halike : Alike host start machine other)
    (hhost : host.IgnoresClock start.host) {flight : InFlight} {seen : Nat}
    (hseen : flight.seen = machine.engine.signal.count)
    (hlive : other.engine.signal.stoppedSince seen = false)
    (hfree : other.engine.noteAwake.Unhindered) (hqueue : machine.engine.queue = other.engine.queue)
    (hfront : ∃ front others, machine.engine.queue = front :: others ∧
      front.id = flight.activation.id) :
    Shadows host start (machine.wake host flight) (other.wake host { flight with seen }) := by
  have hmine : machine.engine.signal.stoppedSince flight.seen = false := by
    simp [StopSignal.stoppedSince, halike.undropped, hseen]
  have hrespects : (machine.scope host).host.Respects (World.Alike host start) :=
    World.respects_alike hhost
  have hagree := agree_resume hrespects flight.command flight.pause halike.world
  obtain ⟨state, hawake⟩ := machine.engine.exists_noteAwake_eq
  obtain ⟨state', hawake'⟩ := other.engine.exists_noteAwake_eq
  rw [hawake'] at hfree
  have hother : other.wake host { flight with seen } = _ := wake_of_live hlive
  rw [wake_of_live hmine, hother, ← halike.scope_eq host, hawake, hawake']
  have hawoken : Alike host start
      { machine with engine.runState := state, task := .ready, world := _ }
      { other with engine.runState := state', task := .ready, world := _ } :=
    ⟨hagree.1, halike.settings_eq, halike.reader_eq, halike.nextId_eq, halike.undropped⟩
  exact shadows_settle hawoken hhost hfree hqueue hfront flight.command flight.callee hagree.2 hseen
    hlive

/-- Between two commands the other machine follows when the next command starts. -/
theorem shadows_starts (halike : Alike host start machine other)
    (hhost : host.IgnoresClock start.host) (hready : other.task = .ready)
    (hfree : other.engine.Unhindered)
    (hqueue : machine.engine.dropFinished.queue = other.engine.dropFinished.queue)
    {engine : Engine} {front : Activation} (hjob : machine.engine.nextJob = (engine, .run front)) :
    Shadows host start ({ machine with engine }.begin host front) (drive host 1 other) := by
  have hchoice := Engine.choice_of_nextJob hjob
  obtain ⟨hunfinished, others, hdropped, hchosen⟩ := hchoice.of_run
  obtain ⟨command, hcurrent⟩ := Activation.exists_current?_of_not_finished hunfinished
  have hother : other.engine.dropFinished.queue = front :: others := hqueue.symm.trans hdropped
  have hadvance : drive host 1 other =
      { other with engine := other.engine.dropFinished }.begin host front :=
    advance_of_front hready hfree hother
  have hleft : Alike host start { machine with engine } other :=
    halike.left halike.world hchoice.frame hchoice.same.1
  have hboth : Alike host start { machine with engine }
      { other with engine := other.engine.dropFinished } :=
    ⟨hleft.world, hleft.settings_eq, hleft.reader_eq, hleft.nextId_eq, hleft.undropped⟩
  rw [hadvance]
  exact shadows_begin hboth hhost (hfree.with_queue _ _) hchosen hother hcurrent

/-- Between two commands the other machine waits when the interrupted one has nothing to do. -/
theorem shadows_rests (halike : Alike host start machine other) (htask : machine.task = .ready)
    (hready : other.task = .ready) (hfree : other.engine.Unhindered)
    (hqueue : machine.engine.dropFinished.queue = other.engine.dropFinished.queue)
    {engine : Engine} (hjob : machine.engine.nextJob = (engine, .idle)) :
    Shadows host start ({ machine with engine } : Machine σ).rest other := by
  have hchoice := Engine.choice_of_nextJob hjob
  obtain ⟨wake, task, hrest, hawake⟩ := exists_rest_eq { machine with engine } htask
  rw [hrest]
  rcases hchoice.queue_of_idle with hempty | hkept
  · exact .ended hempty (fun flight wakeAt h => absurd h (hawake flight wakeAt))
      halike.world.keeps_effects
  · have hframe : machine.engine.Frame { engine with wake } := hchoice.frame.trans .same
    exact .between (halike.left halike.world hframe hchoice.same.1) hawake hready hfree
      (hkept.trans hqueue)

/-- A run that is over stays so. -/
theorem over_step (hqueue : machine.engine.queue = [])
    (hstopped : ∀ flight wakeAt, machine.task = .suspended flight wakeAt →
      machine.engine.signal.stoppedSince flight.seen = true)
    (hstep : Step host machine next) :
    next.engine.queue = [] ∧ (∀ flight wakeAt, next.task ≠ .suspended flight wakeAt) ∧
      next.world = machine.world := by
  have hnone {engine : Engine} {job : Engine.Job} (hjob : machine.engine.nextJob = (engine, job)) :
      engine.queue = [] := by
    have hsublist := (Engine.choice_of_nextJob hjob).queue_sublist
    rw [hqueue] at hsublist
    exact List.sublist_nil.mp hsublist
  cases hstep with
  | starts _ hjob =>
    obtain ⟨_, others, _, hchosen⟩ := (Engine.choice_of_nextJob hjob).of_run
    cases hchosen.symm.trans (hnone hjob)
  | ends _ hjob => exact ⟨hnone hjob, by simp, rfl⟩
  | @rests engine htask hjob =>
    have hnil := hnone hjob
    obtain ⟨wake, task, hrest, hawake⟩ := exists_rest_eq { machine with engine } htask
    rw [hrest]
    exact ⟨hnil, hawake, rfl⟩
  | cancels =>
    exact ⟨by rw [← hqueue]; exact machine.engine.noteAwake_queue, by simp, rfl⟩
  | resumes htask hlive => cases (hstopped _ _ htask).symm.trans hlive
  | unparks => exact ⟨hqueue, by simp, rfl⟩

/-- Whatever step the interrupted machine takes, the other machine can follow. -/
theorem Shadows.step (h : Shadows host start machine other)
    (hhost : host.IgnoresClock start.host) (hstep : Step host machine next) :
    ∃ moves, Shadows host start next (drive host moves other) := by
  cases h with
  | between halike htask hready hfree hqueue =>
    cases hstep with
    | starts _ hjob => exact ⟨1, shadows_starts halike hhost hready hfree hqueue hjob⟩
    | ends _ hjob =>
      have hchoice := Engine.choice_of_nextJob hjob
      cases hchoice
      exact ⟨0, .between (halike.left halike.world .same rfl) (by simp) hready hfree hqueue⟩
    | rests hmine hjob => exact ⟨0, shadows_rests halike hmine hready hfree hqueue hjob⟩
    | cancels hsuspended | resumes hsuspended => exact absurd hsuspended (htask _ _)
    | unparks =>
      exact ⟨0, .between (halike.left halike.world .same rfl) (by simp) hready hfree hqueue⟩
  | @within flight wakeAt seen time halike htask hother hseen hlive hfree hqueue hfront =>
    cases hstep with
    | starts hready | ends hready | rests hready | unparks hready => cases htask.symm.trans hready
    | cancels hsuspended hstopped =>
      cases htask.symm.trans hsuspended
      simp [StopSignal.stoppedSince, halike.undropped, hseen] at hstopped
    | resumes hsuspended =>
      cases htask.symm.trans hsuspended
      obtain ⟨moves, hdrive, _⟩ : Works host other [] _ := works_sleep other hother hlive
      have hlater : Alike host start machine (other.waitUntil time) :=
        ⟨halike.world.waitUntil time, halike.settings_eq, halike.reader_eq, halike.nextId_eq,
          halike.undropped⟩
      refine ⟨moves, ?_⟩
      rw [hdrive]
      exact shadows_wake hlater hhost hseen hlive hfree hqueue hfront
  | ended hqueue hstopped heffects =>
    obtain ⟨hnone, hgone, hworld⟩ := over_step hqueue hstopped hstep
    refine ⟨0, .ended hnone (fun flight wakeAt h => absurd h (hgone flight wakeAt)) ?_⟩
    rw [hworld]
    exact heffects

/-- A machine that changes nothing of its work goes on beside the other. -/
theorem Shadows.with_engine (h : Shadows host start machine other) {engine : Engine}
    (hframe : machine.engine.Frame engine) (hnextId : engine.nextId = machine.engine.nextId)
    (hkept : engine.queue = machine.engine.queue)
    (hsignal : engine.signal = machine.engine.signal) :
    Shadows host start { machine with engine } other := by
  cases h with
  | between halike htask hready hfree hqueue =>
    refine .between (halike.left halike.world hframe hnextId) htask hready hfree ?_
    change engine.queue.dropWhile _ = _
    rw [hkept]
    exact hqueue
  | within halike htask hother hseen hlive hfree hqueue hfront =>
    have hcount := congrArg StopSignal.count hsignal
    obtain ⟨front, others, hcons, hid⟩ := hfront
    exact .within (halike.left halike.world hframe hnextId) htask hother (hseen.trans hcount.symm)
      hlive hfree (hkept.trans hqueue) ⟨front, others, hkept.trans hcons, hid⟩
  | ended hqueue hstopped heffects =>
    exact .ended (hkept.trans hqueue)
      (fun flight wakeAt h => hframe.stoppedSince (hstopped flight wakeAt h)) heffects

/-- A run is over for good when its queue is discarded with a stop. -/
theorem Shadows.discard (h : Shadows host start machine other) {engine : Engine}
    (hframe : machine.engine.Frame engine) (hempty : engine.queue = [])
    (hsignal : engine.signal = machine.engine.signal.trigger) :
    Shadows host start { machine with engine } other := by
  refine .ended hempty ?_ h.keeps_effects
  intro flight wakeAt htask
  cases h with
  | between _ hbetween => exact absurd htask (hbetween flight wakeAt)
  | within halike hwithin _ hseen =>
    cases htask.symm.trans hwithin
    change engine.signal.stoppedSince flight.seen = true
    rw [hsignal]
    exact Engine.stoppedSince_trigger (Nat.le_of_eq hseen)
  | ended _ hstopped => exact hframe.stoppedSince (hstopped flight wakeAt htask)

/-- Whatever interrupts the machine, the other machine can follow. -/
theorem Shadows.move (h : Shadows host start machine other)
    (hhost : host.IgnoresClock start.host) {move : Move σ} (hinterrupts : move.Interrupts)
    (hmove : machine.move? host move = some next) :
    ∃ moves, Shadows host start next (drive host moves other) := by
  cases move with
  | work => exact h.step hhost (step_of_step? hmove)
  | drift state => exact absurd hinterrupts id
  | wait time =>
    cases hmove
    refine ⟨0, ?_⟩
    cases h with
    | between halike htask hready hfree hqueue =>
      exact .between (halike.left halike.world .same rfl) htask hready hfree hqueue
    | within halike htask hother hseen hlive hfree hqueue hfront =>
      exact .within (halike.left halike.world .same rfl) htask hother hseen hlive hfree hqueue
        hfront
    | ended hqueue hstopped heffects => exact .ended hqueue hstopped heffects
  | launch mode =>
    simp only [move?] at hmove
    split at hmove
    · next hended =>
      cases hmove
      refine ⟨0, ?_⟩
      cases h with
      | between halike htask hready hfree hqueue =>
        exact .between (halike.left halike.world .same rfl) (by simp [launch]) hready hfree hqueue
      | within halike htask => cases hended.symm.trans htask
      | ended hqueue hstopped heffects => exact .ended hqueue (by simp [launch]) heffects
    · cases hmove
  | call library call =>
    cases hmove
    have hcontrol := machine.engine.control_handle library call
    obtain ⟨hnextId, ⟨hkept, hsignal⟩ | ⟨hempty, hsignal⟩⟩ := hcontrol.of_not_queues hinterrupts
    · exact ⟨0, h.with_engine hcontrol.frame hnextId hkept hsignal⟩
    · exact ⟨0, h.discard hcontrol.frame hempty hsignal⟩

/-! ## Effects only come -/

/-- Nothing is taken back where a piece of a command has led. -/
theorem effects_prefix_settle {effects : List Effect} (machine : Machine σ)
    (activation : Activation) (command : Command) (callee : Option Program) (seen : Nat)
    (standing : Standing) (heffects : effects <+: machine.world.effects) :
    effects <+: (machine.settle host activation command callee seen standing).world.effects := by
  cases standing with
  | finished | asleep => exact heffects
  | failed failure =>
    have hrespects := World.respects_grown host effects
    exact (related_report hrespects machine.engine.settings activation.name failure
      ⟨rfl, heffects⟩).2

/-- Nothing is taken back by a step. -/
theorem Step.keeps_effects (h : Step host machine next) :
    machine.world.effects <+: next.world.effects := by
  have hrespects := World.respects_grown host machine.world.effects
  cases h with
  | @starts engine front _ hjob =>
    obtain ⟨hunfinished, _⟩ := (Engine.choice_of_nextJob hjob).of_run
    obtain ⟨command, hcurrent⟩ := Activation.exists_current?_of_not_finished hunfinished
    rw [begin_of_current? hcurrent]
    have hrespects' : (({ machine with engine } : Machine σ).scope host).host.Respects
        fun world other => world = other ∧ machine.world.effects <+: world.effects := hrespects
    have hsame : machine.world = machine.world ∧ machine.world.effects <+: machine.world.effects :=
      ⟨rfl, List.prefix_rfl⟩
    have hstart := agree_start hrespects' command front hsame
    exact effects_prefix_settle _ _ _ _ _ _ hstart.world.2
  | ends | cancels | unparks => exact List.prefix_rfl
  | @rests engine htask =>
    obtain ⟨wake, task, hrest, _⟩ := exists_rest_eq { machine with engine } htask
    exact hrest ▸ List.prefix_rfl
  | @resumes flight _ _ hlive =>
    rw [wake_of_live hlive]
    have hrespects' : (machine.scope host).host.Respects
        fun world other => world = other ∧ machine.world.effects <+: world.effects := hrespects
    have hsame : machine.world = machine.world ∧ machine.world.effects <+: machine.world.effects :=
      ⟨rfl, List.prefix_rfl⟩
    have hresume := agree_resume hrespects' flight.command flight.pause hsame
    exact effects_prefix_settle _ _ _ _ _ _ hresume.1.2

/-- Nothing is taken back by a machine that is left alone. -/
theorem effects_prefix_drive (moves : Nat) (machine : Machine σ) :
    machine.world.effects <+: (drive host moves machine).world.effects := by
  induction moves generalizing machine with
  | zero => exact List.prefix_rfl
  | succ moves ih =>
    have hadvance : machine.world.effects <+: (machine.advance host).world.effects := by
      unfold advance
      split
      · next hstep => exact (step_of_step? hstep).keeps_effects
      · split
        · exact List.prefix_rfl
        · exact List.prefix_rfl
    exact hadvance.trans (ih _)

/-! ## Interrupted runs -/

/-- A run with interruptions stays beside the machine that is left alone. -/
theorem shadows_of_run {last : Machine σ} {moves : List (Move σ)}
    (hrun : Run host machine moves last) (hmoves : ∀ move ∈ moves, move.Interrupts)
    (hhost : host.IgnoresClock start.host) (h : Shadows host start machine other) :
    ∃ count, Shadows host start last (drive host count other) := by
  refine hrun.keeps
    (P := fun machine => ∃ count, Shadows host start machine (drive host count other))
    (fun move hmem => ?_) ⟨0, h⟩
  rintro before after ⟨count, hbefore⟩ hmove
  obtain ⟨more, hafter⟩ := hbefore.move hhost (hmoves move hmem) hmove
  exact ⟨count + more, by rwa [drive_add]⟩

/-- Interruptions change when something is done, but not what is done. From a reachable engine that
runs, with no loop latch set, and under a host that ignores the clock, a run that is paused,
stepped, resumed, stopped and logged out of at any moments has the effects that the machine has when
it is left alone, up to some moment. If that comes to an end, these are the first of all its
effects. -/
theorem interruptions_keep_effects {last : Machine σ} {moves : List (Move σ)}
    (hmachine : machine.Reachable host) (htask : machine.task = .ended)
    (hrunning : machine.engine.runState = .running) (hloggedIn : machine.engine.loggedIn = true)
    (hstop : machine.engine.stopAtLoop = false) (hpause : machine.engine.pauseAtLoop = false)
    (hhost : host.IgnoresClock machine.world.host) (hmoves : ∀ move ∈ moves, move.Interrupts)
    (hrun : Run host machine moves last) :
    (∃ count, last.world.effects <+:
        (drive host count (machine.launch .untilIdle)).world.effects) ∧
      ∀ library fuel final observations,
        runUntilIdle? host library fuel [] machine = some (final, observations) →
          last.world.effects <+: final.world.effects := by
  have hlaunched : Shadows host machine.world machine (machine.launch .untilIdle) := by
    have hsound := (sound_of_reachable hmachine).engine
    have hfree := hsound.unhindered hrunning hloggedIn hstop hpause
    exact .between ⟨World.alike_refl _, rfl, rfl, rfl, hsound.undropped⟩ (by simp [htask]) rfl
      hfree rfl
  obtain ⟨count, hlast⟩ := shadows_of_run hrun hmoves hhost hlaunched
  refine ⟨⟨count, hlast.keeps_effects⟩, fun library fuel final observations hfinal => ?_⟩
  obtain ⟨hrest, total, rfl⟩ := drive_of_run? hfinal
  rcases Nat.le_total count total with hle | hle
  · obtain ⟨more, rfl⟩ := Nat.le.dest hle
    rw [drive_add]
    exact hlast.keeps_effects.trans (effects_prefix_drive more _)
  · obtain ⟨more, rfl⟩ := Nat.le.dest hle
    rw [drive_add, hrest.drive_eq] at hlast
    exact hlast.keeps_effects

/-- A run that is paused and then stopped after its first action has done the first action only. -/
theorem interruptions_keep_effects_of_stop :
    ∃ machine last : Machine DryRun, last.world.effects = [.useAction "Smile"] ∧
      (∃ count, last.world.effects <+:
        (drive DryRun.host count (machine.launch .untilIdle)).world.effects) ∧
      ∀ library fuel final observations,
        runUntilIdle? DryRun.host library fuel [] machine = some (final, observations) →
          last.world.effects <+: final.world.effects := by
  let greeting : SavedMacro := { name := "greet", contents := "/ac Smile <wait.1>\n/ac Bow" }
  let moves : List (Move DryRun) :=
    [.launch .serving, .work, .call {} (.pause false), .wait 5000, .work, .call {} (.stop false)]
  have hfollow : (follow? DryRun.host [.call {} (.enqueue greeting none)]
      { engine := .ofSettings {}, world := { host := {} } }).map (fun machine =>
        decide (machine.task = .ended ∧ machine.engine.runState = .running ∧
          machine.engine.loggedIn = true ∧ machine.engine.stopAtLoop = false ∧
          machine.engine.pauseAtLoop = false ∧
          (follow? DryRun.host moves machine).map (·.world.effects) =
            some [.useAction "Smile"])) = some true := by decide +kernel
  obtain ⟨machine, hmachine, hseen⟩ := Option.map_eq_some_iff.mp hfollow
  obtain ⟨htask, hrunning, hloggedIn, hstop, hpause, hlast⟩ := of_decide_eq_true hseen
  obtain ⟨last, hmoved, heffects⟩ := Option.map_eq_some_iff.mp hlast
  have hreachable : machine.Reachable DryRun.host := ⟨_, _, _, run_of_follow? hmachine⟩
  have hmoves : ∀ move ∈ moves, move.Interrupts := by
    simp [moves, Move.Interrupts, Call.Queues]
  exact ⟨machine, last, heffects, interruptions_keep_effects hreachable htask hrunning hloggedIn
    hstop hpause (DryRun.ignoresClock _) hmoves (run_of_follow? hmoved)⟩

end Machine

end GameMacros
