import GameMacros.Proofs.Cancellation
import GameMacros.Proofs.Refinement

/-!
# The command under way

What becomes of a command that sleeps, whatever is called meanwhile. As long as no stop comes, its
activation is in front of the queue as it was when the command started. The command comes to its end
when it is left alone, and at that one moment its activation moves on or everything is discarded.
-/

namespace GameMacros

open Execution

/-! ## Sleeps -/

/-- A poll asks at the interval of its goal, and has not waited past its time limit. -/
def Pause.Regular : Pause → Prop
  | .trailing | .beforeRewind => True
  | .polling goal poll => poll.interval = goal.interval ∧ poll.waited ≤ poll.timeout

/-- A command sleeps only in a regular pause. -/
def Standing.Regular : Standing → Prop
  | .finished | .failed _ => True
  | .asleep _ pause => pause.Regular

/-- A poll that asks again keeps its interval and does not wait past its time limit. -/
theorem Poll.of_next_eq_asleep {α : Type} {poll later : Poll} {answer : Option α}
    (h : poll.next answer = .asleep later) :
    later.interval = poll.interval ∧ later.waited ≤ later.timeout := by
  cases answer with
  | some value => cases h
  | none =>
    dsimp only [next] at h
    split at h
    · cases h
    · next hagain =>
      cases h
      exact ⟨rfl, Nat.not_lt.mp hagain⟩

namespace Execution

variable {σ : Type} {scope : Scope σ} {command : Command} {world : World σ}

/-- A trailing wait is regular. -/
theorem regular_trailingWait : (trailingWait scope command world).Regular := by
  unfold trailingWait
  split <;> trivial

/-- What follows a goal that is reached is regular. -/
theorem regular_reached (goal : Goal) : (reached scope command world goal).Regular := by
  cases goal with
  | response name left =>
    dsimp only [reached]
    split
    · trivial
    · exact regular_trailingWait
  | requirement | addon => exact regular_trailingWait

/-- A poll stays regular if what follows a time-out is. -/
theorem regular_pursue_of {goal : Goal} {poll : Poll} (hpoll : (Pause.polling goal poll).Regular)
    (hlate : (afterTimeout scope command world goal).2.Regular) :
    (pursue scope command goal poll world).2.Regular := by
  unfold pursue ask
  split
  · exact regular_reached goal
  · next later hnext =>
    obtain ⟨hinterval, hwaited⟩ := Poll.of_next_eq_asleep hnext
    exact ⟨hinterval.trans hpoll.1, hwaited⟩
  · exact hlate

/-- Attempts at an action sleep in regular polls. -/
theorem regular_attempt (name : String) (left : Nat) (world : World σ) :
    (attempt scope command name left world).2.Regular := by
  induction left generalizing world with
  | zero => trivial
  | succ left ih =>
    have hfresh : (Pause.polling (.response name left)
        (freshPoll command (.response name left))).Regular := ⟨rfl, Nat.zero_le _⟩
    exact regular_pursue_of hfresh (ih _)

/-- A regular poll stays regular. -/
theorem regular_pursue {goal : Goal} {poll : Poll} (hpoll : (Pause.polling goal poll).Regular) :
    (pursue scope command goal poll world).2.Regular := by
  refine regular_pursue_of hpoll ?_
  cases goal with
  | response name left => exact regular_attempt name left world
  | requirement | addon => trivial

/-- An effect that the host may refuse is followed by a regular wait. -/
theorem regular_performUnlessRefused (effect : Effect) (refusal : Option Refusal)
    (missing : CommandFailure) :
    (performUnlessRefused scope command world effect refusal missing).2.Regular := by
  unfold performUnlessRefused
  cases refusal with
  | none => exact regular_trailingWait
  | some refusal => cases refusal <;> trivial

/-- A command starts to sleep only in a regular pause. -/
theorem regular_start (activation : Activation) :
    (start scope command activation world).standing.Regular := by
  have hfresh (goal : Goal) : (Pause.polling goal (freshPoll command goal)).Regular :=
    ⟨rfl, Nat.zero_le _⟩
  unfold start
  cases command.kind with
  | action name unsafeAction condition =>
    dsimp only [action]
    split
    · exact regular_trailingWait
    · split
      · trivial
      · split
        · exact regular_trailingWait
        · exact regular_attempt name _ world
  | click | item => exact regular_performUnlessRefused _ _ _
  | keys | native | wait => exact regular_trailingWait
  | target name =>
    dsimp only [target]
    split
    · exact regular_trailingWait
    · split
      · exact regular_trailingWait
      · split
        · trivial
        · exact regular_trailingWait
  | recipe name =>
    dsimp only [recipe]
    split
    · trivial
    · split
      · exact regular_trailingWait
      · trivial
  | require | waitAddon => exact regular_pursue (hfresh _)
  | loop count =>
    cases count with
    | none => trivial
    | some count =>
      dsimp only [loop]
      split <;> trivial
  | craft count =>
    dsimp only [craft]
    split
    · trivial
    · exact regular_trailingWait
  | runMacro name =>
    dsimp only [runMacro]
    split
    · trivial
    · split
      · trivial
      · exact regular_trailingWait

/-- A command that goes on sleeps only in a regular pause. -/
theorem regular_resume {pause : Pause} (h : pause.Regular) :
    (resume scope command pause world).2.Regular := by
  cases pause with
  | trailing => trivial
  | beforeRewind => exact regular_trailingWait
  | polling goal poll => exact regular_pursue h

/-- The pieces of a command that sleeps in a regular pause come to an end. -/
theorem exists_leads_resume {pause : Pause} (h : pause.Regular) (world : World σ) :
    ∃ result, Leads scope command (resume scope command pause world) result := by
  cases pause with
  | trailing => exact ⟨_, .finished world⟩
  | beforeRewind => exact ⟨_, leads_trailingWait world⟩
  | polling goal poll =>
    have hreached (world : World σ) :
        ∃ result, Leads scope command (world, reached scope command world goal) result := by
      cases goal with
      | response name left =>
        dsimp only [reached]
        split
        · exact ⟨_, .finished world⟩
        · exact ⟨_, leads_trailingWait world⟩
      | requirement | addon => exact ⟨_, leads_trailingWait world⟩
    have hlate (world : World σ) :
        ∃ result, Leads scope command (afterTimeout scope command world goal) result := by
      cases goal with
      | response name left => exact ⟨_, leads_attempt name left world⟩
      | requirement | addon => exact ⟨_, .failed world _⟩
    obtain ⟨result, hresult⟩ : ∃ result, Leads scope command
        (if (await scope goal ((poll.timeout - poll.waited) / goal.interval) world).2 then
          ((await scope goal ((poll.timeout - poll.waited) / goal.interval) world).1,
            reached scope command
              (await scope goal ((poll.timeout - poll.waited) / goal.interval) world).1 goal)
        else
          afterTimeout scope command
            (await scope goal ((poll.timeout - poll.waited) / goal.interval) world).1 goal)
        result := by
      split
      · exact hreached _
      · exact hlate _
    exact ⟨result, leads_pursue _ h.1 rfl h.2 hresult⟩

end Execution

namespace InFlight

/-- No stop came since the command started. -/
def Live (engine : Engine) (flight : InFlight) : Prop :=
  engine.signal.stoppedSince flight.seen = false

/-- The activation of the command is in front of the queue as it was when the command started. The
copy has what the command has changed about it. -/
def InFront (engine : Engine) (flight : InFlight) : Prop :=
  ∃ front others, engine.queue = front :: others ∧ front.current? = some flight.command ∧
    Course engine.settings flight.command front flight.activation

/-- What holds of a command under way beyond its soundness. -/
structure Steady (engine : Engine) (flight : InFlight) : Prop where
  regular : flight.pause.Regular
  inFront : flight.Live engine → flight.InFront engine

variable {engine next : Engine} {flight : InFlight}

/-- A command under way stays steady when the queue is kept or grows at its end. -/
theorem Steady.of_queue_eq_append (h : flight.Steady engine) {added : List Activation}
    (hsettings : next.settings = engine.settings) (hqueue : next.queue = engine.queue ++ added)
    (hsignal : next.signal = engine.signal) : flight.Steady next where
  regular := h.regular
  inFront hlive := by
    have hwas : flight.Live engine := by
      rw [Live, ← hsignal]
      exact hlive
    obtain ⟨front, others, hfront, hcurrent, hcourse⟩ := h.inFront hwas
    exact ⟨front, others ++ added, by rw [hqueue, hfront, List.cons_append], hcurrent,
      hsettings.symm ▸ hcourse⟩

end InFlight

namespace Engine

variable {engine next : Engine}

/-- A call that does not discard everything at once leaves the queue but for its end, and is no
stop. -/
theorem Control.queue_eq_append {call : Call} (h : Control engine call next)
    (hcall : ¬call.StopsAtOnce) :
    next.signal = engine.signal ∧ ∃ added, next.queue = engine.queue ++ added := by
  cases h with
  | queues _ program =>
    obtain ⟨_, _, _, hpush, _⟩ := engine.exists_push_eq program
    rw [hpush]
    exact ⟨rfl, _, rfl⟩
  | stops => exact absurd (.inl rfl) hcall
  | shutsDown => exact absurd (.inr rfl) hcall
  | unchanged | pausesAtLoop | pauses | resumes | steps | stopsAtLoop | logsIn | logsOut =>
    exact ⟨rfl, [], by simp⟩

end Engine

namespace Machine

variable {σ : Type} {host : Host σ} {machine next last : Machine σ} {moves : List (Move σ)}
  {flight : InFlight}

/-! ## What every command under way is like -/

/-- Wherever a piece of a command has led that is in front of the queue, what sleeps is steady. -/
theorem steady_settle (machine : Machine σ)
    (hfront : flight.Live machine.engine → flight.InFront machine.engine) {standing : Standing}
    (hstanding : standing.Regular) {other : InFlight} {wakeAt : Nat}
    (htask : (machine.settle host flight.activation flight.command flight.callee flight.seen
      standing).task = .suspended other wakeAt) :
    other.Steady (machine.settle host flight.activation flight.command flight.callee flight.seen
      standing).engine := by
  cases standing with
  | finished | failed => cases htask
  | asleep ms pause =>
    cases htask
    obtain ⟨runState, hasleep⟩ := machine.engine.exists_noteAsleep_eq
    simp only [settle, hasleep]
    exact ⟨hstanding, hfront⟩

/-- A step leaves only steady commands under way. -/
theorem Step.steady (h : Step host machine next)
    (hsteady : ∀ flight wakeAt, machine.task = .suspended flight wakeAt →
      flight.Steady machine.engine) {wakeAt : Nat} (htask : next.task = .suspended flight wakeAt) :
    flight.Steady next.engine := by
  cases h with
  | @starts engine front _ hjob =>
    obtain ⟨hunfinished, others, _, hqueue⟩ := (Engine.choice_of_nextJob hjob).of_run
    obtain ⟨command, hcurrent⟩ := Activation.exists_current?_of_not_finished hunfinished
    have hcourse := course_start ({ machine with engine }.scope host) command front machine.world
    have hregular : (start ({ machine with engine }.scope host) command front
        machine.world).standing.Regular := regular_start front
    rw [begin_of_current? hcurrent] at htask ⊢
    generalize start ({ machine with engine }.scope host) command front machine.world = started
      at hcourse hregular htask ⊢
    let begun : InFlight :=
      ⟨started.activation, command, started.callee, .trailing, engine.signal.count⟩
    have hfront : begun.Live engine → begun.InFront engine :=
      fun _ => ⟨front, others, hqueue, hcurrent, hcourse⟩
    exact steady_settle { machine with engine, world := started.world } hfront hregular htask
  | ends => cases htask
  | @rests engine hready =>
    obtain ⟨wake, task, hrest, hawake⟩ := exists_rest_eq { machine with engine } hready
    rw [hrest] at htask
    exact absurd htask (hawake flight wakeAt)
  | cancels => cases htask
  | @resumes sleeper time hasleep hlive =>
    obtain ⟨runState, hawake⟩ := machine.engine.exists_noteAwake_eq
    have hsleeper := hsteady sleeper time hasleep
    rw [wake_of_live hlive, hawake] at htask ⊢
    exact steady_settle { machine with engine.runState := runState, task := .ready, world := _ }
      hsleeper.inFront (regular_resume hsleeper.regular) htask
  | unparks => cases htask

/-- A move leaves only steady commands under way. -/
theorem steady_of_move? (hsound : machine.Sound)
    (hsteady : ∀ flight wakeAt, machine.task = .suspended flight wakeAt →
      flight.Steady machine.engine) {move : Move σ} (hmove : machine.move? host move = some next)
    {wakeAt : Nat} (htask : next.task = .suspended flight wakeAt) : flight.Steady next.engine := by
  cases move with
  | work => exact (step_of_step? hmove).steady hsteady htask
  | wait | drift =>
    cases hmove
    exact hsteady flight wakeAt htask
  | call library call =>
    cases hmove
    have hcontrol := machine.engine.control_handle library call
    have hwas := hsteady flight wakeAt htask
    by_cases hcall : call.StopsAtOnce
    · refine ⟨hwas.regular, fun hlive => ?_⟩
      have hsignal := (machine.engine.handle_of_stopsAtOnce hcall library).2.2.1
      have hstopped := Engine.stoppedSince_trigger (hsound.flight flight wakeAt htask).seen_le
      rw [← hsignal] at hstopped
      cases hstopped.symm.trans hlive
    · obtain ⟨hsignal, added, hqueue⟩ := hcontrol.queue_eq_append hcall
      exact hwas.of_queue_eq_append hcontrol.frame.settings_eq hqueue hsignal
  | launch mode =>
    simp only [move?] at hmove
    split at hmove
    · cases hmove
      cases htask
    · cases hmove

/-- Every command under way of a machine that can be reached is steady. -/
theorem steady_of_reachable (h : machine.Reachable host) {wakeAt : Nat}
    (htask : machine.task = .suspended flight wakeAt) : flight.Steady machine.engine := by
  have hnew (settings : Settings) (world : World σ) :
      ({ engine := .ofSettings settings, world } : Machine σ).Reachable host :=
    ⟨settings, world, [], .nil _⟩
  obtain ⟨settings, world, moves, hrun⟩ := h
  have hall := hrun.keeps
    (P := fun machine => machine.Sound ∧ ∀ flight wakeAt,
      machine.task = .suspended flight wakeAt → flight.Steady machine.engine)
    (fun _ _ => fun hbefore hmove => ⟨hbefore.1.move hmove, fun _ _ hlater =>
      steady_of_move? hbefore.1 hbefore.2 hmove hlater⟩)
    ⟨sound_of_reachable (hnew settings world), fun _ _ hnone => by cases hnone⟩
  exact hall.2 flight wakeAt htask

/-! ## How a command ends -/

/-- What becomes of the queue when the command under way ends or fails in a world. The activation in
front, with what the command has changed about it, moves on, and what it calls comes in front of it;
or the failure is reported and everything is discarded. Nothing is under way any more. -/
inductive Ended (host : Host σ) (flight : InFlight) (machine ended : Machine σ) :
    World σ × Option CommandFailure → Prop
  | finished {world : World σ} {front : Activation} {others : List Activation}
      (htask : ended.task = .ready) (hworld : ended.world = world)
      (hqueue : machine.engine.queue = front :: others)
      (hcurrent : front.current? = some flight.command)
      (hcourse : Course machine.engine.settings flight.command front flight.activation)
      (hended : ended.engine.queue =
        (flight.callee.map (.ofProgram machine.engine.nextId)).toList ++
          flight.activation.advance :: others) :
      Ended host flight machine ended (world, none)
  | failed {world : World σ} {failure : CommandFailure} (htask : ended.task = .ready)
      (hworld : ended.world =
        report host machine.engine.settings flight.activation.name failure world)
      (hended : ended.engine.queue = []) (hstate : ended.engine.runState = .stopped) :
      Ended host flight machine ended (world, some failure)

/-- A command that is in front of the queue ends or fails as its last piece demands. -/
theorem ended_settle (machine : Machine σ) (hfront : flight.InFront machine.engine)
    (runState : RunState) (result : World σ × Option CommandFailure) :
    Ended host flight machine
      (settle { machine with engine.runState := runState, world := result.1, task := .ready } host
        flight.activation flight.command flight.callee flight.seen
        (result.2.elim .finished .failed)) result := by
  obtain ⟨world, failure⟩ := result
  cases failure with
  | some failure => exact .failed rfl rfl rfl rfl
  | none =>
    obtain ⟨front, others, hqueue, hcurrent, hcourse⟩ := hfront
    refine .finished rfl rfl hqueue hcurrent hcourse ?_
    have hsame : { machine.engine with runState }.queue = front :: others := hqueue
    have hcommit := Engine.commit_of_front hsame hcourse.id_eq.symm flight.callee
    simp only [Option.elim_none, settle, hcommit]

/-- A command that wakes in time is settled as its next piece demands. Of the engine only the state
may have changed, and it does not wait. -/
theorem exists_wake_eq (host : Host σ) (machine : Machine σ) (hlive : flight.Live machine.engine) :
    ∃ runState, runState ≠ .waiting ∧ machine.wake host flight =
      settle
        { machine with
          engine.runState := runState
          task := .ready
          world := (resume (machine.scope host) flight.command flight.pause machine.world).1 }
        host flight.activation flight.command flight.callee flight.seen
        (resume (machine.scope host) flight.command flight.pause machine.world).2 := by
  obtain ⟨runState, hawake⟩ := machine.engine.exists_noteAwake_eq
  have hwaiting := machine.engine.noteAwake_ne_waiting
  have hwake : machine.wake host flight = _ := wake_of_live hlive
  rw [hawake] at hwaiting hwake
  exact ⟨runState, hwaiting, hwake⟩

/-- Left alone, a command that sleeps in a regular pause is settled as its last piece demands, if no
stop came for it. -/
theorem exists_works_resume (host : Host σ) (machine : Machine σ) (hregular : flight.pause.Regular)
    {wakeAt : Nat} (htask : machine.task = .suspended flight wakeAt)
    (hlive : flight.Live machine.engine) :
    ∃ (result : World σ × Option CommandFailure) (runState : RunState),
      Leads (machine.scope host) flight.command
        (resume (machine.scope host) flight.command flight.pause (machine.world.waitUntil wakeAt))
        result ∧
      Works host machine []
        (settle
          { machine with engine.runState := runState, world := result.1, task := .ready } host
          flight.activation flight.command flight.callee flight.seen
          (result.2.elim .finished .failed)) := by
  obtain ⟨result, hleads⟩ :
      ∃ result, Leads (machine.scope host) flight.command _ result :=
    exists_leads_resume hregular (machine.world.waitUntil wakeAt)
  have hlater : flight.Live (machine.waitUntil wakeAt).engine := hlive
  obtain ⟨runState, hwaiting, hwake⟩ := exists_wake_eq host (machine.waitUntil wakeAt) hlater
  have hsleep : Works host machine [] _ := works_sleep machine htask hlive
  rw [hwake] at hsleep
  have hends := works_settle
    { machine with engine.runState := runState, task := .ready } hwaiting hlive hleads
    flight.activation flight.callee
  exact ⟨result, runState, hleads, hsleep.trans hends⟩

/-- Left alone, a command that no stop came for comes to its end. Where its pieces lead depends only
on the command and on the world. -/
theorem exists_works_of_suspended (hmachine : machine.Reachable host) {wakeAt : Nat}
    (htask : machine.task = .suspended flight wakeAt) (hlive : flight.Live machine.engine) :
    ∃ result ended,
      Leads (machine.scope host) flight.command
        (resume (machine.scope host) flight.command flight.pause (machine.world.waitUntil wakeAt))
        result ∧
      Works host machine [] ended ∧ Ended host flight machine ended result := by
  have hsteady := steady_of_reachable hmachine htask
  obtain ⟨result, runState, hleads, hends⟩ :=
    exists_works_resume host machine hsteady.regular htask hlive
  exact ⟨result, _, hleads, hends, ended_settle machine (hsteady.inFront hlive) runState result⟩

/-! ## Along a run -/

/-- The command is under way. Its pause may be another one. -/
def Performs (machine : Machine σ) (flight : InFlight) : Prop :=
  ∃ pause wakeAt, machine.task = .suspended { flight with pause } wakeAt

/-- The step that wakes a command in time brings it into another pause or to its end. -/
theorem performs_or_ended (hmachine : machine.Reachable host) {wakeAt : Nat}
    (htask : machine.task = .suspended flight wakeAt) (hlive : flight.Live machine.engine)
    (hstep : machine.step? host = some next) :
    next.Performs flight ∧ next.engine.signal = machine.engine.signal ∧
        next.engine.queue = machine.engine.queue ∨
      ∃ result : World σ × Option CommandFailure,
        resume (machine.scope host) flight.command flight.pause machine.world =
          (result.1, result.2.elim .finished .failed) ∧
        Ended host flight machine next result := by
  have hfront := (steady_of_reachable hmachine htask).inFront hlive
  obtain ⟨runState, _, hwake⟩ := exists_wake_eq host machine hlive
  have hnext : next = machine.wake host flight := by
    unfold step? at hstep
    simp only [htask] at hstep
    split at hstep
    · exact (Option.some.inj hstep).symm
    · cases hstep
  rw [hnext, hwake]
  generalize resume (machine.scope host) flight.command flight.pause machine.world = piece
  obtain ⟨world, standing⟩ := piece
  cases standing with
  | finished =>
    exact .inr ⟨(world, none), rfl, ended_settle machine hfront runState (world, none)⟩
  | failed failure =>
    exact .inr ⟨(world, some failure), rfl,
      ended_settle machine hfront runState (world, some failure)⟩
  | asleep ms pause =>
    left
    obtain ⟨later, hasleep⟩ := Engine.exists_noteAsleep_eq { machine.engine with runState }
    exact ⟨⟨pause, _, rfl⟩, by simp only [settle, hasleep], by simp only [settle, hasleep]⟩

/-- As long as no stop comes, a move leaves the command under way and the queue as it is but for its
end, or brings the command to its end. -/
theorem performs_or_ended_of_move? (hmachine : machine.Reachable host) {wakeAt : Nat}
    (htask : machine.task = .suspended flight wakeAt) (hlive : flight.Live machine.engine)
    {move : Move σ} (hmove : machine.move? host move = some next)
    (hcall : ∀ library call, move = .call library call → ¬call.StopsAtOnce) :
    (next.Performs flight ∧ flight.Live next.engine ∧
        ∃ added, next.engine.queue = machine.engine.queue ++ added) ∨
      move = .work ∧ ∃ result : World σ × Option CommandFailure,
        resume (machine.scope host) flight.command flight.pause machine.world =
          (result.1, result.2.elim .finished .failed) ∧
        Ended host flight machine next result := by
  cases move with
  | work =>
    rcases performs_or_ended hmachine htask hlive hmove with ⟨hnext, hsignal, hqueue⟩ | hended
    · refine .inl ⟨hnext, ?_, [], by simp [hqueue]⟩
      rw [InFlight.Live, hsignal]
      exact hlive
    · exact .inr ⟨rfl, hended⟩
  | wait | drift =>
    cases hmove
    exact .inl ⟨⟨flight.pause, wakeAt, htask⟩, hlive, [], (List.append_nil _).symm⟩
  | call library call =>
    cases hmove
    have hcontrol := machine.engine.control_handle library call
    obtain ⟨hsignal, added, hqueue⟩ := hcontrol.queue_eq_append (hcall library call rfl)
    refine .inl ⟨⟨flight.pause, wakeAt, htask⟩, ?_, added, hqueue⟩
    change (machine.engine.handle library call).1.signal.stoppedSince flight.seen = false
    rw [hsignal]
    exact hlive
  | launch mode =>
    simp only [move?] at hmove
    split at hmove
    · next hended => cases hended.symm.trans htask
    · cases hmove

/-- What becomes, in a run without stops, of the command that was under way at its start. Either it
is under way all the time; or it is so until one step ends it, and nothing of it is left then. As
long as it is under way, the queue stays as it was but for what is queued at its end. -/
inductive Fate (host : Host σ) (flight : InFlight) (machine : Machine σ) (moves : List (Move σ))
    (last : Machine σ) : Prop
  | underWay {added : List Activation}
      (hall : ∀ entry ∈ trail host moves machine, entry.1.Performs flight)
      (hlast : last.Performs flight) (hqueue : last.engine.queue = machine.engine.queue ++ added) :
      Fate host flight machine moves last
  | ended {early late : List (Move σ)} {before after : Machine σ} {added : List Activation}
      {pause : Pause} {wakeAt : Nat} {result : World σ × Option CommandFailure}
      (hmoves : moves = early ++ .work :: late) (hearly : Run host machine early before)
      (hall : ∀ entry ∈ trail host early machine, entry.1.Performs flight)
      (hbefore : before.task = .suspended { flight with pause } wakeAt)
      (hqueue : before.engine.queue = machine.engine.queue ++ added)
      (hpiece : resume (before.scope host) flight.command pause before.world =
        (result.1, result.2.elim .finished .failed))
      (hstep : before.step? host = some after)
      (hended : Ended host { flight with pause } before after result)
      (hlate : Run host after late last) : Fate host flight machine moves last

/-- In a run without stops the command under way ends at most once, and until then nothing of it
shows in the queue. -/
theorem Run.fate (hrun : Run host machine moves last) (hmachine : machine.Reachable host)
    (hperforms : machine.Performs flight) (hlive : flight.Live machine.engine)
    (hcalls : ∀ library call, Move.call library call ∈ moves → ¬call.StopsAtOnce) :
    Fate host flight machine moves last := by
  induction hrun with
  | nil machine => exact .underWay (by simp [trail]) hperforms (List.append_nil _).symm
  | @cons machine next last move moves hmove hrest ih =>
    obtain ⟨pause, wakeAt, htask⟩ := hperforms
    have hcall : ∀ library call, move = .call library call → ¬call.StopsAtOnce :=
      fun library call heq => hcalls library call (heq ▸ List.mem_cons_self)
    rcases performs_or_ended_of_move? hmachine htask hlive hmove hcall with
      ⟨hnext, hlater, added, hqueue⟩ | ⟨rfl, result, hpiece, hended⟩
    · -- Still under way, perhaps with a later pause: what is said of the rest is said of the whole.
      have hreached : next.Reachable host := hmachine.run (.cons hmove (.nil _))
      have hall {moves : List (Move σ)}
          (hothers : ∀ entry ∈ trail host moves next, entry.1.Performs flight) :
          ∀ entry ∈ trail host (move :: moves) machine, entry.1.Performs flight := by
        rw [trail_cons hmove]
        exact List.forall_mem_cons.mpr ⟨⟨pause, wakeAt, htask⟩, hothers⟩
      have hlate : ∀ library call, Move.call library call ∈ moves → ¬call.StopsAtOnce :=
        fun library call hmem => hcalls library call (List.mem_cons_of_mem _ hmem)
      cases ih hreached hnext hlater hlate with
      | underWay hothers hlast hgrown =>
        exact .underWay (hall hothers) hlast (by rw [hgrown, hqueue, List.append_assoc])
      | ended hmoves hearly hothers hbefore hgrown hpiece hstep hended hlast =>
        exact .ended (by rw [hmoves, List.cons_append]) (.cons hmove hearly) (hall hothers) hbefore
          (by rw [hgrown, hqueue, List.append_assoc]) hpiece hstep hended hlast
    · exact .ended rfl (.nil _) (by simp [trail]) htask (List.append_nil _).symm hpiece hmove hended
        hrest

end Machine

end GameMacros
