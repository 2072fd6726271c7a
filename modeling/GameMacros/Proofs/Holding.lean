import GameMacros.Proofs.Flight

/-!
# Holding and stepping

A paused engine starts nothing but what it is allowed to start, one command for each step, and an
engine that is logged out starts nothing at all. Allowed steps are counted against commands that
start, move by move. The command that is under way when the engine is paused or logged out is not
held up: what it does and what becomes of its activation have no regard to how the engine is
controlled, as long as it is not stopped.
-/

namespace GameMacros

open Execution

namespace Engine

variable {engine : Engine}

/-! ## What only decides whether commands start -/

/-- The engine without what only decides whether commands start. -/
def bare (engine : Engine) : Engine :=
  { engine with
    runState := .stopped
    loggedIn := true
    pauseAtLoop := false
    stopAtLoop := false
    stepPending := false
    wake := .quiet }

/-- What only decides whether commands start may be taken away once and for all. -/
@[simp] theorem bare_bare (engine : Engine) : engine.bare.bare = engine.bare := rfl

/-- Going to sleep only changes the state. -/
@[simp] theorem noteAsleep_bare (engine : Engine) : engine.noteAsleep.bare = engine.bare := by
  unfold noteAsleep
  split <;> rfl

/-- Waking only changes the state. -/
@[simp] theorem noteAwake_bare (engine : Engine) : engine.noteAwake.bare = engine.bare := by
  unfold noteAwake
  split <;> rfl

/-- What a command commits does not depend on whether others may start. -/
theorem commit_bare (engine : Engine) (activation : Activation) (callee : Option Program) :
    engine.bare.commit activation callee = (engine.commit activation callee).bare := by
  have hqueue : engine.bare.queue = engine.queue := rfl
  unfold commit
  rw [hqueue]
  cases engine.queue with
  | nil => rfl
  | cons front others =>
    dsimp only
    split
    · cases callee <;> rfl
    · rfl

/-- A program is queued whether others may start or not. -/
theorem push_bare (engine : Engine) (program : Program) :
    (engine.bare.push program).bare = (engine.push program).bare := by
  unfold push
  split <;> split <;> rfl

/-- A macro is queued or refused whether others may start or not. -/
theorem handle_enqueue_bare (engine : Engine) (library : Library) (saved : SavedMacro)
    (loops : Option Nat) :
    (engine.bare.handle library (.enqueue saved loops)).1.bare =
      (engine.handle library (.enqueue saved loops)).1.bare := by
  have hsettings : engine.bare.settings = engine.settings := rfl
  have hreader : engine.bare.reader = engine.reader := rfl
  have hdown : engine.bare.isShutDown = engine.isShutDown := rfl
  simp only [handle, enqueue, hsettings, hreader, hdown]
  cases saved.program engine.settings engine.reader loops with
  | error error => rfl
  | ok program =>
    cases engine.isShutDown with
    | true => rfl
    | false => exact push_bare engine program

/-- What a call does apart from letting commands start or not does not depend on whether they may
start before. -/
theorem handle_bare (engine : Engine) (library : Library) (call : Call) :
    (engine.bare.handle library call).1.bare = (engine.handle library call).1.bare := by
  cases call with
  | enqueue saved loops => exact engine.handle_enqueue_bare library saved loops
  | enqueueByName name loops =>
    have hsaved := fun saved => engine.handle_enqueue_bare library saved loops
    simp only [handle, enqueueByName] at hsaved ⊢
    cases library.find name with
    | error error => rfl
    | ok saved => exact hsaved saved
  | pause atLoop =>
    cases atLoop with
    | true => rfl
    | false =>
      dsimp only [handle, pause]
      cases engine.runState <;> rfl
  | resume =>
    dsimp only [handle, resume]
    split <;> split <;> rfl
  | stepOnce =>
    dsimp only [handle, stepOnce]
    split <;> split <;> rfl
  | stop atLoop => cases atLoop <;> rfl
  | login | logout =>
    dsimp only [handle, setLoggedIn]
    split <;> split <;> rfl
  | shutDown | look | summary => rfl

/-- A pause at once, a logout and what else only decides whether commands start. -/
theorem bare_handle_of_holds {call : Call} (library : Library)
    (h : call = .pause false ∨ call = .logout) :
    (engine.handle library call).1.bare = engine.bare := by
  rcases h with rfl | rfl
  · simp only [handle, pause, Bool.false_eq_true, if_false]
    split <;> rfl
  · dsimp only [handle, setLoggedIn]
    split <;> rfl

/-! ## Steps -/

/-- A paused engine starts a command only when a step is allowed, and uses it up. -/
theorem Choice.steps_of_run {next : Engine} {front : Activation}
    (h : Choice engine (next, .run front)) (hpaused : engine.runState = .paused) :
    engine.stepPending = true ∧ next.stepPending = false := by
  cases h with
  | steppedOverLatch _ _ _ _ _ _ _ hstep | stepped _ _ _ _ _ hstep => exact ⟨hstep, rfl⟩
  | started _ _ _ _ hstate => simp [hpaused] at hstate

/-- A choice allows no step. -/
theorem Choice.stepPending_le {result : Engine × Job} (h : Choice engine result) :
    result.1.stepPending.toNat ≤ engine.stepPending.toNat := by
  cases h with
  | shutDown | loggedOut | stopped | pausedAtLoop | held | started => exact Nat.le_refl _
  | drained | stoppedAtLoop | steppedOverLatch | stepped => exact Nat.zero_le _

/-- Only the call that is made for it allows a step, and only while the engine is paused. -/
theorem Control.stepPending_le {call : Call} {next : Engine} (h : Control engine call next) :
    next.stepPending.toNat ≤ engine.stepPending.toNat ∨
      call = .stepOnce ∧ engine.runState = .paused := by
  cases h with
  | queues _ program =>
    obtain ⟨_, _, _, hpush, _⟩ := engine.exists_push_eq program
    rw [hpush]
    exact .inl (Nat.le_refl _)
  | steps hstate => exact .inr ⟨rfl, hstate⟩
  | unchanged | pausesAtLoop | stopsAtLoop | logsIn | logsOut => exact .inl (Nat.le_refl _)
  | pauses | resumes | stops | shutsDown => exact .inl (Nat.zero_le _)

/-- A choice leaves an engine as it is that is logged out. -/
theorem Choice.eq_of_loggedOut {result : Engine × Job} (h : Choice engine result)
    (hout : engine.loggedIn = false) : result.1 = engine := by
  cases h with
  | shutDown | loggedOut => rfl
  | stopped _ hlogin | drained _ hlogin | stoppedAtLoop _ hlogin | pausedAtLoop _ hlogin
  | steppedOverLatch _ hlogin | held _ hlogin | stepped _ hlogin | started _ hlogin =>
    cases hout.symm.trans hlogin

/-- Other calls than those made for it leave the queue as it is. -/
theorem Control.queue_eq {call : Call} {next : Engine} (h : Control engine call next)
    (hqueues : ¬call.Queues) (hstops : ¬call.StopsAtOnce) : next.queue = engine.queue := by
  cases h with
  | queues hcall => exact absurd hcall hqueues
  | stops => exact absurd (.inl rfl) hstops
  | shutsDown => exact absurd (.inr rfl) hstops
  | unchanged | pausesAtLoop | pauses | resumes | steps | stopsAtLoop | logsIn | logsOut => rfl

/-- A step that is allowed is forgotten when the engine goes on, stops or is paused anew. -/
theorem Sound.stepPending_handle (h : engine.Sound) (library : Library) {call : Call}
    (hcall : call = .resume ∨ call.StopsAtOnce ∨
      call = .pause false ∧ engine.runState ≠ .paused) :
    (engine.handle library call).1.stepPending = false := by
  have hnone (hmoving : engine.runState ≠ .paused) : engine.stepPending = false := by
    rw [Bool.eq_false_iff]
    exact fun hpending => hmoving (h.paused_of_stepPending hpending)
  rcases hcall with rfl | hstops | ⟨rfl, hmoving⟩
  · dsimp only [handle, resume]
    split
    · rfl
    · next hmoving => exact hnone hmoving
  · rcases hstops with rfl | rfl <;> rfl
  · simp only [handle, pause, Bool.false_eq_true, if_false]
    split
    · rfl
    · rfl
    · exact hnone hmoving
    · exact hnone hmoving

end Engine

namespace Machine

variable {σ : Type} {host : Host σ} {machine next last : Machine σ} {moves : List (Move σ)}
  {flight : InFlight}

/-! ## A command under way has no regard to how the engine is controlled -/

/-- The machine without what only decides whether commands start. -/
def bare (machine : Machine σ) : Machine σ :=
  { machine with engine := machine.engine.bare }

/-- Where a piece of a command leads has no regard to whether others may start. -/
theorem settle_bare (machine : Machine σ) (activation : Activation) (command : Command)
    (callee : Option Program) (seen : Nat) (standing : Standing) :
    (machine.bare.settle host activation command callee seen standing).bare =
      (machine.settle host activation command callee seen standing).bare := by
  cases standing with
  | finished =>
    have hcommit := machine.engine.commit_bare activation callee
    simp only [settle, bare, hcommit, Engine.bare_bare]
  | failed failure => rfl
  | asleep ms pause => simp only [settle, bare, Engine.noteAsleep_bare, Engine.bare_bare]

/-- A command wakes without regard to whether others may start. -/
theorem wake_bare (machine : Machine σ) (flight : InFlight) :
    (machine.bare.wake host flight).bare = (machine.wake host flight).bare := by
  have hsignal : machine.bare.engine.signal = machine.engine.signal := rfl
  have hscope : machine.bare.scope host = machine.scope host := rfl
  have hworld : machine.bare.world = machine.world := rfl
  cases hstopped : machine.engine.signal.stoppedSince flight.seen with
  | true =>
    rw [wake_of_stopped (hsignal ▸ hstopped), wake_of_stopped hstopped]
    simp only [bare, Engine.noteAwake_bare, Engine.bare_bare]
  | false =>
    rw [wake_of_live (hsignal ▸ hstopped), wake_of_live hstopped, hscope, hworld]
    generalize resume (machine.scope host) flight.command flight.pause machine.world = piece
    -- Noting that the command wakes may change the run state, which a bare machine does not keep.
    rw [← settle_bare,
      ← settle_bare
        { machine with engine := machine.engine.noteAwake, task := .ready, world := piece.1 }]
    simp only [bare, Engine.noteAwake_bare, Engine.bare_bare]

/-- While a command sleeps, a move has no regard to whether others may start. -/
theorem move?_bare {wakeAt : Nat} (htask : machine.task = .suspended flight wakeAt)
    (move : Move σ) :
    (machine.bare.move? host move).map bare = (machine.move? host move).map bare := by
  have hasleep : machine.bare.task = .suspended flight wakeAt := htask
  have hsignal : machine.bare.engine.signal = machine.engine.signal := rfl
  have hworld : machine.bare.world = machine.world := rfl
  cases move with
  | work =>
    simp only [move?, step?, htask, hasleep, hsignal, hworld]
    split
    · exact congrArg some (wake_bare machine flight)
    · rfl
  | wait | drift => rfl
  | call library call =>
    have hhandle := machine.engine.handle_bare library call
    simp only [move?, handle, bare, Option.map_some, hhandle]
  | launch mode => simp only [move?, htask, hasleep, reduceCtorEq, if_false]

/-- What moves the machine while a command sleeps moves it as well when others may start or may
not. -/
theorem Run.of_bare_eq (hrun : Run host machine moves last)
    (hall : ∀ entry ∈ trail host moves machine, ∃ flight wakeAt,
      entry.1.task = .suspended flight wakeAt) {other : Machine σ}
    (hother : other.bare = machine.bare) :
    ∃ reached, Run host other moves reached ∧ reached.bare = last.bare := by
  induction hrun generalizing other with
  | nil => exact ⟨other, .nil _, hother⟩
  | @cons machine next last move moves hmove _ ih =>
    rw [trail_cons hmove] at hall
    obtain ⟨⟨flight, wakeAt, htask⟩, hlater⟩ := List.forall_mem_cons.mp hall
    have hasleep : other.task = .suspended flight wakeAt :=
      (congrArg Machine.task hother).trans htask
    have hmap : (other.move? host move).map bare = some next.bare := by
      rw [← move?_bare hasleep, hother, move?_bare htask, hmove, Option.map_some]
    obtain ⟨middle, hstep, hmiddle⟩ := Option.map_eq_some_iff.mp hmap
    obtain ⟨reached, hrest, hreached⟩ := ih hlater hmiddle
    exact ⟨reached, .cons hstep hrest, hreached⟩

/-! ## Steps that are allowed and commands that start -/

/-- A command starts with the move. -/
def startsCommand (entry : Machine σ × Move σ) : Bool :=
  match entry.2 with
  | .work => entry.1.starting?.isSome
  | .wait _ | .drift _ | .call _ _ | .launch _ => false

/-- The move allows a step. A step that is allowed already is not allowed twice. -/
def allowsStep (entry : Machine σ × Move σ) : Bool :=
  match entry.2 with
  | .call _ .stepOnce =>
    decide (entry.1.engine.runState = .paused) && !entry.1.engine.stepPending
  | _ => false

/-- Where a piece of a command leads, no step is allowed that was not. -/
theorem stepPending_settle_le (machine : Machine σ) (activation : Activation) (command : Command)
    (callee : Option Program) (seen : Nat) (standing : Standing) :
    (machine.settle host activation command callee seen standing).engine.stepPending.toNat ≤
      machine.engine.stepPending.toNat := by
  cases standing with
  | finished =>
    obtain ⟨heq, _⟩ | ⟨_, _, _, _, heq⟩ := Engine.commit_cases machine.engine activation callee
    · simp only [settle, heq, Nat.le_refl]
    · simp only [settle, heq, Nat.le_refl]
  | failed failure => exact Nat.zero_le _
  | asleep ms pause =>
    obtain ⟨runState, hasleep⟩ := machine.engine.exists_noteAsleep_eq
    simp only [settle, hasleep, Nat.le_refl]

/-- The start of a command allows no step. -/
theorem stepPending_begin_le (machine : Machine σ) (activation : Activation) :
    (machine.begin host activation).engine.stepPending.toNat ≤
      machine.engine.stepPending.toNat := by
  cases hcurrent : activation.current? with
  | none => simp only [begin, hcurrent, Nat.le_refl]
  | some command =>
    rw [begin_of_current? hcurrent]
    exact stepPending_settle_le { machine with world := _ } _ _ _ _ _

/-- A step of the machine that starts no command allows no step. -/
theorem stepPending_step_le (hstep : Step host machine next) (hquiet : machine.starting? = none) :
    next.engine.stepPending.toNat ≤ machine.engine.stepPending.toNat := by
  cases hstep with
  | @starts _ front htask hjob =>
    have hstarting : machine.starting? = some front := by simp only [starting?, htask, hjob]
    cases hquiet.symm.trans hstarting
  | ends _ hjob => exact (Engine.choice_of_nextJob hjob).stepPending_le
  | @rests engine htask hjob =>
    obtain ⟨wake, task, hrest, _⟩ := exists_rest_eq { machine with engine } htask
    rw [hrest]
    exact (Engine.choice_of_nextJob hjob).stepPending_le
  | cancels =>
    obtain ⟨runState, hawake⟩ := machine.engine.exists_noteAwake_eq
    have hsame : machine.engine.noteAwake.stepPending = machine.engine.stepPending := by rw [hawake]
    exact Nat.le_of_eq (congrArg Bool.toNat hsame)
  | resumes _ hlive =>
    obtain ⟨runState, _, hwake⟩ := exists_wake_eq host machine hlive
    rw [hwake]
    exact stepPending_settle_le
      { machine with engine.runState := runState, task := .ready, world := _ } _ _ _ _ _
  | unparks => exact Nat.le_refl _

/-- A command that starts while the engine is paused uses up the step that is allowed. -/
theorem stepPending_of_starting? (hpaused : machine.engine.runState = .paused) {front : Activation}
    (hstarting : machine.starting? = some front) (hstep : machine.step? host = some next) :
    machine.engine.stepPending = true ∧ next.engine.stepPending = false := by
  obtain ⟨htask, engine, hjob⟩ := nextJob_of_starting? hstarting
  obtain ⟨hpending, hused⟩ := (Engine.choice_of_nextJob hjob).steps_of_run hpaused
  have hnext : ({ machine with engine } : Machine σ).begin host front = next := by
    simpa only [step?, htask, choose, hjob, Option.some.injEq] using hstep
  have hle :
      (({ machine with engine } : Machine σ).begin host front).engine.stepPending.toNat ≤ _ :=
    stepPending_begin_le { machine with engine } front
  rw [hnext, hused] at hle
  exact ⟨hpending, Bool.toNat_eq_zero.mp (Nat.le_zero.mp hle)⟩

/-- While the engine is paused, each command that starts uses up a step, and each step is allowed by
a call. -/
theorem steps_balance (hpaused : machine.engine.runState = .paused) {move : Move σ}
    (hmove : machine.move? host move = some next) :
    (startsCommand (machine, move)).toNat + next.engine.stepPending.toNat ≤
      (allowsStep (machine, move)).toNat + machine.engine.stepPending.toNat := by
  cases move with
  | work =>
    have hallows : (allowsStep (machine, Move.work)).toNat = 0 := rfl
    have hstarts : startsCommand (machine, Move.work) = machine.starting?.isSome := rfl
    rw [hallows, hstarts, Nat.zero_add]
    cases hstarting : machine.starting? with
    | none =>
      rw [Option.isSome_none, Bool.toNat_false, Nat.zero_add]
      exact stepPending_step_le (step_of_step? hmove) hstarting
    | some front =>
      obtain ⟨hpending, hused⟩ := stepPending_of_starting? hpaused hstarting hmove
      rw [hpending, hused]
      exact Nat.le_refl _
  | wait | drift =>
    cases hmove
    exact Nat.add_le_add_left (Nat.le_refl _) 0
  | launch mode =>
    simp only [move?] at hmove
    split at hmove
    · cases hmove
      exact Nat.add_le_add_left (Nat.le_refl _) 0
    · cases hmove
  | call library call =>
    cases hmove
    have hstarts : (startsCommand (machine, Move.call library call)).toNat = 0 := rfl
    rw [hstarts, Nat.zero_add]
    rcases (machine.engine.control_handle library call).stepPending_le with hle | ⟨rfl, _⟩
    · exact Nat.le_trans hle (Nat.le_add_left _ _)
    · have hallows : allowsStep (machine, Move.call library .stepOnce) =
          !machine.engine.stepPending := by
        simp only [allowsStep, hpaused, decide_true, Bool.true_and]
      rw [hallows]
      cases machine.engine.stepPending with
      | true => exact Bool.toNat_le _
      | false => exact Bool.toNat_le _

/-- Over a stretch of a run in which the engine is paused, no more commands start than steps were
allowed, counting one that was allowed before. -/
theorem Run.steps_balance (hrun : Run host machine moves last)
    (hpaused : ∀ entry ∈ trail host moves machine, entry.1.engine.runState = .paused) :
    (trail host moves machine).countP startsCommand + last.engine.stepPending.toNat ≤
      (trail host moves machine).countP allowsStep + machine.engine.stepPending.toNat := by
  induction hrun with
  | nil => exact Nat.le_refl _
  | @cons machine next last move moves hmove _ ih =>
    rw [trail_cons hmove] at hpaused ⊢
    obtain ⟨hhere, hlater⟩ := List.forall_mem_cons.mp hpaused
    have hstate : machine.engine.runState = .paused := hhere
    have hfirst := Machine.steps_balance hstate hmove
    have hothers := ih hlater
    have hcount (counts : Bool) : (if counts = true then 1 else 0) = counts.toNat := by
      cases counts <;> rfl
    rw [List.countP_cons, List.countP_cons, hcount, hcount]
    omega

/-! ## What holds of every machine -/

/-- Where the piece of a command leads that the next step carries out, if it carries one out. -/
def outcome? (host : Host σ) (machine : Machine σ) : Option Standing :=
  match machine.task with
  | .ready =>
    machine.starting?.bind fun front =>
      front.current?.map fun command =>
        (start (machine.scope host) command front machine.world).standing
  | .suspended flight wakeAt =>
    if machine.engine.signal.stoppedSince flight.seen then none
    else if wakeAt ≤ machine.world.now then
      some (resume (machine.scope host) flight.command flight.pause machine.world).2
    else none
  | .parked | .ended => none

/-- The next step carries out a piece of a command that fails. It does so for the activation, and
leaves the host in the world. -/
inductive Fails (host : Host σ) (machine : Machine σ) (failure : CommandFailure) :
    Activation → World σ → Prop
  | starts {front : Activation} {command : Command} (hstarting : machine.starting? = some front)
      (hcurrent : front.current? = some command)
      (hfailed : (start (machine.scope host) command front machine.world).standing =
        .failed failure) :
      Fails host machine failure front
        (start (machine.scope host) command front machine.world).world
  | resumes {flight : InFlight} {wakeAt : Nat} (htask : machine.task = .suspended flight wakeAt)
      (hlive : flight.Live machine.engine) (hdue : wakeAt ≤ machine.world.now)
      (hfailed : (resume (machine.scope host) flight.command flight.pause machine.world).2 =
        .failed failure) :
      Fails host machine failure flight.activation
        (resume (machine.scope host) flight.command flight.pause machine.world).1

/-- A piece that fails does so for some activation. -/
theorem exists_fails {failure : CommandFailure}
    (h : machine.outcome? host = some (.failed failure)) :
    ∃ worker world, Fails host machine failure worker world := by
  unfold outcome? at h
  split at h
  next htask =>
    obtain ⟨front, hstarting, hpiece⟩ := Option.bind_eq_some_iff.mp h
    obtain ⟨command, hcurrent, hfailed⟩ := Option.map_eq_some_iff.mp hpiece
    exact ⟨_, _, .starts hstarting hcurrent hfailed⟩
  next flight wakeAt htask =>
    split at h
    · cases h
    next hlive =>
    split at h
    · next hdue =>
      exact ⟨_, _, .resumes htask (Bool.eq_false_iff.mpr hlive) hdue (Option.some.inj h)⟩
    · cases h
  next => cases h
  next => cases h

/-- A command that fails is reported, and brings the engine to a halt. -/
theorem Fails.step?_eq {failure : CommandFailure} {worker : Activation} {world : World σ}
    (h : Fails host machine failure worker world) :
    machine.step? host = some
      { machine with
        engine := machine.engine.halt
        world := report host machine.engine.settings worker.name failure world
        task := .ready } := by
  cases h with
  | @starts _ command hstarting hcurrent hfailed =>
    obtain ⟨htask, engine, hjob⟩ := nextJob_of_starting? hstarting
    have hchoice := Engine.choice_of_nextJob hjob
    have hframe : machine.engine.Frame engine := hchoice.frame
    have hhalt : engine.halt = machine.engine.halt := hchoice.halt_eq
    have hscope : ({ machine with engine } : Machine σ).scope host = machine.scope host :=
      scope_eq_of_frame hframe
    have hstep :
        machine.step? host = some (({ machine with engine } : Machine σ).begin host worker) := by
      simp only [step?, htask, choose, hjob]
    have hname := (course_start (machine.scope host) command worker machine.world).name_eq
    rw [hstep, begin_of_current? hcurrent, hscope, hfailed]
    simp only [settle, hhalt, hframe.settings_eq, hname]
  | @resumes flight wakeAt htask hlive hdue hfailed =>
    obtain ⟨runState, _, hwake⟩ := exists_wake_eq host machine hlive
    have hstep : machine.step? host = some (machine.wake host flight) := by
      simp only [step?, htask, decide_eq_true hdue, Bool.or_true, if_true]
    rw [hstep, hwake, hfailed]
    rfl

/-- A command that fails brings the engine to a halt. -/
theorem halts_of_failed {failure : CommandFailure}
    (h : machine.outcome? host = some (.failed failure)) :
    ∃ next, machine.step? host = some next ∧ next.engine.queue = [] ∧
      next.engine.runState = .stopped ∧ next.engine.stepPending = false := by
  obtain ⟨worker, world, hfails⟩ := exists_fails h
  exact ⟨_, hfails.step?_eq, rfl, rfl, rfl⟩

/-- The command under way is not held up by a call that turns one machine into another. -/
structure CarriesOn (host : Host σ) (flight : InFlight) (wakeAt : Nat) (machine held : Machine σ) :
    Prop where
  /-- Whatever happens while it is under way happens in the same way without that call: it does the
  same at the same times, and the same becomes of the queue. -/
  same : ∀ moves last, Run host machine moves last →
    (∀ entry ∈ trail host moves machine, ∃ flight wakeAt,
      entry.1.task = .suspended flight wakeAt) →
    ∃ reached, Run host held moves reached ∧ reached.world = last.world ∧
      reached.task = last.task ∧ reached.engine.queue = last.engine.queue
  /-- Left alone, it comes to the end that its pieces lead to. -/
  ends : ∃ result ended,
    Leads (machine.scope host) flight.command
      (resume (machine.scope host) flight.command flight.pause (machine.world.waitUntil wakeAt))
      result ∧
    Works host held [] ended ∧ Ended host flight held ended result
  /-- In a run without stops, one step at most brings it to its end, and its activation stays as it
  is in the queue until then. -/
  fate : ∀ moves last, Run host held moves last →
    (∀ library call, Move.call library call ∈ moves → ¬call.StopsAtOnce) →
    Fate host flight held moves last

/-- A pause at once and a logout do not hold up the command under way. -/
theorem carriesOn_of_holds (hmachine : machine.Reachable host) {wakeAt : Nat}
    (htask : machine.task = .suspended flight wakeAt) (hlive : flight.Live machine.engine)
    (library : Library) {call : Call} (hcall : call = .pause false ∨ call = .logout) :
    CarriesOn host flight wakeAt machine (machine.handle library call).1 := by
  let held := (machine.handle library call).1
  have hengine : held.engine.bare = machine.engine.bare :=
    Engine.bare_handle_of_holds library hcall
  have hbare : held.bare = machine.bare := congrArg (fun engine => { machine with engine }) hengine
  have hmove : machine.move? host (.call library call) = some held := rfl
  have hreachable : held.Reachable host := hmachine.run (.cons hmove (.nil _))
  have hasleep : held.task = .suspended flight wakeAt := htask
  have hheld : flight.Live held.engine := by
    have hsignal : held.engine.signal = machine.engine.signal := (congrArg Engine.signal hengine :)
    rw [InFlight.Live, hsignal]
    exact hlive
  have hscope : held.scope host = machine.scope host := by
    have hsettings : held.engine.settings = machine.engine.settings :=
      (congrArg Engine.settings hengine :)
    have hreader : held.engine.reader = machine.engine.reader :=
      (congrArg Engine.reader hengine :)
    simp only [scope, hsettings, hreader]
  refine ⟨fun moves last hrun hall => ?_, ?_, fun moves last hrun hcalls => ?_⟩
  · obtain ⟨reached, hreached, hlast⟩ := hrun.of_bare_eq hall hbare
    exact ⟨reached, hreached, (congrArg Machine.world hlast :), (congrArg Machine.task hlast :),
      (congrArg (fun machine => machine.engine.queue) hlast :)⟩
  · have hends := exists_works_of_suspended hreachable hasleep hheld
    rwa [hscope] at hends
  · exact hrun.fate hreachable ⟨flight.pause, wakeAt, hasleep⟩ hheld hcalls

/-- What an engine does that is paused, stepped or logged out. -/
structure Holds (host : Host σ) (machine : Machine σ) : Prop where
  /-- A command starts only when there is a game to play and the engine is not shut down, and then
  only if it runs, or is paused and uses up a step that is allowed. -/
  starts : ∀ front, machine.starting? = some front → ∃ next, machine.step? host = some next ∧
    machine.engine.loggedIn = true ∧ machine.engine.isShutDown = false ∧
      (machine.engine.runState = .running ∨
        machine.engine.runState = .paused ∧ machine.engine.stepPending = true ∧
          next.engine.stepPending = false)
  /-- While the engine stays paused, no more commands start than steps are allowed, with one that
  was allowed before. Allowing a step twice counts once. -/
  steps : ∀ moves last, Run host machine moves last →
    (∀ entry ∈ trail host moves machine, entry.1.engine.runState = .paused) →
    (trail host moves machine).countP startsCommand + last.engine.stepPending.toNat ≤
      (trail host moves machine).countP allowsStep + machine.engine.stepPending.toNat
  /-- Only a paused engine has a step allowed. -/
  step_paused : machine.engine.stepPending = true → machine.engine.runState = .paused
  /-- A step that is allowed is forgotten when the engine goes on, stops or is paused anew. -/
  step_gone : ∀ library call,
    call = .resume ∨ call.StopsAtOnce ∨
      call = .pause false ∧ machine.engine.runState ≠ .paused →
    (machine.engine.handle library call).1.stepPending = false
  /-- A step that is allowed is forgotten when a command fails. -/
  step_gone_of_failed : ∀ failure, machine.outcome? host = some (.failed failure) →
    ∃ next, machine.step? host = some next ∧ next.engine.queue = [] ∧
      next.engine.runState = .stopped ∧ next.engine.stepPending = false
  /-- A command under way is not held up when the engine is paused or logged out. -/
  carriesOn : ∀ flight wakeAt, machine.task = .suspended flight wakeAt →
    flight.Live machine.engine → ∀ library call, call = .pause false ∨ call = .logout →
    CarriesOn host flight wakeAt machine (machine.handle library call).1
  /-- While the engine is logged out, the queue changes only when something is queued, when the
  engine is stopped or shut down, or when the command under way ends or fails. -/
  logged_out : machine.engine.loggedIn = false → ∀ move next,
    machine.move? host move = some next →
    next.engine.queue = machine.engine.queue ∨
      (∃ library call, move = .call library call ∧ (call.Queues ∨ call.StopsAtOnce)) ∨
      move = .work ∧ ∃ flight wakeAt result, machine.task = .suspended flight wakeAt ∧
        Ended host flight machine next result

/-- A command starts only in an open engine that runs or uses up a step. -/
theorem starts_of_sound (hsound : machine.Sound) {front : Activation}
    (hstarting : machine.starting? = some front) :
    ∃ next, machine.step? host = some next ∧
      machine.engine.loggedIn = true ∧ machine.engine.isShutDown = false ∧
        (machine.engine.runState = .running ∨
          machine.engine.runState = .paused ∧ machine.engine.stepPending = true ∧
            next.engine.stepPending = false) := by
  obtain ⟨htask, engine, hjob⟩ := nextJob_of_starting? hstarting
  have hchoice := Engine.choice_of_nextJob hjob
  obtain ⟨hup, hlogin⟩ := hchoice.open_of_run
  have hstep : machine.step? host = some (machine.choose host) := by simp only [step?, htask]
  refine ⟨_, hstep, hlogin, hup, ?_⟩
  cases hstate : machine.engine.runState with
  | running => exact .inl rfl
  | paused => exact .inr ⟨rfl, stepPending_of_starting? hstate hstarting hstep⟩
  | waiting =>
    obtain ⟨flight, wakeAt, hsuspended⟩ := hsound.suspended_of_waiting hstate
    cases htask.symm.trans hsuspended
  | stopped =>
    have hnil := hsound.engine.queue_eq_nil_iff.mpr hstate
    have hmem := hchoice.mem_of_run
    simp [hnil] at hmem

/-- While the engine is logged out, the queue changes only with the command under way or by calls
that are made for that. -/
theorem queue_of_loggedOut (hmachine : machine.Reachable host)
    (hout : machine.engine.loggedIn = false) {move : Move σ}
    (hmove : machine.move? host move = some next) :
    next.engine.queue = machine.engine.queue ∨
      (∃ library call, move = .call library call ∧ (call.Queues ∨ call.StopsAtOnce)) ∨
      move = .work ∧ ∃ flight wakeAt result, machine.task = .suspended flight wakeAt ∧
        Ended host flight machine next result := by
  cases move with
  | work =>
    cases step_of_step? hmove with
    | starts _ hjob =>
      have hin := (Engine.choice_of_nextJob hjob).open_of_run.2
      cases hout.symm.trans hin
    | ends _ hjob =>
      have hsame := (Engine.choice_of_nextJob hjob).eq_of_loggedOut hout
      exact .inl (congrArg Engine.queue hsame)
    | @rests engine htask hjob =>
      obtain ⟨wake, task, hrest, _⟩ := exists_rest_eq { machine with engine } htask
      have hsame := (Engine.choice_of_nextJob hjob).eq_of_loggedOut hout
      rw [hrest]
      exact .inl (congrArg Engine.queue hsame :)
    | cancels => exact .inl machine.engine.noteAwake_queue
    | @resumes flight wakeAt htask hlive =>
      rcases performs_or_ended hmachine htask hlive hmove with ⟨_, _, hqueue⟩ | ⟨result, _, hended⟩
      · exact .inl hqueue
      · exact .inr (.inr ⟨rfl, flight, wakeAt, result, htask, hended⟩)
    | unparks => exact .inl rfl
  | wait | drift =>
    cases hmove
    exact .inl rfl
  | call library call =>
    cases hmove
    by_cases hcall : call.Queues ∨ call.StopsAtOnce
    · exact .inr (.inl ⟨library, call, rfl, hcall⟩)
    · obtain ⟨hqueues, hstops⟩ := not_or.mp hcall
      exact .inl ((machine.engine.control_handle library call).queue_eq hqueues hstops)
  | launch mode =>
    simp only [move?] at hmove
    split at hmove
    · cases hmove
      exact .inl rfl
    · cases hmove

/-- Whatever came before, a paused engine starts one command for each step that is allowed, an
engine that is logged out starts none, and the command under way carries on to its end. -/
theorem holds_of_reachable (hmachine : machine.Reachable host) : machine.Holds host where
  starts _ hstarting := starts_of_sound (sound_of_reachable hmachine) hstarting
  steps _ _ hrun hpaused := hrun.steps_balance hpaused
  step_paused := (sound_of_reachable hmachine).engine.paused_of_stepPending
  step_gone library _ hcall :=
    (sound_of_reachable hmachine).engine.stepPending_handle library hcall
  step_gone_of_failed _ hfailed := halts_of_failed hfailed
  carriesOn _ _ htask hlive library _ hcall :=
    carriesOn_of_holds hmachine htask hlive library hcall
  logged_out hout _ _ hmove := queue_of_loggedOut hmachine hout hmove

/-- An engine that is paused while its command sleeps, and is allowed a step, can be reached. -/
theorem holds_of_paused_asleep :
    ∃ (machine : Machine DryRun) (flight : InFlight) (wakeAt : Nat),
      machine.Reachable DryRun.host ∧ machine.task = .suspended flight wakeAt ∧
        flight.Live machine.engine ∧ machine.engine.runState = .paused ∧
        machine.engine.stepPending = true ∧ machine.Holds DryRun.host := by
  let moves : List (Move DryRun) :=
    [.call {} (.enqueue { name := "twice", contents := "/loop 2" } none), .launch .serving, .work,
      .call {} (.pause false), .call {} .stepOnce]
  have hfollow : (follow? DryRun.host moves
      { engine := .ofSettings {}, world := { host := {} } }).map (fun machine =>
        decide (machine.wakeTime?.isSome = true ∧ machine.engine.signal = {} ∧
          machine.engine.runState = .paused ∧ machine.engine.stepPending = true)) =
      some true := by decide +kernel
  obtain ⟨machine, hmachine, hseen⟩ := Option.map_eq_some_iff.mp hfollow
  obtain ⟨hasleep, hsignal, hpaused, hpending⟩ := of_decide_eq_true hseen
  have hreachable : machine.Reachable DryRun.host := ⟨_, _, moves, run_of_follow? hmachine⟩
  cases htask : machine.task with
  | suspended flight wakeAt =>
    exact ⟨machine, flight, wakeAt, hreachable, htask,
      by simp [InFlight.Live, hsignal, StopSignal.stoppedSince], hpaused, hpending,
      holds_of_reachable hreachable⟩
  | ready | parked | ended => simp [wakeTime?, htask] at hasleep

end Machine

end GameMacros
