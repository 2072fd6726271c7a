import GameMacros.Proofs.Refinement

/-!
# Loop latches

A pause or a stop that waits for the next loop is noted in a latch. Next to a machine with latches
stands the same machine without them. The two do the same until a loop or a craft gate is next;
there the latches act, and the machine with latches starts nothing any more when it is left alone.
So a latch cuts the history of commands off at the first loop or craft gate, and changes nothing
else.
-/

namespace GameMacros

namespace Engine

variable {engine : Engine}

/-- The engine without a pause or a stop that waits for a loop. -/
def unlatched (engine : Engine) : Engine :=
  { engine with pauseAtLoop := false, stopAtLoop := false }

/-- A pause or a stop waits for a loop. -/
def Latched (engine : Engine) : Prop :=
  engine.stopAtLoop = true ∨ engine.pauseAtLoop = true

/-- A loop or a craft gate is what the engine would execute next. -/
def AtBoundary (engine : Engine) : Prop :=
  engine.isShutDown = false ∧ engine.loggedIn = true ∧
    ∃ front others, engine.dropFinished.queue = front :: others ∧ front.atLoopBoundary = true

/-- Without a call the engine starts nothing. -/
def Still (engine : Engine) : Prop :=
  engine.runState = .stopped ∨ engine.runState = .paused ∧ engine.stepPending = false

/-- The next loop brings the engine to a standstill. A step that is allowed would lead over a loop
where the engine is only to pause. -/
def Armed (engine : Engine) : Prop :=
  engine.Latched ∧ (engine.stepPending = true → engine.stopAtLoop = true)

/-! ## Latches that do not act -/

/-- Away from loops the next command is chosen without regard to the latches. -/
theorem nextJob_unlatched (h : ¬engine.AtBoundary) :
    engine.unlatched.nextJob = (engine.nextJob.1.unlatched, engine.nextJob.2) := by
  by_cases hdown : engine.isShutDown = true
  · simp only [nextJob, unlatched, hdown, if_true]
  by_cases hout : engine.loggedIn = false
  · simp only [nextJob, unlatched, hdown, hout, Bool.not_false, Bool.false_eq_true, if_false,
      if_true]
  have hin : engine.loggedIn = true := by simpa using hout
  have hdrop : engine.unlatched.dropFinished = engine.dropFinished.unlatched := rfl
  have hdown' : engine.unlatched.isShutDown = engine.isShutDown := rfl
  have hin' : engine.unlatched.loggedIn = engine.loggedIn := rfl
  have hqueue' : engine.dropFinished.unlatched.queue = engine.dropFinished.queue := rfl
  have hstate' : engine.dropFinished.unlatched.runState = engine.dropFinished.runState := rfl
  simp only [nextJob, hdrop, hdown', hin', hqueue', hstate', hdown, hin, Bool.not_true,
    Bool.false_eq_true, if_false]
  cases hqueue : engine.dropFinished.queue with
  | nil =>
    dsimp only
    split
    · rfl
    · rfl
  | cons front others =>
    have hfront : front.atLoopBoundary = false := by
      rw [Bool.eq_false_iff]
      intro hloop
      exact h ⟨Bool.eq_false_iff.mpr hdown, hin, front, others, hqueue, hloop⟩
    simp only [hfront, Bool.false_and, Bool.false_eq_true, if_false]
    split
    · rfl
    · unfold allowStart
      rw [hstate']
      split
      · change (if engine.dropFinished.stepPending = true then _ else _) = _
        split <;> rfl
      · rfl

/-- The end of a command has no regard to the latches. -/
theorem commit_unlatched (engine : Engine) (activation : Activation) (callee : Option Program) :
    engine.unlatched.commit activation callee = (engine.commit activation callee).unlatched := by
  have hqueue : engine.unlatched.queue = engine.queue := rfl
  unfold commit
  rw [hqueue]
  cases engine.queue with
  | nil => rfl
  | cons front others =>
    dsimp only
    split
    · cases callee <;> rfl
    · rfl

/-- Going to sleep has no regard to the latches. -/
theorem noteAsleep_unlatched (engine : Engine) :
    engine.unlatched.noteAsleep = engine.noteAsleep.unlatched := by
  have hstate : engine.unlatched.runState = engine.runState := rfl
  unfold noteAsleep
  rw [hstate]
  split <;> rfl

/-- Waking has no regard to the latches. -/
theorem noteAwake_unlatched (engine : Engine) :
    engine.unlatched.noteAwake = engine.noteAwake.unlatched := by
  have hstate : engine.unlatched.runState = engine.runState := rfl
  unfold noteAwake
  rw [hstate]
  split <;> rfl

/-- Away from loops the latches stay, unless the engine comes to a standstill. -/
theorem Armed.nextJob (h : engine.Armed) (hboundary : ¬engine.AtBoundary) :
    engine.nextJob.1.Armed ∨ engine.nextJob.1.Still := by
  have hnot {front : Activation} {others : List Activation} (hup : engine.isShutDown = false)
      (hlogin : engine.loggedIn = true) (hqueue : engine.dropFinished.queue = front :: others)
      (hloop : front.atLoopBoundary = true) : False :=
    hboundary ⟨hup, hlogin, front, others, hqueue, hloop⟩
  generalize hresult : engine.nextJob = result
  cases choice_of_nextJob hresult with
  | shutDown | loggedOut | held | started => exact .inl h
  | stopped _ _ hstate => exact .inr (.inl hstate)
  | drained | stoppedAtLoop => exact .inr (.inl rfl)
  | stepped => exact .inl ⟨h.1, fun hpending => by cases hpending⟩
  | pausedAtLoop hup hlogin hqueue _ hloop | steppedOverLatch hup hlogin hqueue _ hloop =>
    exact (hnot hup hlogin hqueue hloop).elim

/-! ## Latches that act -/

/-- A still engine has nothing to start. -/
theorem Still.nextJob (h : engine.Still) :
    engine.nextJob.1.Still ∧ ∀ front, engine.nextJob.2 ≠ .run front := by
  generalize hresult : engine.nextJob = result
  cases choice_of_nextJob hresult with
  | shutDown | loggedOut => exact ⟨h, by simp⟩
  | stopped _ _ hstate => exact ⟨.inl hstate, by simp⟩
  | drained | stoppedAtLoop => exact ⟨.inl rfl, by simp⟩
  | pausedAtLoop _ _ _ _ _ _ _ hstep => exact ⟨.inr ⟨rfl, hstep⟩, by simp⟩
  | held _ _ _ _ hstate hstep => exact ⟨.inr ⟨hstate, hstep⟩, by simp⟩
  | steppedOverLatch _ _ _ hstate _ _ _ hstep =>
    rcases h with hstopped | ⟨_, hnone⟩
    · exact absurd hstopped hstate
    · cases hstep.symm.trans hnone
  | stepped _ _ _ _ hstate hstep =>
    rcases h with hstopped | ⟨_, hnone⟩
    · cases hstate.symm.trans hstopped
    · cases hstep.symm.trans hnone
  | started _ _ _ _ hstate =>
    rcases h with hstopped | ⟨hpaused, _⟩
    · simp [hstopped] at hstate
    · simp [hpaused] at hstate

/-- At a loop an armed engine comes to a standstill. -/
theorem Armed.still_nextJob (h : engine.Armed) (hboundary : engine.AtBoundary)
    (hstate : engine.runState ≠ .stopped) :
    engine.nextJob.1.Still ∧ ∀ front, engine.nextJob.2 ≠ .run front := by
  obtain ⟨hlatched, hstep⟩ := h
  obtain ⟨hup, hlogin, front, others, hqueue, hloop⟩ := hboundary
  have hacts {other : Activation} {rest : List Activation}
      (hother : engine.dropFinished.queue = other :: rest) : engine.LatchActs other := by
    cases hqueue.symm.trans hother
    exact ⟨hloop, hlatched⟩
  generalize hresult : engine.nextJob = result
  cases choice_of_nextJob hresult with
  | shutDown hdown => cases hup.symm.trans hdown
  | loggedOut _ hout => cases hlogin.symm.trans hout
  | stopped _ _ hstopped => exact absurd hstopped hstate
  | drained | stoppedAtLoop => exact ⟨.inl rfl, by simp⟩
  | pausedAtLoop _ _ _ _ _ _ _ hnone => exact ⟨.inr ⟨rfl, hnone⟩, by simp⟩
  | steppedOverLatch _ _ _ _ _ hstop _ hpending => cases (hstep hpending).symm.trans hstop
  | held _ _ hother hlatch | stepped _ _ hother hlatch | started _ _ hother hlatch =>
    exact absurd (hacts hother) hlatch

/-- Something is queued when a loop is next, so a sound engine is not stopped. -/
theorem AtBoundary.runState_ne (h : engine.AtBoundary) (hsound : engine.Sound) :
    engine.runState ≠ .stopped := by
  obtain ⟨_, _, front, others, hqueue, _⟩ := h
  intro hstopped
  have hnil := hsound.queue_eq_nil_iff.mpr hstopped
  simp [dropFinished, hnil] at hqueue

/-- At a loop a stop that waits discards everything. -/
theorem AtBoundary.nextJob_of_stopAtLoop (h : engine.AtBoundary)
    (hstate : engine.runState ≠ .stopped) (hstop : engine.stopAtLoop = true) :
    engine.nextJob = (engine.halt, .idle) := by
  obtain ⟨hup, hlogin, front, others, hqueue, hloop⟩ := h
  have hmoving : engine.dropFinished.runState ≠ .stopped := hstate
  have hlatch : engine.dropFinished.stopAtLoop = true := hstop
  simp only [nextJob, hup, hlogin, hqueue, hloop, hlatch, if_neg hmoving, Bool.false_eq_true,
    Bool.not_true, Bool.and_self, if_false, if_true]
  rfl

/-- At a loop a pause that waits alone pauses a running engine. -/
theorem AtBoundary.nextJob_of_pauseAtLoop (h : engine.AtBoundary)
    (hstate : engine.runState = .running) (hstop : engine.stopAtLoop = false)
    (hpause : engine.pauseAtLoop = true) (hstep : engine.stepPending = false) :
    engine.nextJob =
      ({ engine.dropFinished with runState := .paused, pauseAtLoop := false }, .idle) := by
  obtain ⟨hup, hlogin, front, others, hqueue, hloop⟩ := h
  have hrunning : engine.dropFinished.runState = .running := hstate
  have hclear : engine.dropFinished.stopAtLoop = false := hstop
  have hlatch : engine.dropFinished.pauseAtLoop = true := hpause
  have hnone : engine.dropFinished.stepPending = false := hstep
  have hpaused : engine.dropFinished.latchPause = _ := latchPause_eq (by simp [hstate])
  simp only [nextJob, hup, hlogin, hqueue, hloop, hclear, hlatch, hrunning, hpaused, allowStart,
    hnone, Bool.false_eq_true, Bool.not_true, Bool.and_self, Bool.and_false, if_false, if_true,
    reduceCtorEq]

/-- No loop starts while a stop waits for one. -/
theorem Choice.starts_none {next : Engine} {front : Activation}
    (h : Choice engine (next, .run front)) (hstop : engine.stopAtLoop = true) :
    front.atLoopBoundary = false := by
  rw [Bool.eq_false_iff]
  intro hloop
  cases h with
  | steppedOverLatch _ _ _ _ _ hclear => cases hstop.symm.trans hclear
  | stepped _ _ _ hlatch | started _ _ _ hlatch => exact hlatch ⟨hloop, .inl hstop⟩

/-- A stopped engine forgets its latches when a program is queued. -/
theorem push_of_stopped (hstate : engine.runState = .stopped) (pauseAtLoop stopAtLoop : Bool)
    (program : Program) :
    { engine with pauseAtLoop, stopAtLoop }.push program = engine.push program := by
  simp only [push, hstate, if_true]

/-- A stopped engine forgets its latches when a macro is queued. -/
theorem enqueue_of_stopped (hstate : engine.runState = .stopped) (pauseAtLoop stopAtLoop : Bool)
    (saved : SavedMacro) (loops : Option Nat) :
    { engine with pauseAtLoop, stopAtLoop }.enqueue saved loops = engine.enqueue saved loops := by
  unfold enqueue
  dsimp only
  cases saved.program engine.settings engine.reader loops with
  | error error => rfl
  | ok program =>
    dsimp only
    rw [push_of_stopped hstate]

/-- At a loop an engine without latches executes it, unless it is still. -/
theorem run_or_still_of_atBoundary (hboundary : engine.AtBoundary) (hclear : ¬engine.Latched) :
    engine.Still ∨ ∃ front, engine.nextJob.2 = .run front ∧ front.atLoopBoundary = true := by
  obtain ⟨hup, hlogin, front, others, hqueue, hloop⟩ := hboundary
  have hsame {other : Activation} {rest : List Activation}
      (hother : engine.dropFinished.queue = other :: rest) : other.atLoopBoundary = true := by
    cases hqueue.symm.trans hother
    exact hloop
  generalize hresult : engine.nextJob = result
  cases choice_of_nextJob hresult with
  | shutDown hdown => cases hup.symm.trans hdown
  | loggedOut _ hout => cases hlogin.symm.trans hout
  | stopped _ _ hstopped => exact .inl (.inl hstopped)
  | drained _ _ hnil => cases hqueue.symm.trans hnil
  | stoppedAtLoop _ _ _ _ _ hlatch => exact absurd (.inl hlatch) hclear
  | pausedAtLoop _ _ _ _ _ _ hlatch | steppedOverLatch _ _ _ _ _ _ hlatch =>
    exact absurd (.inr hlatch) hclear
  | held _ _ _ _ hstate hstep => exact .inl (.inr ⟨hstate, hstep⟩)
  | stepped _ _ hother | started _ _ hother => exact .inr ⟨_, rfl, hsame hother⟩

end Engine

namespace Machine

variable {σ : Type} {host : Host σ} {machine : Machine σ}

/-- The machine without a pause or a stop that waits for a loop. -/
def unlatched (machine : Machine σ) : Machine σ :=
  { machine with engine := machine.engine.unlatched }

/-- The machine is about to execute a loop or a craft gate. -/
def AtBoundary (machine : Machine σ) : Prop :=
  machine.task = .ready ∧ machine.engine.AtBoundary

/-! ## Side by side -/

/-- Where a piece of a command leads has no regard to the latches. -/
theorem settle_unlatched (machine : Machine σ) (activation : Activation) (command : Command)
    (callee : Option Program) (seen : Nat) (standing : Standing) :
    machine.unlatched.settle host activation command callee seen standing =
      (machine.settle host activation command callee seen standing).unlatched := by
  cases standing with
  | finished =>
    have hcommit := machine.engine.commit_unlatched activation callee
    simp only [settle, unlatched, hcommit]
  | failed failure => rfl
  | asleep ms pause =>
    have hasleep := machine.engine.noteAsleep_unlatched
    simp only [settle, unlatched, hasleep]

/-- The start of a command has no regard to the latches. -/
theorem begin_unlatched (machine : Machine σ) (activation : Activation) :
    machine.unlatched.begin host activation = (machine.begin host activation).unlatched := by
  cases hcurrent : activation.current? with
  | none => simp only [begin, hcurrent]
  | some command =>
    have hscope : machine.unlatched.scope host = machine.scope host := rfl
    have hworld : machine.unlatched.world = machine.world := rfl
    rw [begin_of_current? hcurrent, begin_of_current? hcurrent, hscope, hworld]
    generalize Execution.start (machine.scope host) command activation machine.world = started
    exact settle_unlatched { machine with world := started.world } started.activation command
      started.callee machine.engine.signal.count started.standing

/-- A command wakes without regard to the latches. -/
theorem wake_unlatched (machine : Machine σ) (flight : InFlight) :
    machine.unlatched.wake host flight = (machine.wake host flight).unlatched := by
  have hsignal : machine.unlatched.engine.signal = machine.engine.signal := rfl
  have hawake : machine.unlatched.engine.noteAwake = machine.engine.noteAwake.unlatched :=
    machine.engine.noteAwake_unlatched
  unfold wake
  rw [hsignal, hawake]
  split
  · rfl
  · exact settle_unlatched
      { machine with engine := machine.engine.noteAwake, task := .ready, world := _ } _ _ _ _ _

/-- A machine rests without regard to the latches. -/
theorem rest_unlatched (machine : Machine σ) : machine.unlatched.rest = machine.rest.unlatched := by
  have hmode : machine.unlatched.mode = machine.mode := rfl
  have hwake : machine.unlatched.engine.wake = machine.engine.wake := rfl
  unfold rest
  rw [hmode, hwake]
  split <;> rfl

/-- Away from loops a machine steps without regard to the latches. -/
theorem step?_unlatched (h : ¬machine.AtBoundary) :
    machine.unlatched.step? host = (machine.step? host).map unlatched := by
  have htask : machine.unlatched.task = machine.task := rfl
  unfold step?
  rw [htask]
  cases hready : machine.task with
  | ready =>
    have hjob := Engine.nextJob_unlatched fun hboundary => h ⟨hready, hboundary⟩
    have hengine : machine.unlatched.engine = machine.engine.unlatched := rfl
    simp only [choose, hengine, hjob, Option.map_some, Option.some.injEq]
    cases machine.engine.nextJob.2 with
    | run front => exact begin_unlatched { machine with engine := machine.engine.nextJob.1 } front
    | idle => exact rest_unlatched { machine with engine := machine.engine.nextJob.1 }
    | shutDown => rfl
  | suspended flight wakeAt =>
    have hsignal : machine.unlatched.engine.signal = machine.engine.signal := rfl
    have hworld : machine.unlatched.world = machine.world := rfl
    simp only [hsignal, hworld, wake_unlatched]
    split <;> rfl
  | parked =>
    have hwake : machine.unlatched.engine.wake = machine.engine.wake := rfl
    simp only [hwake]
    split <;> rfl
  | ended => rfl

/-- Away from loops a machine that is left alone goes on without regard to the latches. -/
theorem advance_unlatched (h : ¬machine.AtBoundary) :
    machine.unlatched.advance host = (machine.advance host).unlatched := by
  have hwake : machine.unlatched.wakeTime? = machine.wakeTime? := rfl
  unfold advance
  rw [step?_unlatched h, hwake]
  cases machine.step? host with
  | some next => rfl
  | none => cases machine.wakeTime? <;> rfl

/-- Away from loops the same command starts, whatever the latches. -/
theorem occurrence?_unlatched (h : ¬machine.AtBoundary) :
    machine.unlatched.occurrence? = machine.occurrence? := by
  have hstarting : machine.unlatched.starting? = machine.starting? := by
    have htask : machine.unlatched.task = machine.task := rfl
    have hengine : machine.unlatched.engine = machine.engine.unlatched := rfl
    unfold starting?
    rw [htask, hengine]
    cases hready : machine.task with
    | ready => rw [Engine.nextJob_unlatched fun hboundary => h ⟨hready, hboundary⟩]
    | suspended | parked | ended => rfl
  have hworld : machine.unlatched.world = machine.world := rfl
  simp only [occurrence?, hstarting, hworld]

/-- Up to the first loop a machine with latches is the machine without them. -/
theorem drive_unlatched (moves : Nat)
    (h : ∀ count < moves, ¬(drive host count machine.unlatched).AtBoundary) :
    drive host moves machine.unlatched = (drive host moves machine).unlatched ∧
      history host moves machine.unlatched = history host moves machine := by
  induction moves generalizing machine with
  | zero => exact ⟨rfl, rfl⟩
  | succ moves ih =>
    have hhere : ¬machine.AtBoundary := h 0 (Nat.zero_lt_succ moves)
    have hadvance : machine.unlatched.advance host = (machine.advance host).unlatched :=
      advance_unlatched hhere
    have hlater : ∀ count < moves,
        ¬(drive host count (machine.advance host).unlatched).AtBoundary := by
      intro count hcount
      rw [← hadvance]
      exact h (count + 1) (Nat.succ_lt_succ hcount)
    obtain ⟨hdrive, hhistory⟩ := ih hlater
    simp only [drive, history, hadvance, hdrive, hhistory, occurrence?_unlatched hhere, and_self]

/-! ## At a standstill -/

/-- Where a piece of a command leads, a still engine stays still. -/
theorem still_settle (machine : Machine σ) (h : machine.engine.Still) (activation : Activation)
    (command : Command) (callee : Option Program) (seen : Nat) (standing : Standing) :
    (machine.settle host activation command callee seen standing).engine.Still := by
  cases standing with
  | finished =>
    obtain ⟨heq, _⟩ | ⟨_, _, _, _, heq⟩ := Engine.commit_cases machine.engine activation callee
    · simp only [settle, heq]
      exact h
    · simp only [settle, heq]
      exact h
  | failed failure => exact .inl rfl
  | asleep ms pause =>
    have hrunning : machine.engine.runState ≠ .running := by
      rcases h with hstate | ⟨hstate, _⟩ <;> simp [hstate]
    simp only [settle, Engine.noteAsleep, if_neg hrunning]
    exact h

/-- A machine that has nothing to start stays still. -/
theorem still_choose (machine : Machine σ) (htask : machine.task = .ready)
    (h : machine.engine.nextJob.1.Still) (hnone : ∀ front, machine.engine.nextJob.2 ≠ .run front) :
    (machine.choose host).engine.Still := by
  unfold choose
  cases hjob : machine.engine.nextJob with
  | mk engine job =>
    rw [hjob] at h hnone
    cases job with
    | run front => exact absurd rfl (hnone front)
    | shutDown => exact h
    | idle =>
      obtain ⟨wake, task, hrest, _⟩ := exists_rest_eq { machine with engine } htask
      dsimp only
      rw [hrest]
      exact h

/-- A machine that is about to choose a command chooses it. -/
theorem advance_of_ready (htask : machine.task = .ready) :
    machine.advance host = machine.choose host := by
  simp only [advance, step?, htask]

/-- A machine that is left alone with a still engine stays still. -/
theorem still_advance (h : machine.engine.Still) : (machine.advance host).engine.Still := by
  by_cases hready : machine.task = .ready
  · rw [advance_of_ready hready]
    exact still_choose machine hready h.nextJob.1 h.nextJob.2
  have hawake : machine.engine.noteAwake = machine.engine := by
    have hwaiting : machine.engine.runState ≠ .waiting := by
      rcases h with hstate | ⟨hstate, _⟩ <;> simp [hstate]
    rw [Engine.noteAwake, if_neg hwaiting]
  unfold advance
  split
  · next hnext =>
    cases step_of_step? hnext with
    | starts htask | ends htask | rests htask => exact absurd htask hready
    | cancels => exact hawake.symm ▸ h
    | resumes _ hlive =>
      rw [wake_of_live hlive, hawake]
      exact still_settle { machine with task := .ready, world := _ } h _ _ _ _ _
    | unparks => exact h
  · split <;> exact h

/-- A still engine starts nothing. -/
theorem occurrence?_of_still (h : machine.engine.Still) : machine.occurrence? = none := by
  have hstarting : machine.starting? = none := by
    unfold starting?
    split
    · next hrun => exact absurd hrun (h.nextJob.2 _)
    · rfl
  simp only [occurrence?, hstarting, Option.bind_none]

/-- A still engine that is left alone never starts anything. -/
theorem history_of_still (h : machine.engine.Still) (moves : Nat) :
    history host moves machine = [] := by
  induction moves generalizing machine with
  | zero => rfl
  | succ moves ih => rw [history, occurrence?_of_still h, ih (still_advance h)]; rfl

/-! ## Up to the first loop -/

/-- Where a piece of a command leads, the latches stay, unless the engine comes to a standstill. -/
theorem armed_settle (machine : Machine σ) (h : machine.engine.Armed) (activation : Activation)
    (command : Command) (callee : Option Program) (seen : Nat) (standing : Standing) :
    (machine.settle host activation command callee seen standing).engine.Armed ∨
      (machine.settle host activation command callee seen standing).engine.Still := by
  cases standing with
  | finished =>
    left
    obtain ⟨heq, _⟩ | ⟨_, _, _, _, heq⟩ := Engine.commit_cases machine.engine activation callee
    · simp only [settle, heq]
      exact h
    · simp only [settle, heq]
      exact h
  | failed failure => exact .inr (.inl rfl)
  | asleep ms pause =>
    left
    obtain ⟨runState, hasleep⟩ := machine.engine.exists_noteAsleep_eq
    simp only [settle, hasleep]
    exact h

/-- Away from loops a machine that is left alone keeps its latches or comes to a standstill. -/
theorem armed_advance (h : machine.engine.Armed) (hboundary : ¬machine.AtBoundary) :
    (machine.advance host).engine.Armed ∨ (machine.advance host).engine.Still := by
  unfold advance
  split
  · next next hnext =>
    cases step_of_step? hnext with
    | @starts engine front htask hjob =>
      have hchosen := h.nextJob fun hnear => hboundary ⟨htask, hnear⟩
      rw [hjob] at hchosen
      obtain ⟨command, hcurrent⟩ :=
        Activation.exists_current?_of_not_finished (Engine.choice_of_nextJob hjob).of_run.1
      rw [begin_of_current? hcurrent]
      rcases hchosen with harmed | hstill
      · exact armed_settle { machine with engine, world := _ } harmed _ _ _ _ _
      · exact .inr (still_settle { machine with engine, world := _ } hstill _ _ _ _ _)
    | ends htask hjob =>
      have hchosen := h.nextJob fun hnear => hboundary ⟨htask, hnear⟩
      rw [hjob] at hchosen
      exact hchosen
    | @rests engine htask hjob =>
      have hchosen := h.nextJob fun hnear => hboundary ⟨htask, hnear⟩
      rw [hjob] at hchosen
      obtain ⟨wake, task, hrest, _⟩ := exists_rest_eq { machine with engine } htask
      rw [hrest]
      exact hchosen
    | cancels =>
      obtain ⟨runState, hawake⟩ := machine.engine.exists_noteAwake_eq
      simp only [hawake]
      exact .inl h
    | resumes _ hlive =>
      obtain ⟨runState, hawake⟩ := machine.engine.exists_noteAwake_eq
      rw [wake_of_live hlive, hawake]
      exact armed_settle
        { machine with engine.runState := runState, task := .ready, world := _ } h _ _ _ _ _
    | unparks => exact .inl h
  · left
    split <;> exact h

/-- A loop or a craft gate starts only where one is next. -/
theorem atBoundary_of_occurrence? {occurrence : Occurrence}
    (h : machine.occurrence? = some occurrence)
    (hloop : occurrence.command.isLoopBoundary = true) : machine.AtBoundary := by
  obtain ⟨front, hstarting, hcommand⟩ := Option.bind_eq_some_iff.mp h
  obtain ⟨command, hcurrent, rfl⟩ := Option.map_eq_some_iff.mp hcommand
  have hfront : front.atLoopBoundary = true := by
    rw [Activation.atLoopBoundary, hcurrent]
    exact hloop
  obtain ⟨htask, engine, hjob⟩ := nextJob_of_starting? hstarting
  have hchoice := Engine.choice_of_nextJob hjob
  obtain ⟨_, others, hqueue, _⟩ := hchoice.of_run
  obtain ⟨hup, hlogin⟩ := hchoice.open_of_run
  exact ⟨htask, hup, hlogin, front, others, hqueue, hfront⟩

/-- At a loop a machine without latches executes the loop, unless it is still. -/
theorem occurrence?_of_atBoundary (h : machine.AtBoundary) (hclear : ¬machine.engine.Latched)
    (hmoving : ¬machine.engine.Still) :
    ∃ occurrence, machine.occurrence? = some occurrence ∧
      occurrence.command.isLoopBoundary = true := by
  obtain ⟨htask, hboundary⟩ := h
  obtain ⟨front, hrun, hloop⟩ :=
    (Engine.run_or_still_of_atBoundary hboundary hclear).resolve_left hmoving
  obtain ⟨command, hcurrent, hcommand⟩ := (Option.any_eq_true _ _).mp hloop
  refine ⟨⟨front.name, front.step, command, machine.world.now⟩, ?_, hcommand⟩
  simp only [occurrence?, starting?, htask, hrun, Option.bind_some, hcurrent, Option.map_some]

/-- What is left alone stays sound. -/
theorem Sound.advance (h : machine.Sound) : (machine.advance host).Sound := by
  unfold Machine.advance
  split
  · next hstep => exact h.step (step_of_step? hstep)
  · split
    · next time _ =>
      have hmove : machine.move? host (.wait time) = some (machine.waitUntil time) := rfl
      exact h.move hmove
    · exact h

/-- A machine with latches starts what the machine without them starts up to its first loop or craft
gate. -/
theorem history_eq_takeWhile (moves : Nat) (hsound : machine.Sound)
    (h : machine.engine.Armed ∨ machine.engine.Still) :
    history host moves machine =
      (history host moves machine.unlatched).takeWhile (!·.command.isLoopBoundary) := by
  induction moves generalizing machine with
  | zero => rfl
  | succ moves ih =>
    by_cases hstill : machine.engine.Still
    · have hother : machine.unlatched.engine.Still := hstill
      rw [history_of_still hstill, history_of_still hother, List.takeWhile_nil]
    have harmed := h.resolve_right hstill
    by_cases hboundary : machine.AtBoundary
    · -- Here the two machines part: the latched one comes to a standstill, the other one executes
      -- its boundary, which is where the history is cut off.
      have hstate : machine.engine.runState ≠ .stopped := fun hstopped => hstill (.inl hstopped)
      obtain ⟨hstand, hnone⟩ := harmed.still_nextJob hboundary.2 hstate
      have hquiet : machine.occurrence? = none := by
        unfold occurrence? starting?
        split
        · next hrun => exact absurd hrun (hnone _)
        · rfl
      have hnext : (machine.advance host).engine.Still := by
        rw [advance_of_ready hboundary.1]
        exact still_choose machine hboundary.1 hstand hnone
      have hclear : ¬machine.unlatched.engine.Latched := by
        simp [unlatched, Engine.Latched, Engine.unlatched]
      have hnear : machine.unlatched.AtBoundary := hboundary
      obtain ⟨occurrence, hstarts, hloop⟩ := occurrence?_of_atBoundary hnear hclear hstill
      simp [history, hquiet, history_of_still hnext, hstarts, hloop]
    · have hnext : (machine.advance host).Sound := hsound.advance
      have hrest := ih hnext (armed_advance harmed hboundary)
      rw [history, history, occurrence?_unlatched hboundary, advance_unlatched hboundary, hrest]
      cases hstarts : machine.occurrence? with
      | none => rfl
      | some occurrence =>
        have hplain : occurrence.command.isLoopBoundary = false := by
          rw [Bool.eq_false_iff]
          exact fun hloop => hboundary (atBoundary_of_occurrence? hstarts hloop)
        simp [hplain]

/-- What the loop latches of a machine do, and what they leave alone. -/
structure ObeysLatches (host : Host σ) (machine : Machine σ) : Prop where
  /-- No loop and no craft gate starts while a stop waits for one. -/
  starts_none : machine.engine.stopAtLoop = true → ∀ activation,
    machine.starting? = some activation → activation.atLoopBoundary = false
  /-- When a loop is next, a stop that waits discards everything, also if a pause waits too. -/
  stops : machine.engine.AtBoundary → machine.engine.stopAtLoop = true →
    machine.engine.nextJob =
      ({ machine.engine with
          queue := []
          runState := .stopped
          pauseAtLoop := false
          stopAtLoop := false
          stepPending := false }, .idle)
  /-- When a loop is next, a pause that waits alone pauses the running engine before that loop. -/
  pauses : machine.engine.AtBoundary → machine.engine.stopAtLoop = false →
    machine.engine.pauseAtLoop = true → machine.engine.runState = .running →
    machine.engine.nextJob =
      ({ machine.engine.dropFinished with runState := .paused, pauseAtLoop := false }, .idle)
  /-- Until a loop is next, the machine that is left alone does what it does without latches. -/
  as_unlatched : ∀ moves,
    (∀ count < moves, ¬(drive host count machine.unlatched).AtBoundary) →
      drive host moves machine.unlatched = (drive host moves machine).unlatched ∧
        history host moves machine.unlatched = history host moves machine
  /-- Left alone with a latch set, it starts what it starts without latches up to the first loop or
  craft gate. -/
  cut_off : machine.engine.Armed → ∀ moves,
    history host moves machine =
      (history host moves machine.unlatched).takeWhile (!·.command.isLoopBoundary)
  /-- Latches that are set while the engine is stopped are forgotten when a macro is queued. -/
  forgotten : machine.engine.runState = .stopped → ∀ pauseAtLoop stopAtLoop,
    (∀ saved loops, { machine.engine with pauseAtLoop, stopAtLoop }.enqueue saved loops =
      machine.engine.enqueue saved loops) ∧
    ∀ library name loops, { machine.engine with pauseAtLoop, stopAtLoop }.enqueueByName library name
      loops = machine.engine.enqueueByName library name loops

/-- Loop latches act where a loop or a craft gate is next, and nowhere else. -/
theorem obeysLatches_of_reachable (hmachine : machine.Reachable host) :
    machine.ObeysLatches host := by
  have hsound := sound_of_reachable hmachine
  refine ⟨?_, ?_, ?_, fun moves h => drive_unlatched moves h, ?_, ?_⟩
  · intro hstop activation hstarting
    obtain ⟨_, engine, hjob⟩ := nextJob_of_starting? hstarting
    exact (Engine.choice_of_nextJob hjob).starts_none hstop
  · intro hboundary hstop
    exact hboundary.nextJob_of_stopAtLoop (hboundary.runState_ne hsound.engine) hstop
  · intro hboundary hstop hpause hrunning
    have hstep : machine.engine.stepPending = false := by
      rw [Bool.eq_false_iff]
      intro hpending
      cases (hsound.engine.paused_of_stepPending hpending).symm.trans hrunning
    exact hboundary.nextJob_of_pauseAtLoop hrunning hstop hpause hstep
  · exact fun harmed moves => history_eq_takeWhile moves hsound (.inl harmed)
  · intro hstate pauseAtLoop stopAtLoop
    have henqueue := Engine.enqueue_of_stopped hstate pauseAtLoop stopAtLoop
    refine ⟨henqueue, fun library name loops => ?_⟩
    unfold Engine.enqueueByName
    cases library.find name with
    | error error => rfl
    | ok saved => exact henqueue saved loops

/-- A machine that is about to rewind, and to pause and stop, can be reached and obeys its
latches. -/
theorem obeysLatches_of_both :
    ∃ machine : Machine DryRun, machine.Reachable DryRun.host ∧ machine.AtBoundary ∧
      machine.engine.runState = .running ∧ machine.engine.stopAtLoop = true ∧
      machine.engine.pauseAtLoop = true ∧ machine.ObeysLatches DryRun.host := by
  let moves : List (Move DryRun) :=
    [.call {} (.enqueue { name := "twice", contents := "/wait 0\n/loop 2" } none), .launch .serving,
      .call {} (.pause true), .call {} (.stop true), .work]
  have hfollow : (follow? DryRun.host moves
      { engine := .ofSettings {}, world := { host := {} } }).map (fun machine =>
        decide (machine.task = .ready ∧ machine.engine.isShutDown = false ∧
          machine.engine.loggedIn = true ∧ machine.engine.runState = .running ∧
          machine.engine.stopAtLoop = true ∧ machine.engine.pauseAtLoop = true ∧
          machine.engine.dropFinished.queue.head?.map Activation.atLoopBoundary = some true)) =
      some true := by decide +kernel
  obtain ⟨machine, hmachine, hseen⟩ := Option.map_eq_some_iff.mp hfollow
  obtain ⟨htask, hup, hlogin, hrunning, hstop, hpause, hfront⟩ := of_decide_eq_true hseen
  obtain ⟨front, hhead, hloop⟩ := Option.map_eq_some_iff.mp hfront
  obtain ⟨others, hqueue⟩ := List.head?_eq_some_iff.mp hhead
  have hreachable : machine.Reachable DryRun.host := ⟨_, _, moves, run_of_follow? hmachine⟩
  exact ⟨machine, hreachable, ⟨htask, hup, hlogin, front, others, hqueue, hloop⟩, hrunning, hstop,
    hpause, obeysLatches_of_reachable hreachable⟩

end Machine

end GameMacros
