import GameMacros.Proofs.Flight

/-!
# Waking the server

The server sleeps when it finds nothing to do, and it is woken by the calls that may change that. It
makes up its mind in two steps: first it finds nothing to do, and then it goes to sleep. A call may
come in between, and just as well between the choice of a command and what the command does to the
queue. However calls and server interleave, a server that sleeps and was not woken has nothing to
do.
-/

namespace GameMacros

/-- A wake-up does not send the server to sleep. -/
theorem Wake.notify_ne_parked (wake : Wake) : wake.notify ≠ .parked := by
  cases wake <;> simp [notify]

/-- A wake-up is kept for a server that does not sleep. -/
theorem Wake.notify_of_ne_parked {wake : Wake} (h : wake ≠ .parked) : wake.notify = .permit := by
  cases wake with
  | quiet | permit => rfl
  | parked => exact absurd rfl h

namespace Engine

variable {engine next : Engine}

/-- Nothing can be executed, and the server need not return. -/
def NothingToDo (engine : Engine) : Prop :=
  engine.isShutDown = false ∧
    (engine.loggedIn = false ∨ engine.queue = [] ∨
      engine.runState = .paused ∧ engine.stepPending = false)

/-- An engine that finds nothing to do has nothing to do, if it is stopped only when its queue is
empty. -/
theorem Choice.nothingToDo (h : Choice engine (next, .idle))
    (hstopped : engine.runState = .stopped → engine.queue = []) : next.NothingToDo := by
  cases h with
  | loggedOut hup hlogin => exact ⟨hup, .inl hlogin⟩
  | stopped hup _ hstate => exact ⟨hup, .inr (.inl (by simp [dropFinished, hstopped hstate]))⟩
  | drained hup | stoppedAtLoop hup => exact ⟨hup, .inr (.inl rfl)⟩
  | pausedAtLoop hup _ _ _ _ _ _ hstep => exact ⟨hup, .inr (.inr ⟨rfl, hstep⟩)⟩
  | held hup _ _ _ hstate hstep => exact ⟨hup, .inr (.inr ⟨hstate, hstep⟩)⟩

/-- An engine with nothing to do finds nothing to do. -/
theorem NothingToDo.nextJob_idle (h : engine.NothingToDo) : engine.nextJob.2 = .idle := by
  obtain ⟨hup, hidle⟩ := h
  have hchoice := engine.choice_nextJob
  -- A command starts only for an engine that is logged in, has a queue and is not held by a pause.
  have hstarts {front : Activation} {others : List Activation} (hlogin : engine.loggedIn = true)
      (hqueue : engine.dropFinished.queue = front :: others)
      (hallowed : engine.runState = .paused → engine.stepPending = true) : False := by
    rcases hidle with hout | hempty | ⟨hpaused, hstep⟩
    · simp [hlogin] at hout
    · simp [dropFinished, hempty] at hqueue
    · simp [hallowed hpaused] at hstep
  generalize engine.nextJob = result at hchoice
  cases hchoice with
  | shutDown hdown => simp [hdown] at hup
  | loggedOut | stopped | drained | stoppedAtLoop | pausedAtLoop | held => rfl
  | steppedOverLatch _ hlogin hqueue _ _ _ _ hstep =>
    exact (hstarts hlogin hqueue fun _ => hstep).elim
  | stepped _ hlogin hqueue _ _ hstep => exact (hstarts hlogin hqueue fun _ => hstep).elim
  | started _ hlogin hqueue _ hstate =>
    refine (hstarts hlogin hqueue fun hpaused => ?_).elim
    rcases hstate with hstate | hstate <;> cases hpaused.symm.trans hstate

/-- A call to an engine with nothing to do wakes the server, or there is still nothing to do. -/
theorem Control.nothingToDo {call : Call} (h : Control engine call next)
    (hidle : engine.NothingToDo) :
    next.wake = engine.wake.notify ∨ next.wake = engine.wake ∧ next.NothingToDo := by
  cases h with
  | queues _ program =>
    obtain ⟨_, _, _, hpush, _⟩ := engine.exists_push_eq program
    rw [hpush]
    exact .inl rfl
  | resumes | steps | stops | logsIn | logsOut | shutsDown => exact .inl rfl
  | pauses => exact .inr ⟨rfl, hidle.1, .inr (.inr ⟨rfl, rfl⟩)⟩
  | unchanged | pausesAtLoop | stopsAtLoop => exact .inr ⟨rfl, hidle⟩

/-- No call sends the server to sleep. -/
theorem Control.wake_cases {call : Call} (h : Control engine call next) :
    next.wake = engine.wake.notify ∨ next.wake = engine.wake := by
  cases h with
  | queues _ program =>
    obtain ⟨_, _, _, hpush, _⟩ := engine.exists_push_eq program
    rw [hpush]
    exact .inl rfl
  | resumes | steps | stops | logsIn | logsOut | shutsDown => exact .inl rfl
  | unchanged | pausesAtLoop | pauses | stopsAtLoop => exact .inr rfl

/-- A server that does not sleep is not sent to sleep. -/
theorem Control.wake_ne_parked {call : Call} (h : Control engine call next)
    (hwake : engine.wake ≠ .parked) : next.wake ≠ .parked := by
  rcases h.wake_cases with hnotified | hsame
  · rw [hnotified]
    exact Wake.notify_ne_parked _
  · rwa [hsame]

/-- A call leaves an engine stopped only when its queue is empty, if that was so before. -/
theorem Control.queue_eq_nil_of_stopped {call : Call} (h : Control engine call next)
    (hstopped : engine.runState = .stopped → engine.queue = [])
    (hstate : next.runState = .stopped) : next.queue = [] := by
  cases h with
  | queues _ program =>
    obtain ⟨runState, _, _, hpush, hrunState⟩ := engine.exists_push_eq program
    rw [hpush] at hstate
    have hnot : runState ≠ .stopped := by
      rw [hrunState]
      split
      · simp
      · next hlive => exact hlive
    exact absurd hstate hnot
  | pauses | resumes => cases hstate
  | stops | shutsDown => rfl
  | unchanged | pausesAtLoop | steps | stopsAtLoop | logsIn | logsOut => exact hstopped hstate

/-- The choice of a command leaves an engine stopped only when its queue is empty, if that was so
before. -/
theorem Choice.queue_eq_nil_of_stopped {result : Engine × Job} (h : Choice engine result)
    (hstopped : engine.runState = .stopped → engine.queue = [])
    (hstate : result.1.runState = .stopped) : result.1.queue = [] := by
  have hsublist := h.queue_sublist
  cases h with
  | drained | stoppedAtLoop => rfl
  | pausedAtLoop | steppedOverLatch => cases hstate
  | shutDown | loggedOut | stopped | held | stepped | started =>
    exact List.eq_nil_of_sublist_nil (hstopped hstate ▸ hsublist)

/-- The choice of a command neither wakes the server nor sends it to sleep. -/
theorem Choice.wake_eq {result : Engine × Job} (h : Choice engine result) :
    result.1.wake = engine.wake := by
  cases h <;> rfl

end Engine

namespace Machine

variable {σ : Type} {host : Host σ} {machine next middle last : Machine σ} {moves : List (Move σ)}

/-! ## Servers and calls at the same time -/

/-- A piece of a command has been executed, from the choice of the command or from its waking on:
the command as it goes to sleep, the machine afterwards, and where the piece has led. -/
inductive Piece (host : Host σ) (machine : Machine σ) : InFlight → Machine σ → Standing → Prop
  | starts {engine : Engine} {front : Activation} {command : Command} {begun : Execution.Start σ}
      (htask : machine.task = .ready) (hjob : machine.engine.nextJob = (engine, .run front))
      (hcurrent : front.current? = some command)
      (hbegun : Execution.start ({ machine with engine }.scope host) command front machine.world =
        begun) :
      Piece host machine ⟨begun.activation, command, begun.callee, .trailing, engine.signal.count⟩
        { machine with engine, world := begun.world } begun.standing
  | resumes {flight : InFlight} {wakeAt : Nat} {reached : World σ × Standing}
      (htask : machine.task = .suspended flight wakeAt) (htime : wakeAt ≤ machine.world.now)
      (hreached : Execution.resume (machine.scope host) flight.command flight.pause machine.world =
        reached) :
      Piece host machine flight
        { machine with engine := machine.engine.noteAwake, task := .ready, world := reached.1 }
        reached.2

/-- The machine can come about when calls come at any time: between its steps, between finding
nothing to do and going to sleep, and between executing a piece of a command and putting the outcome
into effect. A stop that comes before the command goes to sleep breaks it off. -/
inductive Served (host : Host σ) : Machine σ → Prop
  | new (settings : Settings) (world : World σ) :
      Served host { engine := .ofSettings settings, world }
  | move {machine next : Machine σ} {move : Move σ} (hmachine : Served host machine)
      (hmove : machine.move? host move = some next) : Served host next
  | rests {machine middle : Machine σ} {engine : Engine} {moves : List (Move σ)}
      (hmachine : Served host machine) (htask : machine.task = .ready)
      (hjob : machine.engine.nextJob = (engine, .idle))
      (hrun : Run host { machine with engine } moves middle) (hwork : Move.work ∉ moves) :
      Served host middle.rest
  | settles {machine after middle : Machine σ} {flight : InFlight} {standing : Standing}
      {moves : List (Move σ)} (hmachine : Served host machine)
      (hpiece : Piece host machine flight after standing) (hrun : Run host after moves middle)
      (hwork : Move.work ∉ moves) :
      Served host (middle.settle host flight.activation flight.command flight.callee flight.seen
        standing)
  | breaksOff {machine after middle : Machine σ} {flight : InFlight} {standing : Standing}
      {moves : List (Move σ)} (hmachine : Served host machine)
      (hpiece : Piece host machine flight after standing) (hrun : Run host after moves middle)
      (hwork : Move.work ∉ moves)
      (hstopped : middle.engine.signal.stoppedSince flight.seen = true) : Served host middle

/-- Calls that come only between steps are a special case. -/
theorem served_of_reachable (h : machine.Reachable host) : Served host machine := by
  obtain ⟨settings, world, moves, hrun⟩ := h
  exact hrun.keeps (fun _ _ => fun hbefore hmove => hbefore.move hmove) (.new settings world)

/-! ## What a server keeps -/

/-- What holds of a server however calls interleave with it. -/
structure Wakeful (machine : Machine σ) : Prop where
  queue_eq_nil : machine.engine.runState = .stopped → machine.engine.queue = []
  regular : ∀ flight wakeAt, machine.task = .suspended flight wakeAt → flight.pause.Regular
  parked_of_wake : machine.engine.wake = .parked → machine.task = .parked
  nothingToDo : machine.engine.wake = .parked → machine.engine.NothingToDo
  shutDown_of_ended : machine.mode = .serving → machine.task = .ended →
    machine.engine.isShutDown = true

/-- What matters of a server that neither sleeps nor has a command under way. -/
theorem wakeful_of_awake (hqueue : machine.engine.runState = .stopped → machine.engine.queue = [])
    (hwake : machine.engine.wake ≠ .parked)
    (htask : ∀ flight wakeAt, machine.task ≠ .suspended flight wakeAt)
    (hended : machine.mode = .serving → machine.task = .ended → machine.engine.isShutDown = true) :
    machine.Wakeful where
  queue_eq_nil := hqueue
  regular flight wakeAt h := absurd h (htask flight wakeAt)
  parked_of_wake h := absurd h hwake
  nothingToDo h := absurd h hwake
  shutDown_of_ended := hended

/-- What matters of a machine that is about to choose the next command. -/
theorem wakeful_of_ready (htask : machine.task = .ready)
    (hqueue : machine.engine.runState = .stopped → machine.engine.queue = [])
    (hwake : machine.engine.wake ≠ .parked) : machine.Wakeful :=
  wakeful_of_awake hqueue hwake (by simp [htask]) (by simp [htask])

/-- A new machine is wakeful. -/
theorem wakeful_new (settings : Settings) (world : World σ) :
    ({ engine := .ofSettings settings, world } : Machine σ).Wakeful :=
  wakeful_of_awake (fun _ => rfl) (by simp [Engine.ofSettings]) (by simp) (by simp)

/-- The server does not sleep while it is about to choose the next command. -/
theorem Wakeful.wake_ne_parked (h : machine.Wakeful) (htask : machine.task ≠ .parked) :
    machine.engine.wake ≠ .parked :=
  fun hwake => htask (h.parked_of_wake hwake)

/-- Without a step of the machine itself only a launch changes what the server is doing. -/
theorem task_eq_of_move? {move : Move σ} (hmove : machine.move? host move = some next)
    (hwork : move ≠ .work) (htask : machine.task ≠ .ended) : next.task = machine.task := by
  cases move with
  | work => exact absurd rfl hwork
  | wait | drift | call =>
    cases hmove
    rfl
  | launch mode => simp [move?, htask] at hmove

/-- A call keeps a server wakeful. -/
theorem Wakeful.handle (h : machine.Wakeful) (library : Library) (call : Call) :
    (machine.handle library call).1.Wakeful := by
  have hcontrol := machine.engine.control_handle library call
  have hwas : (machine.engine.handle library call).1.wake = .parked →
      machine.engine.wake = .parked := by
    intro hwake
    by_contra hawake
    exact hcontrol.wake_ne_parked hawake hwake
  refine ⟨hcontrol.queue_eq_nil_of_stopped h.queue_eq_nil, h.regular,
    fun hwake => h.parked_of_wake (hwas hwake), fun hwake => ?_,
    fun hmode htask => hcontrol.frame.down_of_down (h.shutDown_of_ended hmode htask)⟩
  rcases hcontrol.nothingToDo (h.nothingToDo (hwas hwake)) with hnotified | ⟨_, hidle⟩
  · exact absurd (hnotified.symm.trans hwake) (Wake.notify_ne_parked _)
  · exact hidle

/-- Everything but a step of the machine itself keeps a server wakeful. -/
theorem Wakeful.move (h : machine.Wakeful) {move : Move σ}
    (hmove : machine.move? host move = some next) (hwork : move ≠ .work) : next.Wakeful := by
  cases move with
  | work => exact absurd rfl hwork
  | wait | drift =>
    cases hmove
    exact ⟨h.queue_eq_nil, h.regular, h.parked_of_wake, h.nothingToDo, h.shutDown_of_ended⟩
  | call library call =>
    cases hmove
    exact h.handle library call
  | launch mode =>
    simp only [move?] at hmove
    split at hmove
    · next htask =>
      cases hmove
      exact wakeful_of_ready rfl h.queue_eq_nil (h.wake_ne_parked (by simp [htask]))
    · cases hmove

/-- Along moves without a step of the machine itself a server about to choose the next command stays
so, and wakeful. -/
theorem Wakeful.run (h : machine.Wakeful) (htask : machine.task = .ready)
    (hrun : Run host machine moves last) (hwork : Move.work ∉ moves) :
    last.Wakeful ∧ last.task = .ready := by
  refine hrun.keeps (P := fun machine => machine.Wakeful ∧ machine.task = .ready) ?_ ⟨h, htask⟩
  intro move hmem before after hbefore hmove
  have hother : move ≠ .work := fun heq => hwork (heq ▸ hmem)
  exact ⟨hbefore.1.move hmove hother,
    (task_eq_of_move? hmove hother (by simp [hbefore.2])).trans hbefore.2⟩

/-- An engine that has chosen belongs to a wakeful server. -/
theorem Wakeful.choice (h : machine.Wakeful) (htask : machine.task = .ready) {engine : Engine}
    {job : Engine.Job} (hjob : machine.engine.nextJob = (engine, job)) :
    { machine with engine }.Wakeful := by
  have hchoice := Engine.choice_of_nextJob hjob
  have hwake : engine.wake ≠ .parked := by
    rw [show engine.wake = machine.engine.wake from hchoice.wake_eq]
    exact h.wake_ne_parked (by simp [htask])
  exact wakeful_of_ready htask (hchoice.queue_eq_nil_of_stopped h.queue_eq_nil) hwake

/-- A server that has found nothing to do still has nothing to do when it goes to sleep, unless it
was woken meanwhile. -/
theorem Wakeful.rest (h : machine.Wakeful) (htask : machine.task = .ready) {engine : Engine}
    (hjob : machine.engine.nextJob = (engine, .idle))
    (hrun : Run host { machine with engine } moves middle) (hwork : Move.work ∉ moves) :
    middle.rest.Wakeful := by
  have hchosen := h.choice htask hjob
  obtain ⟨hmiddle, hready⟩ := hchosen.run htask hrun hwork
  have hidle : middle.engine.wake = .permit ∨ middle.engine.NothingToDo := by
    have hkept := hrun.keeps
      (P := fun machine => (machine.Wakeful ∧ machine.task = .ready) ∧
        (machine.engine.wake = .permit ∨ machine.engine.NothingToDo)) ?_
      ⟨⟨hchosen, htask⟩,
        .inr ((Engine.choice_of_nextJob hjob).nothingToDo h.queue_eq_nil)⟩
    · exact hkept.2
    intro move hmem before after hbefore hmove
    have hother : move ≠ .work := fun heq => hwork (heq ▸ hmem)
    refine ⟨hbefore.1.1.run hbefore.1.2 (.cons hmove (.nil _)) (by simpa using hother.symm), ?_⟩
    cases move with
    | work => exact absurd rfl hother
    | wait | drift =>
      cases hmove
      exact hbefore.2
    | launch mode => simp [move?, hbefore.1.2] at hmove
    | call library call =>
      cases hmove
      have hcontrol := before.engine.control_handle library call
      have hawake := hbefore.1.1.wake_ne_parked (by simp [hbefore.1.2])
      have hpermit := Wake.notify_of_ne_parked hawake
      rcases hbefore.2 with hwoken | hidle
      · left
        rcases hcontrol.wake_cases with hnotified | hsame
        · exact hnotified.trans hpermit
        · exact hsame.trans hwoken
      · rcases hcontrol.nothingToDo hidle with hnotified | ⟨_, hstill⟩
        · exact .inl (hnotified.trans hpermit)
        · exact .inr hstill
  have hawake := hmiddle.wake_ne_parked (by simp [hready])
  unfold Machine.rest
  split
  · next hmode => exact wakeful_of_awake hmiddle.queue_eq_nil hawake (by simp) (by simp [hmode])
  · exact wakeful_of_ready hready hmiddle.queue_eq_nil (by simp)
  · next hpermit =>
    exact ⟨hmiddle.queue_eq_nil, by simp, fun _ => rfl, fun _ => hidle.resolve_left hpermit,
      by simp⟩

/-- Waking the command under way keeps a server wakeful. -/
theorem Wakeful.awake (h : machine.Wakeful) {flight : InFlight} {wakeAt : Nat}
    (htask : machine.task = .suspended flight wakeAt) :
    { machine with engine := machine.engine.noteAwake, task := .ready }.Wakeful := by
  have hwake := h.wake_ne_parked (by simp [htask])
  unfold Engine.noteAwake
  split
  · exact wakeful_of_ready rfl (by simp) hwake
  · exact wakeful_of_ready rfl h.queue_eq_nil hwake

/-- Executing a piece of a command keeps a server wakeful, and where it leads is regular. -/
theorem Wakeful.piece (h : machine.Wakeful) {flight : InFlight} {standing : Standing}
    (hpiece : Piece host machine flight next standing) :
    next.Wakeful ∧ next.task = .ready ∧ standing.Regular := by
  cases hpiece with
  | starts htask hjob _ hbegun =>
    have hchosen := h.choice htask hjob
    refine ⟨wakeful_of_ready htask hchosen.queue_eq_nil
      (hchosen.wake_ne_parked (by simp [htask])), htask, ?_⟩
    rw [← hbegun]
    exact Execution.regular_start _
  | resumes htask _ hreached =>
    have hawake := h.awake htask
    refine ⟨wakeful_of_ready rfl hawake.queue_eq_nil (hawake.wake_ne_parked (by simp)), rfl, ?_⟩
    rw [← hreached]
    exact Execution.regular_resume (h.regular _ _ htask)

/-- Putting the outcome of a piece of a command into effect keeps a server wakeful. -/
theorem Wakeful.settle (h : machine.Wakeful) (htask : machine.task = .ready)
    {standing : Standing} (hregular : standing.Regular) (activation : Activation)
    (command : Command) (callee : Option Program) (seen : Nat) :
    (machine.settle host activation command callee seen standing).Wakeful := by
  have hwake := h.wake_ne_parked (by simp [htask])
  cases standing with
  | finished =>
    obtain ⟨heq, _⟩ | ⟨front, others, hqueue, _, heq⟩ :=
      Engine.commit_cases machine.engine activation callee
    · refine wakeful_of_ready rfl ?_ ?_
      · simpa only [Machine.settle, heq] using h.queue_eq_nil
      · simpa only [Machine.settle, heq] using hwake
    · refine wakeful_of_ready rfl (fun hstopped => ?_) ?_
      · have hstate : machine.engine.runState = .stopped := by
          simpa only [Machine.settle, heq] using hstopped
        cases hqueue.symm.trans (h.queue_eq_nil hstate)
      · simpa only [Machine.settle, heq] using hwake
  | failed failure => exact wakeful_of_ready rfl (fun _ => rfl) hwake
  | asleep ms pause =>
    obtain ⟨runState, hasleep⟩ := machine.engine.exists_noteAsleep_eq
    have hawake : machine.engine.noteAsleep.wake ≠ .parked := by simpa only [hasleep] using hwake
    refine ⟨fun hstopped => ?_, fun flight wakeAt hsuspended => ?_,
      fun hparked => absurd hparked hawake, fun hparked => absurd hparked hawake,
      fun _ hended => by cases hended⟩
    · have hstate : machine.engine.runState = .stopped := by
        have hnoted : machine.engine.noteAsleep.runState = .stopped := hstopped
        unfold Engine.noteAsleep at hnoted
        split at hnoted
        · cases hnoted
        · exact hnoted
      simpa [Machine.settle] using h.queue_eq_nil hstate
    · cases hsuspended
      exact hregular

/-- A step of the machine itself keeps a server wakeful. -/
theorem Wakeful.step (h : machine.Wakeful) (hstep : Step host machine next) : next.Wakeful := by
  cases hstep with
  | @starts engine front htask hjob =>
    have hfront := (Engine.choice_of_nextJob hjob).of_run.1
    obtain ⟨command, hcurrent⟩ := Activation.exists_current?_of_not_finished hfront
    rw [begin_of_current? hcurrent]
    have hpiece : Piece host machine _ _ _ := .starts htask hjob hcurrent rfl
    obtain ⟨hafter, hready, hregular⟩ := h.piece hpiece
    exact hafter.settle hready hregular _ _ _ _
  | @ends engine htask hjob =>
    have hchosen := h.choice htask hjob
    have hdown : engine.isShutDown = true := by
      cases Engine.choice_of_nextJob hjob with
      | shutDown hdown => exact hdown
    exact wakeful_of_awake hchosen.queue_eq_nil (hchosen.wake_ne_parked (by simp [htask]))
      (by simp) fun _ _ => hdown
  | @rests engine htask hjob =>
    have hnone : Run host { machine with engine } [] { machine with engine } := .nil _
    exact h.rest htask hjob hnone (by simp)
  | cancels htask => exact h.awake htask
  | @resumes flight wakeAt htask hlive htime =>
    rw [wake_of_live hlive]
    have hpiece : Piece host machine flight _ _ := .resumes htask htime rfl
    obtain ⟨hafter, hready, hregular⟩ := h.piece hpiece
    exact hafter.settle hready hregular _ _ _ _
  | unparks htask hwake => exact wakeful_of_ready rfl h.queue_eq_nil hwake

/-- A server stays wakeful however calls interleave with it. -/
theorem wakeful_of_served (h : Served host machine) : machine.Wakeful := by
  induction h with
  | new settings world => exact wakeful_new settings world
  | @move machine next move _ hmove ih =>
    by_cases hwork : move = .work
    · subst hwork
      exact ih.step (step_of_step? hmove)
    · exact ih.move hmove hwork
  | rests _ htask hjob hrun hwork ih => exact ih.rest htask hjob hrun hwork
  | settles _ hpiece hrun hwork ih =>
    obtain ⟨hafter, hready, hregular⟩ := ih.piece hpiece
    obtain ⟨hmiddle, hready⟩ := hafter.run hready hrun hwork
    exact hmiddle.settle hready hregular _ _ _ _
  | breaksOff _ hpiece hrun hwork _ ih =>
    obtain ⟨hafter, hready, _⟩ := ih.piece hpiece
    exact (hafter.run hready hrun hwork).1

/-! ## No wake-up is lost -/

/-- No wake-up is lost on a server. -/
structure Attentive (host : Host σ) (machine : Machine σ) : Prop where
  /-- A server that sleeps and was not woken has nothing to do, and would find nothing to do. -/
  nothingToDo : machine.task = .parked → machine.engine.wake = .parked →
    machine.engine.NothingToDo ∧ machine.engine.nextJob.2 = .idle
  /-- As soon as there is something to do for a sleeping server, the next thing that it does is to
  choose a command, whatever else is called before it gets to that. -/
  wakes : ∀ {library call moves last}, machine.task = .parked → machine.engine.wake = .parked →
    ¬(machine.handle library call).1.engine.NothingToDo →
    Run host (machine.handle library call).1 moves last → Move.work ∉ moves →
    last.step? host = some { last with task := .ready }
  /-- While there is something to do, the server gets to choosing a command if left alone. -/
  goesOn : machine.task ≠ .ended → ¬machine.engine.NothingToDo →
    ∃ moves, (drive host moves machine).task = .ready
  /-- The server returns only when the engine is shut down. -/
  returns : machine.mode = .serving → machine.task = .ended → machine.engine.isShutDown = true

/-- A server that was woken goes on to choose a command, whatever is called before. -/
theorem step?_of_woken (htask : machine.task = .parked) (hwake : machine.engine.wake ≠ .parked)
    (hrun : Run host machine moves last) (hwork : Move.work ∉ moves) :
    last.step? host = some { last with task := .ready } := by
  obtain ⟨hparked, hwoken⟩ : last.task = .parked ∧ last.engine.wake ≠ .parked := by
    refine hrun.keeps
      (P := fun machine => machine.task = .parked ∧ machine.engine.wake ≠ .parked) ?_
      ⟨htask, hwake⟩
    intro move hmem before after hbefore hmove
    have hother : move ≠ .work := fun heq => hwork (heq ▸ hmem)
    have hafter := task_eq_of_move? hmove hother (by simp [hbefore.1])
    refine ⟨hafter.trans hbefore.1, ?_⟩
    cases move with
    | work => exact absurd rfl hother
    | wait | drift =>
      cases hmove
      exact hbefore.2
    | launch mode => simp [move?, hbefore.1] at hmove
    | call library call =>
      cases hmove
      exact (before.engine.control_handle library call).wake_ne_parked hbefore.2
  simp only [step?, hparked, if_neg hwoken]

/-- A command under way comes to its end, and then the server chooses the next one. -/
theorem Wakeful.exists_drive_ready (h : machine.Wakeful) {flight : InFlight} {wakeAt : Nat}
    (htask : machine.task = .suspended flight wakeAt) :
    ∃ moves, (drive host moves machine).task = .ready := by
  cases hstopped : machine.engine.signal.stoppedSince flight.seen with
  | true =>
    refine ⟨1, ?_⟩
    simp only [drive, advance, step?, htask, hstopped, Bool.true_or, if_true,
      wake_of_stopped hstopped]
  | false =>
    obtain ⟨result, runState, _, moves, hdrive, _⟩ :=
      exists_works_resume host machine (h.regular flight wakeAt htask) htask hstopped
    refine ⟨moves, ?_⟩
    rw [hdrive]
    cases result.2 <;> rfl

/-- However calls interleave with a server, no wake-up is lost. -/
theorem attentive_of_served (hmachine : Served host machine) : machine.Attentive host := by
  have hwakeful := wakeful_of_served hmachine
  refine ⟨fun _ hwake => ?_, fun {library call moves last} htask hwake hwork hrun hothers => ?_,
    fun hended hwork => ?_, hwakeful.shutDown_of_ended⟩
  · have hidle := hwakeful.nothingToDo hwake
    exact ⟨hidle, hidle.nextJob_idle⟩
  · have hcontrol := machine.engine.control_handle library call
    rcases hcontrol.nothingToDo (hwakeful.nothingToDo hwake) with hnotified | ⟨_, hidle⟩
    · have hawake : (machine.handle library call).1.engine.wake ≠ .parked :=
        fun hparked => Wake.notify_ne_parked _ (hnotified.symm.trans hparked)
      have hparked : (machine.handle library call).1.task = .parked := htask
      exact step?_of_woken hparked hawake hrun hothers
    · exact absurd hidle hwork
  · cases htask : machine.task with
    | ready => exact ⟨0, htask⟩
    | suspended flight wakeAt => exact hwakeful.exists_drive_ready htask
    | parked =>
      have hwake : machine.engine.wake ≠ .parked :=
        fun hparked => hwork (hwakeful.nothingToDo hparked)
      have hstep : machine.step? host = some { machine with task := .ready } :=
        step?_of_woken htask hwake (.nil _) (by simp)
      exact ⟨1, by simp only [drive, advance, hstep]⟩
    | ended => exact absurd htask hended

/-- A server that found an empty queue, and a macro is queued before it goes to sleep: it chooses
again. -/
theorem attentive_of_served_in_between :
    ∃ machine : Machine DryRun, Served DryRun.host machine ∧ machine.task = .ready ∧
      machine.engine.wake = .quiet ∧ machine.engine.queue.length = 1 ∧
      machine.Attentive DryRun.host := by
  let started : Machine DryRun :=
    { engine := .ofSettings {}, world := { host := {} }, mode := .serving, task := .ready }
  have hstarted : Served DryRun.host started :=
    .move (.new {} { host := {} }) (show move? _ _ (.launch .serving) = some started from rfl)
  let queued : Machine DryRun :=
    (started.handle {} (.enqueue { name := "hello", contents := "/echo hello" } none)).1
  have hqueues : Run DryRun.host started
      [.call {} (.enqueue { name := "hello", contents := "/echo hello" } none)] queued :=
    .cons rfl (.nil _)
  have hserved : Served DryRun.host queued.rest :=
    .rests hstarted rfl (show started.engine.nextJob = (started.engine, .idle) from rfl) hqueues
      (by simp)
  have hseen : decide (queued.rest.task = .ready ∧ queued.rest.engine.wake = .quiet ∧
      queued.rest.engine.queue.length = 1) = true := by decide +kernel
  obtain ⟨htask, hwake, hqueue⟩ := of_decide_eq_true hseen
  exact ⟨queued.rest, hserved, htask, hwake, hqueue, attentive_of_served hserved⟩

end Machine

end GameMacros
