import GameMacros.Proofs.Soundness

/-!
# Stopping at once

A stop at once, or a shutdown, may come while a command sleeps. From then on the machine has to do
only with activations that are queued later: these have greater numbers. The command that slept is
the one exception until its next step, which discards it and does nothing else. That it slept in a
poll, in a pause or in the wait of a call makes no difference.
-/

namespace GameMacros

/-- The call discards everything at once. -/
def Call.StopsAtOnce (call : Call) : Prop :=
  call = .stop false ∨ call = .shutDown

namespace Engine

variable {engine : Engine}

/-- A call that discards everything leaves an empty queue, a stopped engine and a stop signal. -/
theorem handle_of_stopsAtOnce {call : Call} (h : call.StopsAtOnce) (library : Library) :
    (engine.handle library call).1.queue = [] ∧
      (engine.handle library call).1.runState = .stopped ∧
      (engine.handle library call).1.signal = engine.signal.trigger ∧
      (engine.handle library call).1.nextId = engine.nextId := by
  rcases h with rfl | rfl <;> exact ⟨rfl, rfl, rfl, rfl⟩

/-- Only a queued activation starts a command. -/
theorem Choice.mem_of_run {next : Engine} {front : Activation}
    (h : Choice engine (next, .run front)) : front ∈ engine.queue := by
  obtain ⟨_, others, hqueue, _⟩ := h.of_run
  have hsublist : engine.dropFinished.queue.Sublist engine.queue := List.dropWhile_sublist _
  exact hsublist.subset (hqueue ▸ List.mem_cons_self)

/-- The queue of an engine has only numbers that another queue has, and new ones. -/
def Renews (engine next : Engine) : Prop :=
  ∀ activation ∈ next.queue,
    (∃ old ∈ engine.queue, old.id = activation.id) ∨ engine.nextId ≤ activation.id

/-- Nothing is new where the queue has only lost activations. -/
theorem renews_of_sublist {next : Engine} (h : next.queue.Sublist engine.queue) :
    engine.Renews next :=
  fun activation hmem => .inl ⟨activation, h.subset hmem, rfl⟩

/-- What is gone stays gone. -/
theorem Renews.trans {middle next : Engine} (h : engine.Renews middle) (h' : middle.Renews next)
    (hle : engine.nextId ≤ middle.nextId) : engine.Renews next := by
  intro activation hmem
  rcases h' activation hmem with ⟨old, hold, hid⟩ | hnew
  · rw [← hid]
    exact h old hold
  · exact .inr (Nat.le_trans hle hnew)

/-- The end of a command brings only the number of its activation, which is in front, and new
ones. -/
theorem renews_commit (activation : Activation) (callee : Option Program) :
    engine.Renews (engine.commit activation callee) := by
  obtain ⟨heq, _⟩ | ⟨front, others, hqueue, hid, heq⟩ := commit_cases engine activation callee
  · rw [heq]
    exact renews_of_sublist (.refl _)
  intro moved hmem
  rw [heq] at hmem
  rcases List.mem_append.mp hmem with hcalled | hmem
  · obtain ⟨program, _, rfl⟩ := Option.map_eq_some_iff.mp (Option.mem_toList.mp hcalled)
    exact .inr (Nat.le_refl _)
  · left
    rcases List.mem_cons.mp hmem with rfl | hmem
    · exact ⟨front, hqueue ▸ List.mem_cons_self, hid⟩
    · exact ⟨moved, hqueue ▸ List.mem_cons_of_mem _ hmem, rfl⟩

/-- A call brings only new numbers. -/
theorem Control.renews {call : Call} {next : Engine} (h : Control engine call next) :
    engine.Renews next := by
  obtain hqueue | hqueue | ⟨program, _, _, hqueue⟩ := h.queue_cases
  · exact renews_of_sublist (hqueue ▸ .refl _)
  · exact renews_of_sublist (hqueue ▸ List.nil_sublist _)
  intro activation hmem
  rw [hqueue] at hmem
  rcases List.mem_append.mp hmem with hmem | hmem
  · exact .inl ⟨activation, hmem, rfl⟩
  · rw [List.mem_singleton.mp hmem]
    exact .inr (Nat.le_refl _)

end Engine

namespace Machine

variable {σ : Type} {host : Host σ} {machine next : Machine σ}

/-! ## Numbers of activations -/

/-- From one machine to the next the engine gets later, brings back no number that is gone, and
works for an activation that it has had. -/
structure Proceeds (machine next : Machine σ) : Prop where
  frame : machine.engine.Frame next.engine
  renews : machine.engine.Renews next.engine
  flight_id : ∀ flight wakeAt, next.task = .suspended flight wakeAt →
    (∃ old time, machine.task = .suspended old time ∧ old.activation.id = flight.activation.id) ∨
      ∃ old ∈ machine.engine.queue, old.id = flight.activation.id

/-- A machine proceeds to one with no command under way if its engine does. -/
theorem proceeds_of_not_suspended (hframe : machine.engine.Frame next.engine)
    (hrenews : machine.engine.Renews next.engine)
    (htask : ∀ flight wakeAt, next.task ≠ .suspended flight wakeAt) : machine.Proceeds next :=
  ⟨hframe, hrenews, fun flight wakeAt h => absurd h (htask flight wakeAt)⟩

/-- A machine proceeds wherever a piece of a command leads that belongs to an activation in its
queue or to the command under way. -/
theorem proceeds_settle (middle : Machine σ) (hframe : machine.engine.Frame middle.engine)
    (hqueue : middle.engine.queue.Sublist machine.engine.queue) (activation : Activation)
    (hfrom : (∃ old time, machine.task = .suspended old time ∧
        old.activation.id = activation.id) ∨ ∃ old ∈ machine.engine.queue, old.id = activation.id)
    (command : Command) (callee : Option Program) (seen : Nat) (standing : Standing) :
    machine.Proceeds (middle.settle host activation command callee seen standing) := by
  have hrenews := Engine.renews_of_sublist hqueue
  cases standing with
  | finished =>
    exact proceeds_of_not_suspended (hframe.trans (Engine.frame_commit _ _ _))
      (hrenews.trans (Engine.renews_commit _ _) hframe.nextId_le) (by simp [settle])
  | failed failure =>
    exact proceeds_of_not_suspended (hframe.trans .same)
      (Engine.renews_of_sublist (List.nil_sublist _)) (by simp [settle])
  | asleep ms pause =>
    refine ⟨hframe.trans (Engine.frame_noteAsleep _), Engine.renews_of_sublist ?_, ?_⟩
    · simpa [settle] using hqueue
    · intro flight wakeAt htask
      cases htask
      exact hfrom

/-- A step of the machine proceeds. -/
theorem Step.proceeds (h : Step host machine next) : machine.Proceeds next := by
  cases h with
  | @starts engine front htask hjob =>
    have hchoice := Engine.choice_of_nextJob hjob
    have hmem : ∃ old ∈ machine.engine.queue, old.id = front.id :=
      ⟨front, hchoice.mem_of_run, rfl⟩
    obtain ⟨command, hcurrent⟩ := Activation.exists_current?_of_not_finished hchoice.of_run.1
    rw [begin_of_current? hcurrent]
    refine proceeds_settle { machine with engine, world := _ } hchoice.frame
      hchoice.queue_sublist _ (.inr ?_) command _ _ _
    rwa [(Execution.course_start _ command front _).id_eq]
  | ends htask hjob =>
    have hchoice := Engine.choice_of_nextJob hjob
    exact proceeds_of_not_suspended hchoice.frame (Engine.renews_of_sublist hchoice.queue_sublist)
      (by simp)
  | @rests engine htask hjob =>
    have hchoice := Engine.choice_of_nextJob hjob
    have hrenews := Engine.renews_of_sublist hchoice.queue_sublist
    obtain ⟨wake, task, hrest, hawake⟩ := exists_rest_eq { machine with engine } htask
    rw [hrest]
    exact proceeds_of_not_suspended (hchoice.frame.trans .same) hrenews hawake
  | cancels htask =>
    exact proceeds_of_not_suspended (Engine.frame_noteAwake _)
      (Engine.renews_of_sublist (machine.engine.noteAwake_queue ▸ .refl _)) (by simp)
  | @resumes flight wakeAt htask hlive =>
    rw [wake_of_live hlive]
    exact proceeds_settle
      { machine with engine := machine.engine.noteAwake, world := _, task := .ready }
      (Engine.frame_noteAwake _) (machine.engine.noteAwake_queue ▸ .refl _) _
      (.inl ⟨flight, wakeAt, htask, rfl⟩) flight.command _ _ _
  | unparks htask =>
    exact proceeds_of_not_suspended .same
      (Engine.renews_of_sublist (.refl _)) (by simp)

/-- Every move proceeds. -/
theorem proceeds_of_move? {move : Move σ} (h : machine.move? host move = some next) :
    machine.Proceeds next := by
  have hsame (task : Task) (world : World σ) (mode : Mode)
      (htask : task = machine.task ∨ task = .ready) :
      machine.Proceeds { machine with task, world, mode } := by
    refine ⟨.same, Engine.renews_of_sublist (.refl _), ?_⟩
    rintro flight wakeAt hsuspended
    rcases htask with rfl | rfl
    · exact .inl ⟨flight, wakeAt, hsuspended, rfl⟩
    · cases hsuspended
  cases move with
  | work => exact (step_of_step? h).proceeds
  | wait time =>
    cases h
    exact hsame _ _ _ (.inl rfl)
  | drift state =>
    cases h
    exact hsame _ _ _ (.inl rfl)
  | call library call =>
    cases h
    have hcontrol := machine.engine.control_handle library call
    exact ⟨hcontrol.frame, hcontrol.renews,
      fun flight wakeAt htask => .inl ⟨flight, wakeAt, htask, rfl⟩⟩
  | launch mode =>
    simp only [move?] at h
    split at h
    · cases h
      exact hsame _ _ _ (.inr rfl)
    · cases h

/-- No run takes back what only grows. -/
theorem Run.frame {last : Machine σ} {moves : List (Move σ)}
    (hrun : Run host machine moves last) : machine.engine.Frame last.engine := by
  induction hrun with
  | nil => exact .same
  | cons hmove _ ih => exact (proceeds_of_move? hmove).frame.trans ih

/-- Only a queued activation starts a command. -/
theorem mem_queue_of_starting? {activation : Activation}
    (h : machine.starting? = some activation) : activation ∈ machine.engine.queue := by
  obtain ⟨_, engine, hjob⟩ := nextJob_of_starting? h
  exact (Engine.choice_of_nextJob hjob).mem_of_run

/-- What the machine works for has its command under way, or is queued. -/
theorem worker?_cases {worker : Activation} (h : machine.worker? = some worker) :
    (∃ flight wakeAt, machine.task = .suspended flight wakeAt ∧ flight.activation = worker) ∨
      worker ∈ machine.engine.queue := by
  cases htask : machine.task with
  | suspended flight wakeAt =>
    simp only [worker?, htask, Option.some.injEq] at h
    exact .inl ⟨flight, wakeAt, rfl, h⟩
  | ready | parked | ended =>
    simp only [worker?, htask] at h
    exact .inr (mem_queue_of_starting? h)

/-- What a step does to the world it does for an activation. -/
theorem Step.world_eq_or_worker (h : Step host machine next) :
    next.world = machine.world ∨ ∃ worker, machine.worker? = some worker := by
  cases h with
  | @starts engine front htask hjob =>
    right
    exact ⟨front, by simp only [worker?, starting?, htask, hjob]⟩
  | @resumes flight _ htask => exact .inr ⟨flight.activation, by simp only [worker?, htask]⟩
  | ends | cancels | unparks => exact .inl rfl
  | rests => exact .inl (rest_world _)

/-! ## After a stop -/

/-- The command still sleeps that slept when the effects were those given, and nothing has started
since. -/
structure Lingers (flight : InFlight) (wakeAt : Nat) (past : List (Nat × Effect))
    (machine : Machine σ) : Prop where
  task_eq : machine.task = .suspended flight wakeAt
  not_waiting : machine.engine.runState ≠ .waiting
  past_eq : machine.world.past = past
  unstarted : ∀ activation ∈ machine.engine.queue, activation.IsUnstarted

/-- A command that lingers after a stop is discarded by the next step, which does nothing else. -/
theorem Lingers.step?_eq {flight : InFlight} {wakeAt : Nat} {past : List (Nat × Effect)}
    (h : machine.Lingers flight wakeAt past)
    (hstopped : machine.engine.signal.stoppedSince flight.seen = true) :
    machine.step? host = some { machine with task := .ready } := by
  have hawake : machine.engine.noteAwake = machine.engine := by
    rw [Engine.noteAwake, if_neg h.not_waiting]
  simp only [step?, h.task_eq, hstopped, Bool.true_or, if_true, wake_of_stopped hstopped, hawake]

/-- A command lingers until the machine works, whatever is called meanwhile. -/
theorem Lingers.move {flight : InFlight} {wakeAt : Nat} {past : List (Nat × Effect)}
    (h : machine.Lingers flight wakeAt past)
    (hstopped : machine.engine.signal.stoppedSince flight.seen = true) {move : Move σ}
    (hmove : machine.move? host move = some next) :
    next.Lingers flight wakeAt past ∨
      ∀ other time, next.task ≠ .suspended other time := by
  cases move with
  | work =>
    right
    have hnext := (h.step?_eq hstopped).symm.trans hmove
    cases hnext
    simp
  | wait time =>
    cases hmove
    exact .inl ⟨h.task_eq, h.not_waiting, h.past_eq, h.unstarted⟩
  | drift state =>
    cases hmove
    exact .inl ⟨h.task_eq, h.not_waiting, h.past_eq, h.unstarted⟩
  | call library call =>
    cases hmove
    have hcontrol := machine.engine.control_handle library call
    refine .inl ⟨h.task_eq, fun hw => h.not_waiting (hcontrol.waiting hw), h.past_eq, ?_⟩
    change ∀ activation ∈ (machine.engine.handle library call).1.queue, _
    obtain hqueue | hqueue | ⟨program, _, _, hqueue⟩ := hcontrol.queue_cases
    · rw [hqueue]
      exact h.unstarted
    · simp [hqueue]
    · intro activation hmem
      rw [hqueue] at hmem
      rcases List.mem_append.mp hmem with hmem | hmem
      · exact h.unstarted activation hmem
      · rw [List.mem_singleton.mp hmem]
        exact Activation.isUnstarted_ofProgram _ _
  | launch mode =>
    simp only [move?] at hmove
    split at hmove
    · next hended => cases hended.symm.trans h.task_eq
    · cases hmove

/-- Since a stop only activations from a number on are queued and under way, except for the command
that slept then. -/
structure Superseded (bound : Nat) (flight : InFlight) (wakeAt : Nat) (past : List (Nat × Effect))
    (machine : Machine σ) : Prop where
  bound_le : bound ≤ machine.engine.nextId
  stopped : machine.engine.signal.stoppedSince flight.seen = true
  queued_since : ∀ activation ∈ machine.engine.queue, bound ≤ activation.id
  flight_since : ∀ other time, machine.task = .suspended other time →
    bound ≤ other.activation.id ∨ machine.Lingers flight wakeAt past

/-- A stop is not forgotten by any move. -/
theorem Superseded.move {bound : Nat} {flight : InFlight} {wakeAt : Nat}
    {past : List (Nat × Effect)} (h : machine.Superseded bound flight wakeAt past)
    {move : Move σ} (hmove : machine.move? host move = some next) :
    next.Superseded bound flight wakeAt past := by
  have hproceeds := proceeds_of_move? hmove
  refine ⟨Nat.le_trans h.bound_le hproceeds.frame.nextId_le,
    hproceeds.frame.stoppedSince h.stopped, ?_, ?_⟩
  · intro activation hmem
    rcases hproceeds.renews activation hmem with ⟨old, hold, hid⟩ | hnew
    · rw [← hid]
      exact h.queued_since old hold
    · exact Nat.le_trans h.bound_le hnew
  · intro other time htask
    by_cases hlingers : machine.Lingers flight wakeAt past
    · rcases hlingers.move h.stopped hmove with hstill | hgone
      · exact .inr hstill
      · exact absurd htask (hgone other time)
    · left
      rcases hproceeds.flight_id other time htask with ⟨old, _, hold, hid⟩ | ⟨old, hold, hid⟩
      · rw [← hid]
        exact (h.flight_since old _ hold).resolve_right hlingers
      · rw [← hid]
        exact h.queued_since old hold

/-- A stop at once supersedes what was queued and the command that sleeps. -/
theorem superseded_of_stop {flight : InFlight} {wakeAt : Nat} (h : machine.Sound)
    (htask : machine.task = .suspended flight wakeAt) {call : Call} (hcall : call.StopsAtOnce)
    (library : Library) :
    (machine.handle library call).1.Superseded machine.engine.nextId flight wakeAt
      machine.world.past := by
  obtain ⟨hqueue, hstate, hsignal, hnextId⟩ :=
    machine.engine.handle_of_stopsAtOnce hcall library
  refine ⟨Nat.le_of_eq hnextId.symm, ?_, ?_, fun _ _ _ => .inr ⟨htask, ?_, rfl, ?_⟩⟩
  · change (machine.engine.handle library call).1.signal.stoppedSince flight.seen = true
    rw [hsignal]
    exact Engine.stoppedSince_trigger (h.flight flight wakeAt htask).seen_le
  · change ∀ activation ∈ (machine.engine.handle library call).1.queue, _
    simp [hqueue]
  · change (machine.engine.handle library call).1.runState ≠ _
    simp [hstate]
  · change ∀ activation ∈ (machine.engine.handle library call).1.queue, _
    simp [hqueue]

/-- How a machine works on after a stop at once. The numbers below the bound are those that were
given before. -/
structure Overruled (host : Host σ) (bound : Nat) (flight : InFlight) (wakeAt : Nat)
    (past : List (Nat × Effect)) (machine : Machine σ) : Prop where
  /-- What was queued is gone for good, and what it calls does not come. -/
  queued_since : ∀ activation ∈ machine.engine.queue, bound ≤ activation.id
  /-- Commands start only for what was queued since. -/
  starts_since : ∀ activation, machine.starting? = some activation → bound ≤ activation.id
  /-- Something is done only for what was queued since. -/
  works_since : ∀ next, machine.step? host = some next →
    next.world = machine.world ∨ ∃ worker, machine.worker? = some worker ∧ bound ≤ worker.id
  /-- The command that slept has done nothing since. The next step discards it, whatever the time,
  and does nothing else; whatever starts then starts at its beginning. -/
  discards : ∀ other time, machine.task = .suspended other time → other.activation.id < bound →
    other = flight ∧ time = wakeAt ∧ machine.world.past = past ∧
      machine.step? host = some { machine with task := .ready } ∧
      (∀ activation ∈ machine.engine.queue, activation.IsUnstarted) ∧
      ∀ activation, { machine with task := .ready }.starting? = some activation →
        activation.IsUnstarted

/-- A superseded command has no more say. -/
theorem Superseded.overruled {bound : Nat} {flight : InFlight} {wakeAt : Nat}
    {past : List (Nat × Effect)} (h : machine.Superseded bound flight wakeAt past) :
    machine.Overruled host bound flight wakeAt past := by
  have hstarts : ∀ activation, machine.starting? = some activation → bound ≤ activation.id :=
    fun activation hstart => h.queued_since activation (mem_queue_of_starting? hstart)
  refine ⟨h.queued_since, hstarts, ?_, ?_⟩
  · intro next hnext
    rcases (step_of_step? hnext).world_eq_or_worker with hworld | ⟨worker, hworker⟩
    · exact .inl hworld
    cases htask : machine.task with
    | ready | parked | ended =>
      have hstart : machine.starting? = some worker := by
        simpa only [worker?, htask] using hworker
      exact .inr ⟨worker, hworker, hstarts worker hstart⟩
    | suspended other time =>
      rcases h.flight_since other time htask with hsince | hlingers
      · have heq : other.activation = worker := by
          simpa only [worker?, htask, Option.some.injEq] using hworker
        exact .inr ⟨worker, hworker, heq ▸ hsince⟩
      · left
        cases (hlingers.step?_eq h.stopped).symm.trans hnext
        rfl
  · intro other time htask hlt
    have hlingers := (h.flight_since other time htask).resolve_left (Nat.not_le.mpr hlt)
    cases htask.symm.trans hlingers.task_eq
    exact ⟨rfl, rfl, hlingers.past_eq, hlingers.step?_eq h.stopped, hlingers.unstarted,
      fun activation hstart => hlingers.unstarted activation
        (@mem_queue_of_starting? σ { machine with task := .ready } activation hstart)⟩

/-- An engine that is shut down stays so, whatever moves follow. -/
theorem Run.isShutDown {last : Machine σ} {moves : List (Move σ)}
    (hrun : Run host machine moves last) (hdown : machine.engine.isShutDown = true) :
    last.engine.isShutDown = true :=
  hrun.frame.down_of_down hdown

/-- Nothing starts when the engine is shut down. -/
theorem starting?_of_isShutDown (h : machine.engine.isShutDown = true) :
    machine.starting? = none := by
  have hjob : machine.engine.nextJob.2 = .shutDown := by
    simp only [Engine.nextJob, h, if_true]
  unfold starting?
  split
  · next hrun => cases hjob.symm.trans hrun
  · rfl

/-- A stop at once or a shutdown overrules the command that sleeps and all that is queued, whatever
follows. After a shutdown nothing starts any more. -/
theorem stop_overrules_sleeping_command {last : Machine σ} {flight : InFlight} {wakeAt : Nat}
    {call : Call} {library : Library} {moves : List (Move σ)} (hmachine : machine.Reachable host)
    (htask : machine.task = .suspended flight wakeAt) (hcall : call.StopsAtOnce)
    (hrun : Run host (machine.handle library call).1 moves last) :
    (flight.activation.id < machine.engine.nextId ∧
        ∀ activation ∈ machine.engine.queue, activation.id < machine.engine.nextId) ∧
      last.Overruled host machine.engine.nextId flight wakeAt machine.world.past ∧
      (call = .shutDown → last.engine.queue = [] ∧ last.starting? = none) := by
  have hsound := sound_of_reachable hmachine
  refine ⟨⟨(hsound.flight flight wakeAt htask).id_lt, hsound.engine.id_lt⟩, ?_, ?_⟩
  · refine Superseded.overruled (hrun.keeps (fun _ _ => fun hbefore hmove => hbefore.move hmove) ?_)
    exact superseded_of_stop hsound htask hcall library
  · rintro rfl
    have hdown := hrun.isShutDown rfl
    have hreached : Run host machine (.call library .shutDown :: moves) last := .cons rfl hrun
    exact ⟨(sound_of_reachable (hmachine.run hreached)).engine.queue_eq_nil_of_shutDown hdown,
      starting?_of_isShutDown hdown⟩

/-- A stop overrules a macro that is about to rewind, when the same macro is queued again. -/
theorem stop_overrules_rewinding_macro :
    ∃ (machine last : Machine DryRun) (flight : InFlight) (wakeAt : Nat),
      machine.task = .suspended flight wakeAt ∧ last.task = machine.task ∧
        last.engine.queue.map Activation.id = [machine.engine.nextId] ∧
        last.Overruled DryRun.host machine.engine.nextId flight wakeAt machine.world.past := by
  let twice : SavedMacro := { name := "twice", contents := "/loop 2" }
  let moves : List (Move DryRun) :=
    [.call {} (.enqueue twice none), .launch .serving, .work]
  have hfollow : (follow? DryRun.host moves
      { engine := .ofSettings {}, world := { host := {} } }).map (fun machine =>
        (machine.engine.runState,
        ((machine.handle {} (.stop false)).1.handle {} (.enqueue twice none)).1.engine.queue.map
          Activation.id == [machine.engine.nextId])) = some (.waiting, true) := by decide +kernel
  obtain ⟨machine, hmachine, hseen⟩ := Option.map_eq_some_iff.mp hfollow
  obtain ⟨hstate, hqueue⟩ := Prod.mk.inj hseen
  have hreachable : machine.Reachable DryRun.host := ⟨_, _, moves, run_of_follow? hmachine⟩
  obtain ⟨flight, wakeAt, htask⟩ := (sound_of_reachable hreachable).suspended_of_waiting hstate
  let last := ((machine.handle {} (.stop false)).1.handle {} (.enqueue twice none)).1
  have hrun : Run DryRun.host (machine.handle {} (.stop false)).1
      [.call {} (.enqueue twice none)] last := .cons rfl (.nil _)
  exact ⟨machine, last, flight, wakeAt, htask, rfl, by simpa using hqueue,
    (stop_overrules_sleeping_command hreachable htask (.inl rfl) hrun).2.1⟩

end Machine

end GameMacros
