import GameMacros.Proofs.Cancellation

/-!
# What is shown while a command sleeps

A running engine whose command goes to sleep waits, and that is what is shown. During the sleep only
a pause, a resumption and a stop change the state. A resumption makes the engine run although its
command still sleeps. So while the activation of the sleeping command is in front of the queue, the
engine shows that it runs exactly if it was resumed from a pause during this very sleep and has not
been paused since.
-/

namespace GameMacros

namespace Engine

variable {engine : Engine}

/-- A call after which the engine runs: it ran before and was not paused, it was resumed from a
pause, or it was stopped. -/
theorem runState_of_handle_running {library : Library} {call : Call}
    (h : (engine.handle library call).1.runState = .running) :
    engine.runState = .running ∧ call ≠ .pause false ∨
      engine.runState = .paused ∧ call = .resume ∨ engine.runState = .stopped := by
  by_cases hpause : call = .pause false
  · subst hpause
    cases hstate : engine.runState <;> simp [handle, pause, hstate] at h
  have hcontrol := engine.control_handle library call
  generalize (engine.handle library call).1 = next at h hcontrol
  cases hcontrol with
  | queues _ program =>
    obtain ⟨runState, _, _, hpush, hstate⟩ := engine.exists_push_eq program
    rw [hpush] at h
    have hrunning : runState = .running := h
    rw [hstate] at hrunning
    split at hrunning
    · next hstopped => exact .inr (.inr hstopped)
    · exact .inl ⟨hrunning, hpause⟩
  | pauses => exact absurd rfl hpause
  | resumes hstate => exact .inr (.inl ⟨hstate, rfl⟩)
  | stops | shutsDown => cases h
  | unchanged | pausesAtLoop | steps | stopsAtLoop | logsIn | logsOut => exact .inl ⟨h, hpause⟩

/-- A running engine runs on after a call that neither pauses nor stops it. -/
theorem handle_runState_of_running {call : Call} (library : Library)
    (hstate : engine.runState = .running) (hpause : call ≠ .pause false)
    (hstops : ¬call.StopsAtOnce) : (engine.handle library call).1.runState = .running := by
  have hcontrol := engine.control_handle library call
  generalize (engine.handle library call).1 = next at hcontrol
  cases hcontrol with
  | queues _ program =>
    obtain ⟨runState, _, _, hpush, hrunState⟩ := engine.exists_push_eq program
    rw [hpush]
    simp [notify, hrunState, hstate]
  | pauses => exact absurd rfl hpause
  | resumes => rfl
  | stops => exact absurd (.inl rfl) hstops
  | shutsDown => exact absurd (.inr rfl) hstops
  | unchanged | pausesAtLoop | steps | stopsAtLoop | logsIn | logsOut => exact hstate

/-- What is shown of an engine that is logged in and not stopped. -/
theorem stateText_of_not_stopped (hin : engine.loggedIn = true)
    (hstate : engine.runState ≠ .stopped) :
    (engine.stateText = "Waiting" ∨ engine.stateText = "Paused" ∨ engine.stateText = "Running") ∧
      (engine.stateText = "Running" ↔ engine.runState = .running) := by
  unfold stateText
  rw [if_pos hin]
  cases hcase : engine.runState with
  | stopped => exact absurd hcase hstate
  | waiting | paused | running => simp [stateLabel]

end Engine

namespace Machine

variable {σ : Type} {host : Host σ} {machine next last : Machine σ} {moves : List (Move σ)}

/-! ## Moves during a sleep -/

/-- A run by some moves and then others passes through the machine in between. -/
theorem Run.exists_middle {moves more : List (Move σ)}
    (hrun : Run host machine (moves ++ more) last) :
    ∃ middle, Run host machine moves middle ∧ Run host middle more last := by
  induction moves generalizing machine with
  | nil => exact ⟨machine, .nil _, hrun⟩
  | cons move moves ih =>
    cases hrun with
    | cons hmove hrest =>
      obtain ⟨middle, hfirst, hsecond⟩ := ih hrest
      exact ⟨middle, .cons hmove hfirst, hsecond⟩

/-- A run by given moves can end in one way only. -/
theorem Run.last_unique {other : Machine σ} (hrun : Run host machine moves last)
    (hother : Run host machine moves other) : last = other := by
  induction hrun with
  | nil =>
    cases hother
    rfl
  | cons hmove _ ih =>
    cases hother with
    | cons hmove' hrest =>
      cases hmove.symm.trans hmove'
      exact ih hrest

/-- Only a step of the machine itself puts a command to sleep. -/
theorem suspended_of_move? {move : Move σ} (hmove : machine.move? host move = some next)
    (hwork : move ≠ .work) {flight : InFlight} {wakeAt : Nat}
    (htask : next.task = .suspended flight wakeAt) : machine.task = .suspended flight wakeAt := by
  cases move with
  | work => exact absurd rfl hwork
  | wait | drift | call =>
    cases hmove
    exact htask
  | launch mode =>
    simp only [move?] at hmove
    split at hmove
    · cases hmove
      cases htask
    · cases hmove

/-- A machine whose command sleeps works for the activation of that command. -/
theorem worker?_of_suspended {flight : InFlight} {wakeAt : Nat}
    (htask : machine.task = .suspended flight wakeAt) :
    machine.worker? = some flight.activation := by
  simp only [worker?, htask]

/-- A command that sleeps at the end of a run fell asleep at the last step of the machine itself. -/
theorem Run.exists_asleep {flight : InFlight} {wakeAt : Nat} (hrun : Run host machine moves last)
    (hstart : ∀ flight wakeAt, machine.task ≠ .suspended flight wakeAt)
    (htask : last.task = .suspended flight wakeAt) :
    ∃ early late before asleep, moves = early ++ .work :: late ∧ Move.work ∉ late ∧
      Run host machine early before ∧ before.step? host = some asleep ∧
      Run host asleep late last ∧ asleep.task = .suspended flight wakeAt := by
  have hkept {moves : List (Move σ)} {machine : Machine σ} (hrun : Run host machine moves last)
      (hwork : Move.work ∉ moves) : machine.task = .suspended flight wakeAt := by
    induction moves generalizing machine with
    | nil =>
      cases hrun
      exact htask
    | cons move moves ih =>
      obtain ⟨hother, hothers⟩ := not_or.mp (mt List.mem_cons.mpr hwork)
      cases hrun with
      | cons hmove hrest => exact suspended_of_move? hmove (Ne.symm hother) (ih hrest hothers)
  have hworked : Move.work ∈ moves := by
    by_contra hwork
    exact hstart flight wakeAt (hkept hrun hwork)
  obtain ⟨reversed, rest, hreverse, hfirst⟩ :=
    List.eq_append_cons_of_mem (List.mem_reverse.mpr hworked)
  have hmoves : moves = rest.reverse ++ .work :: reversed.reverse := by
    simpa using congrArg List.reverse hreverse
  have hlate : Move.work ∉ reversed.reverse := by simpa using hfirst
  rw [hmoves] at hrun
  obtain ⟨before, hearly, hrest⟩ := hrun.exists_middle
  cases hrest with
  | cons hstep hlast =>
    exact ⟨_, _, before, _, hmoves, hlate, hearly, hstep, hlast, hkept hlast hlate⟩

/-- An engine does not run when its command has just gone to sleep. -/
theorem Step.runState_ne_running (h : Step host machine next) {flight : InFlight} {wakeAt : Nat}
    (htask : next.task = .suspended flight wakeAt) : next.engine.runState ≠ .running := by
  have hsettle (machine : Machine σ) (activation : Activation) (command : Command)
      (callee : Option Program) (seen : Nat) (standing : Standing)
      (htask : (machine.settle host activation command callee seen standing).task =
        .suspended flight wakeAt) :
      (machine.settle host activation command callee seen standing).engine.runState ≠
        .running := by
    cases standing with
    | finished | failed => cases htask
    | asleep ms pause =>
      change machine.engine.noteAsleep.runState ≠ .running
      unfold Engine.noteAsleep
      split
      · simp
      · next hstate => exact hstate
  cases h with
  | starts _ hjob =>
    have hfront := (Engine.choice_of_nextJob hjob).of_run.1
    obtain ⟨command, hcurrent⟩ := Activation.exists_current?_of_not_finished hfront
    rw [begin_of_current? hcurrent] at htask ⊢
    exact hsettle _ _ _ _ _ _ htask
  | @rests engine hready =>
    obtain ⟨wake, task, hrest, hawake⟩ := exists_rest_eq { machine with engine } hready
    rw [hrest] at htask
    exact absurd htask (hawake flight wakeAt)
  | resumes _ hlive =>
    rw [wake_of_live hlive] at htask ⊢
    exact hsettle _ _ _ _ _ _ htask
  | ends | cancels | unparks => cases htask

/-! ## Activations that are gone -/

/-- The number was given to an activation that has left the queue. -/
def Gone (id : Nat) (machine : Machine σ) : Prop :=
  id < machine.engine.nextId ∧ ∀ activation ∈ machine.engine.queue, activation.id ≠ id

/-- An activation that has left the queue never comes back. -/
theorem Gone.move {id : Nat} (h : machine.Gone id) {move : Move σ}
    (hmove : machine.move? host move = some next) : next.Gone id := by
  have hproceeds := proceeds_of_move? hmove
  refine ⟨Nat.lt_of_lt_of_le h.1 hproceeds.frame.nextId_le, fun activation hmem => ?_⟩
  rcases hproceeds.renews activation hmem with ⟨old, hold, hid⟩ | hnew
  · rw [← hid]
    exact h.2 old hold
  · exact (Nat.ne_of_lt (Nat.lt_of_lt_of_le h.1 hnew)).symm

/-- An activation that has left the queue is not there at the end of a run. -/
theorem Gone.run {id : Nat} (h : machine.Gone id) (hrun : Run host machine moves last) :
    last.Gone id :=
  hrun.keeps (fun _ _ => fun hbefore hmove => hbefore.move hmove) h

/-! ## Resumptions during a sleep -/

/-- Along these moves the engine was resumed from a pause, and has not been paused since. -/
def ResumedAlong (host : Host σ) (machine : Machine σ) (moves : List (Move σ)) : Prop :=
  ∃ early late library paused, moves = early ++ .call library .resume :: late ∧
    Run host machine early paused ∧ paused.engine.runState = .paused ∧
    ∀ library, Move.call library (.pause false) ∉ late

/-- A running engine that is not paused while its command sleeps runs as long as the activation is
in the queue. -/
theorem Run.running_of_running {id : Nat} (hrun : Run host machine moves last)
    (hwork : Move.work ∉ moves) (hpause : ∀ library, Move.call library (.pause false) ∉ moves)
    (hid : id < machine.engine.nextId) (hqueued : ¬last.Gone id)
    (hstate : machine.engine.runState = .running) : last.engine.runState = .running := by
  induction hrun with
  | nil => exact hstate
  | @cons machine next last move moves hmove hrest ih =>
    have hlt : id < next.engine.nextId :=
      Nat.lt_of_lt_of_le hid (proceeds_of_move? hmove).frame.nextId_le
    refine ih (fun hmem => hwork (List.mem_cons_of_mem _ hmem))
      (fun library hmem => hpause library (List.mem_cons_of_mem _ hmem)) hlt hqueued ?_
    cases move with
    | work => exact absurd List.mem_cons_self hwork
    | wait | drift =>
      cases hmove
      exact hstate
    | launch mode =>
      simp only [move?] at hmove
      split at hmove
      · cases hmove
        exact hstate
      · cases hmove
    | call library call =>
      cases hmove
      refine Engine.handle_runState_of_running library hstate
        (fun heq => hpause library (heq ▸ List.mem_cons_self)) fun hstops => hqueued ?_
      have hempty : (machine.handle library call).1.engine.queue = [] :=
        (Engine.handle_of_stopsAtOnce hstops library).1
      have hgone : (machine.handle library call).1.Gone id := ⟨hlt, by simp [hempty]⟩
      exact hgone.run hrest

/-- An engine that runs while its command sleeps was resumed, or ran all the time. -/
theorem Run.resumed_of_running {id : Nat} (hrun : Run host machine moves last)
    (hmachine : machine.Reachable host) (hwork : Move.work ∉ moves)
    (hid : id < machine.engine.nextId) (hqueued : ¬last.Gone id)
    (hstate : last.engine.runState = .running) :
    ResumedAlong host machine moves ∨ machine.engine.runState = .running ∧
      ∀ library, Move.call library (.pause false) ∉ moves := by
  induction hrun with
  | nil => exact .inr ⟨hstate, by simp⟩
  | @cons machine next last move moves hmove hrest ih =>
    have hproceeds := proceeds_of_move? hmove
    rcases ih (hmachine.run (.cons hmove (.nil _)))
        (fun hmem => hwork (List.mem_cons_of_mem _ hmem))
        (Nat.lt_of_lt_of_le hid hproceeds.frame.nextId_le) hqueued hstate with
      ⟨early, late, library, paused, rfl, hearly, hpaused, hlate⟩ | ⟨hnext, hpause⟩
    · exact .inl ⟨move :: early, late, library, paused, rfl, .cons hmove hearly, hpaused, hlate⟩
    · -- The engine runs right after the first move: which one was it?
      have hsame (hengine : next.engine = machine.engine)
          (hcall : ∀ library call, move ≠ .call library call) :
          ResumedAlong host machine (move :: moves) ∨ machine.engine.runState = .running ∧
            ∀ library, Move.call library (.pause false) ∉ move :: moves := by
        refine .inr ⟨hengine ▸ hnext, fun library hmem => ?_⟩
        rcases List.mem_cons.mp hmem with heq | hmem
        · exact hcall library _ heq.symm
        · exact hpause library hmem
      cases move with
      | work => exact absurd List.mem_cons_self hwork
      | wait | drift =>
        cases hmove
        exact hsame rfl (by simp)
      | launch mode =>
        simp only [move?] at hmove
        split at hmove
        · cases hmove
          exact hsame rfl (by simp)
        · cases hmove
      | call library call =>
        have hhandled : (machine.engine.handle library call).1.runState = .running := by
          cases hmove
          exact hnext
        rcases Engine.runState_of_handle_running hhandled with
          ⟨hrunning, hcall⟩ | ⟨hpaused, rfl⟩ | hstopped
        · refine .inr ⟨hrunning, fun library hmem => ?_⟩
          rcases List.mem_cons.mp hmem with heq | hmem
          · cases heq
            exact hcall rfl
          · exact hpause library hmem
        · exact .inl ⟨[], moves, library, machine, rfl, .nil _, hpaused, hpause⟩
        · have hempty := (sound_of_reachable hmachine).engine.queue_eq_nil_iff.mpr hstopped
          have hgone : machine.Gone id := ⟨hid, by simp [hempty]⟩
          exact absurd (hgone.run (.cons hmove hrest)) hqueued

/-- While a command sleeps whose activation is in front of the queue, an engine that is logged in
shows that it waits or that it is paused. It shows that it runs exactly if it was resumed from a
pause since the command fell asleep, and has not been paused again. -/
theorem shown_while_asleep {settings : Settings} {world : World σ} {flight : InFlight}
    {wakeAt : Nat} (hrun : Run host { engine := .ofSettings settings, world } moves machine)
    (htask : machine.task = .suspended flight wakeAt) (hin : machine.engine.loggedIn = true)
    (hfront : ∃ front ∈ machine.engine.queue.head?, front.id = flight.activation.id) :
    ∃ early late before asleep, moves = early ++ .work :: late ∧ Move.work ∉ late ∧
      Run host { engine := .ofSettings settings, world } early before ∧
      before.step? host = some asleep ∧ asleep.task = .suspended flight wakeAt ∧
      Run host asleep late machine ∧
      (machine.engine.stateText = "Waiting" ∨ machine.engine.stateText = "Paused" ∨
        machine.engine.stateText = "Running") ∧
      (machine.engine.stateText = "Running" ↔ ResumedAlong host asleep late) := by
  obtain ⟨early, late, before, asleep, hmoves, hlate, hearly, hstep, hlast, hasleep⟩ :=
    hrun.exists_asleep (by simp) htask
  refine ⟨early, late, before, asleep, hmoves, hlate, hearly, hstep, hasleep, hlast, ?_⟩
  have hreached : before.Reachable host := ⟨settings, world, early, hearly⟩
  have hfalls : Run host before [.work] asleep := .cons hstep (.nil _)
  have hfell : asleep.Reachable host := hreached.run hfalls
  have hid : flight.activation.id < asleep.engine.nextId :=
    ((sound_of_reachable hfell).flight flight wakeAt hasleep).id_lt
  obtain ⟨front, hhead, hfront⟩ := hfront
  have hmem : front ∈ machine.engine.queue := List.mem_of_mem_head? hhead
  have hqueued : ¬machine.Gone flight.activation.id := fun hgone => hgone.2 front hmem hfront
  have hlive : machine.engine.runState ≠ .stopped := by
    intro hstopped
    have hempty :=
      (sound_of_reachable (hfell.run hlast)).engine.queue_eq_nil_iff.mpr hstopped
    simp [hempty] at hmem
  obtain ⟨hshown, hiff⟩ := Engine.stateText_of_not_stopped hin hlive
  refine ⟨hshown, hiff.trans ⟨fun hrunning => ?_, ?_⟩⟩
  · rcases hlast.resumed_of_running hfell hlate hid hqueued hrunning with hresumed | ⟨hstate, _⟩
    · exact hresumed
    · exact absurd hstate ((step_of_step? hstep).runState_ne_running hasleep)
  · rintro ⟨first, rest, library, paused, rfl, hfirst, hpaused, hpause⟩
    obtain ⟨middle, hmiddle, hrest⟩ := hlast.exists_middle
    obtain rfl := hmiddle.last_unique hfirst
    have hwork : Move.work ∉ rest := fun hmem => hlate (by simp [hmem])
    have hlt : flight.activation.id < middle.engine.nextId :=
      Nat.lt_of_lt_of_le hid (hmiddle.frame.nextId_le)
    cases hrest with
    | @cons _ resumed _ _ _ hresume hrest =>
      have hrunning : resumed.engine.runState = .running := by
        cases hresume
        simp [Machine.handle, Engine.handle, Engine.resume, hpaused, Engine.notify]
      have hlater := (proceeds_of_move? hresume).frame.nextId_le
      exact hrest.running_of_running hwork hpause (Nat.lt_of_lt_of_le hlt hlater) hqueued hrunning

/-- A command that sleeps while the engine is paused, resumed and paused again. What is shown in the
end is the pause. -/
theorem shown_while_asleep_paused_again :
    ∃ (moves : List (Move DryRun)) (machine : Machine DryRun) (flight : InFlight) (wakeAt : Nat),
      machine.task = .suspended flight wakeAt ∧ machine.engine.stateText = "Paused" ∧
        ∃ early late before asleep, moves = early ++ .work :: late ∧ Move.work ∉ late ∧
          Run DryRun.host { engine := .ofSettings {}, world := { host := {} } } early before ∧
          before.step? DryRun.host = some asleep ∧ asleep.task = .suspended flight wakeAt ∧
          Run DryRun.host asleep late machine ∧
          (machine.engine.stateText = "Waiting" ∨ machine.engine.stateText = "Paused" ∨
            machine.engine.stateText = "Running") ∧
          (machine.engine.stateText = "Running" ↔ ResumedAlong DryRun.host asleep late) := by
  let moves : List (Move DryRun) :=
    [.call {} (.enqueue { name := "rest", contents := "/wait 5" } none), .launch .untilIdle, .work,
      .call {} (.pause false), .wait 1000, .call {} .resume, .call {} (.pause false)]
  have hfollow : (follow? DryRun.host moves
      { engine := .ofSettings {}, world := { host := {} } }).map (fun machine =>
        decide (machine.wakeTime?.isSome = true ∧ machine.engine.loggedIn = true ∧
          machine.engine.queue.head?.map (·.id) = machine.worker?.map (·.id) ∧
          machine.engine.stateText = "Paused")) = some true := by decide +kernel
  obtain ⟨machine, hmachine, hseen⟩ := Option.map_eq_some_iff.mp hfollow
  obtain ⟨hasleep, hin, hfront, hshown⟩ := of_decide_eq_true hseen
  obtain ⟨flight, wakeAt, htask⟩ := exists_flight_of_wakeTime? hasleep
  rw [worker?_of_suspended htask] at hfront
  refine ⟨moves, machine, flight, wakeAt, htask, hshown, ?_⟩
  exact shown_while_asleep (run_of_follow? hmachine) htask hin (by simpa using hfront)

/-- A command that sleeps in front of the queue of an engine that is logged in, and the engine shows
that it runs: it was paused and resumed meanwhile. -/
theorem shown_running_while_asleep :
    ∃ (machine : Machine DryRun) (flight : InFlight) (wakeAt : Nat),
      machine.Reachable DryRun.host ∧ machine.engine.loggedIn = true ∧
        machine.task = .suspended flight wakeAt ∧
        machine.engine.queue.head?.map (·.id) = some flight.activation.id ∧
        machine.engine.stateText = "Running" := by
  let moves : List (Move DryRun) :=
    [.call {} (.enqueue { name := "rest", contents := "/wait 5" } none), .launch .untilIdle, .work,
      .wait 1000, .call {} (.pause false), .wait 2000, .call {} .resume]
  have hfollow : (follow? DryRun.host moves
      { engine := .ofSettings {}, world := { host := {} } }).map (fun machine =>
        decide (machine.wakeTime?.isSome = true ∧ machine.engine.loggedIn = true ∧
          machine.engine.queue.head?.map (·.id) = machine.worker?.map (·.id) ∧
          machine.engine.stateText = "Running")) = some true := by decide +kernel
  obtain ⟨machine, hmachine, hseen⟩ := Option.map_eq_some_iff.mp hfollow
  obtain ⟨hasleep, hin, hfront, hshown⟩ := of_decide_eq_true hseen
  obtain ⟨flight, wakeAt, htask⟩ := exists_flight_of_wakeTime? hasleep
  rw [worker?_of_suspended htask] at hfront
  have hreachable : machine.Reachable DryRun.host := ⟨_, _, moves, run_of_follow? hmachine⟩
  exact ⟨machine, flight, wakeAt, hreachable, hin, htask, hfront, hshown⟩

end Machine

end GameMacros
