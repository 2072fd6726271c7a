import GameMacros.Proofs.Evaluation

/-!
# The pieces of a command

A command is executed in pieces, each up to its next sleep. Put together they carry out the command
in one go: the polls, the attempts and the waits in pieces lead to what the evaluation gives.
-/

namespace GameMacros.Execution

variable {σ : Type} {scope : Scope σ} {command : Command}

/-- The pieces of a command follow one another without a stop in between, until the command ends or
fails. -/
inductive Leads (scope : Scope σ) (command : Command) :
    World σ × Standing → World σ × Option CommandFailure → Prop
  | finished (world : World σ) : Leads scope command (world, .finished) (world, none)
  | failed (world : World σ) (failure : CommandFailure) :
      Leads scope command (world, .failed failure) (world, some failure)
  | asleep {world : World σ} {ms : Nat} {pause : Pause} {result : World σ × Option CommandFailure}
      (hnext : Leads scope command
        (resume scope command pause ((world.drawn pause.draws).sleep ms)) result) :
      Leads scope command (world, .asleep ms pause) result

/-- A trailing wait leads to the world after the wait. -/
theorem leads_trailingWait (world : World σ) :
    Leads scope command (world, trailingWait scope command world)
      (rested scope command world, none) := by
  unfold trailingWait rested
  split
  · exact .finished world
  · exact .asleep (.finished _)

/-- Performing an effect and waiting leads to the world after both. -/
theorem leads_performAndWait (world : World σ) (effect : Effect) :
    Leads scope command (performAndWait scope command world effect)
      (act scope command world effect) :=
  leads_trailingWait _

/-- An effect that the host may refuse leads to the wait or to the failure. -/
theorem leads_performUnlessRefused (world : World σ) (effect : Effect) (missing : CommandFailure)
    (refusal : Option Refusal) :
    Leads scope command (performUnlessRefused scope command world effect refusal missing)
      (actUnlessRefused scope command world effect missing refusal) := by
  unfold performUnlessRefused
  cases refusal with
  | none => exact leads_performAndWait world effect
  | some refusal =>
    cases refusal with
    | notFound => exact .failed _ missing
    | failed reason => exact .failed _ (.refused reason)

/-! ## Polls -/

/-- A poll that may ask `more` times after this one asks until its goal is reached, and goes on as
the last answer demands. -/
theorem leads_pursue {goal : Goal} {result : World σ × Option CommandFailure} (more : Nat)
    {poll : Poll} {world : World σ} (hinterval : poll.interval = goal.interval)
    (hmore : (poll.timeout - poll.waited) / goal.interval = more)
    (hwaited : poll.waited ≤ poll.timeout)
    (hresult : Leads scope command
      (if (await scope goal more world).2 then
        ((await scope goal more world).1,
          reached scope command (await scope goal more world).1 goal)
      else afterTimeout scope command (await scope goal more world).1 goal) result) :
    Leads scope command (pursue scope command goal poll world) result := by
  have hpositive : 0 < goal.interval := by cases goal <;> simp [Goal.interval]
  induction more generalizing poll world with
  | zero =>
    have hlast : poll.timeout < poll.waited + goal.interval := by
      have hlt := (Nat.div_eq_zero_iff_lt hpositive).mp hmore
      omega
    cases hreached : isReached scope world goal with
    | true =>
      simp only [await, hreached, if_true] at hresult
      simpa only [pursue, ask, Poll.next, hreached, if_true] using hresult
    | false =>
      simp only [await, hreached, Bool.false_eq_true, if_false] at hresult
      simpa only [pursue, ask, Poll.next, hreached, Bool.false_eq_true, if_false, hinterval,
        if_pos hlast] using hresult
  | succ more ih =>
    have hleft : more + 1 ≤ (poll.timeout - poll.waited) / goal.interval := Nat.le_of_eq hmore.symm
    have henough : goal.interval ≤ poll.timeout - poll.waited := by
      have hmul := (Nat.le_div_iff_mul_le hpositive).mp hleft
      rw [Nat.succ_mul] at hmul
      omega
    cases hreached : isReached scope world goal with
    | true =>
      simp only [await, hreached, if_true] at hresult
      simpa only [pursue, ask, Poll.next, hreached, if_true] using hresult
    | false =>
      simp only [await, hreached, Bool.false_eq_true, if_false] at hresult
      have hagain : ¬poll.timeout < poll.waited + goal.interval := by omega
      have hfewer : (poll.timeout - (poll.waited + goal.interval)) / goal.interval = more := by
        have hsub := Nat.sub_mul_div (poll.timeout - poll.waited) goal.interval 1
        rw [Nat.mul_one, hmore, Nat.sub_sub] at hsub
        simpa using hsub
      simp only [pursue, ask, Poll.next, hreached, Bool.false_eq_true, if_false, hinterval,
        if_neg hagain]
      refine .asleep (ih rfl hfewer (Nat.not_lt.mp hagain) hresult)

/-- A poll that is yet to ask for the first time asks as long as the line allows. -/
theorem leads_pursue_freshPoll (goal : Goal) {result : World σ × Option CommandFailure}
    {world : World σ}
    (hresult : Leads scope command
      (if (awaitInTime scope command goal world).2 then
        ((awaitInTime scope command goal world).1,
          reached scope command (awaitInTime scope command goal world).1 goal)
      else afterTimeout scope command (awaitInTime scope command goal world).1 goal) result) :
    Leads scope command (pursue scope command goal (freshPoll command goal) world) result :=
  leads_pursue _ rfl rfl (Nat.zero_le _) hresult

/-- Attempts at an action lead to what insisting on it gives. -/
theorem leads_attempt (name : String) (left : Nat) (world : World σ) :
    Leads scope command (attempt scope command name left world)
      (insist scope command name left world) := by
  induction left generalizing world with
  | zero => exact .failed _ _
  | succ left ih =>
    refine leads_pursue_freshPoll (.response name left) ?_
    rw [insist]
    cases awaitInTime scope command (.response name left)
        (world.perform scope.host (.useAction name)) with
    | mk world answered =>
      cases answered with
      | true =>
        simp only [if_true, reached]
        split
        · exact .finished world
        · exact leads_trailingWait world
      | false => exact ih world

/-- Polling leads to the wait if the goal is reached in time, and fails otherwise. -/
theorem leads_restWhenReached {goal : Goal} {late : CommandFailure} (world : World σ)
    (hreached : ∀ world, reached scope command world goal = trailingWait scope command world)
    (hlate : ∀ world, afterTimeout scope command world goal = (world, .failed late)) :
    Leads scope command (pursue scope command goal (freshPoll command goal) world)
      (restWhenReached scope command world goal late) := by
  refine leads_pursue_freshPoll goal ?_
  unfold restWhenReached
  cases awaitInTime scope command goal world with
  | mk world inTime =>
    cases inTime with
    | true =>
      simp only [if_true, hreached]
      exact leads_trailingWait world
    | false =>
      simp only [Bool.false_eq_true, if_false, hlate]
      exact .failed world late

/-! ## Whole commands -/

/-- A command that does not steer leaves its activation alone, calls nothing, and its pieces carry
it out. -/
theorem leads_carryOut (activation : Activation) (world : World σ)
    (hplain : command.steers = false) :
    (start scope command activation world).activation = activation ∧
      (start scope command activation world).callee = none ∧
      Leads scope command
        ((start scope command activation world).world,
          (start scope command activation world).standing)
        (carryOut scope command world) := by
  unfold Command.steers at hplain
  unfold start carryOut
  cases hkind : command.kind with
  | loop | craft | runMacro => simp [hkind] at hplain
  | action name unsafeAction condition =>
    refine ⟨rfl, rfl, ?_⟩
    dsimp only [action]
    split
    · exact leads_performAndWait world _
    · split
      · exact .finished world
      · split
        · exact leads_performAndWait world _
        · exact leads_attempt name _ world
  | click name => exact ⟨rfl, rfl, leads_performUnlessRefused world _ _ _⟩
  | keys motion combo => exact ⟨rfl, rfl, leads_performAndWait world _⟩
  | target name =>
    refine ⟨rfl, rfl, ?_⟩
    dsimp only [target]
    split
    · exact leads_performAndWait world _
    · cases world.ask scope.host.findTarget name command.index with
      | some id => exact leads_performAndWait world _
      | none =>
        dsimp only
        split
        · exact .failed world _
        · exact leads_performAndWait world _
  | recipe name =>
    refine ⟨rfl, rfl, ?_⟩
    dsimp only [recipe]
    split
    · exact .failed world _
    · cases choose (world.ask scope.host.classJob) (world.ask scope.host.recipesNamed name) with
      | some chosen => exact leads_performAndWait world _
      | none => exact .failed world _
  | item name hq => exact ⟨rfl, rfl, leads_performUnlessRefused world _ _ _⟩
  | require requirement =>
    exact ⟨rfl, rfl, leads_restWhenReached world (fun _ => rfl) (fun _ => rfl)⟩
  | waitAddon name =>
    exact ⟨rfl, rfl, leads_restWhenReached world (fun _ => rfl) (fun _ => rfl)⟩
  | wait => exact ⟨rfl, rfl, leads_trailingWait world⟩
  | native line => exact ⟨rfl, rfl, leads_performAndWait world _⟩

end GameMacros.Execution
