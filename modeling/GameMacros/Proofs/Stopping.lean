import GameMacros.Proofs.Polling

/-!
# Requests and stops

Work uses its timer again and again: it sleeps, it polls, and in between it is busy elsewhere. A
request ends as it would without a stop, if it ends before the next stop, and at that stop
otherwise. So a timer is stopped from the first stop on and not before. A stop at the very time at
which a sleep ends is taken to come after it.
-/

namespace GameMacros.Timer

variable {α : Type} {timer start : Timer}

/-! ## Uses of a timer -/

/-- What work asks of its timer. -/
inductive Request (α : Type) where
  | sleep (ms : Nat)
  /-- It polls, and asks at most `more` times after the first. -/
  | poll (interval timeout more : Nat) (probe : (asked now : Nat) → Option α)

/-- What becomes of a request. A poll gives the times of its questions too. -/
inductive Answer (α : Type) where
  | slept (outcome : SleepOutcome)
  | polled (outcome : PollOutcome α) (probes : List Nat)

/-- What work does next. -/
inductive Turn (α : Type) where
  | request (request : Request α)
  /-- It is busy elsewhere for a time. -/
  | elsewhere (ms : Nat)

namespace Answer

/-- The request was broken off or refused. -/
def isCancelled : Answer α → Bool
  | .slept .cancelled | .polled .cancelled _ => true
  | .slept .elapsed | .polled (.ready _) _ | .polled .timedOut _ | .polled .unsettled _ => false

/-- The request was not given up. -/
def isSettled : Answer α → Bool
  | .polled .unsettled _ => false
  | .slept _ | .polled (.ready _) _ | .polled .timedOut _ | .polled .cancelled _ => true

/-- The times of the questions that were asked. -/
def probes : Answer α → List Nat
  | .slept _ => []
  | .polled _ probes => probes

/-- What becomes of a poll that has asked once before. -/
def afterProbe (time : Nat) : Answer α → Answer α
  | .slept outcome => .slept outcome
  | .polled outcome probes => .polled outcome (time :: probes)

/-- What becomes of the request if it is broken off at a time: what was asked until then was
asked. -/
def brokenOff (stop : Nat) : Answer α → Answer α
  | .slept _ => .slept .cancelled
  | .polled _ probes => .polled .cancelled (probes.filter (· ≤ stop))

/-- That a poll has asked once before does not tell whether it is cancelled. -/
theorem isCancelled_afterProbe (time : Nat) (answer : Answer α) :
    (answer.afterProbe time).isCancelled = answer.isCancelled := by
  cases answer with
  | slept outcome => rfl
  | polled outcome probes => cases outcome <;> rfl

/-- A poll that has asked once before has asked then, or later. -/
theorem mem_probes_afterProbe {time probe : Nat} {answer : Answer α}
    (h : probe ∈ (answer.afterProbe time).probes) : probe = time ∨ probe ∈ answer.probes := by
  cases answer with
  | slept outcome => exact .inr h
  | polled outcome probes => exact List.mem_cons.mp h

/-- A poll that has asked once before is broken off when its remainder is. -/
theorem brokenOff_afterProbe {time stop : Nat} (hle : time ≤ stop) (answer : Answer α) :
    (answer.afterProbe time).brokenOff stop = (answer.brokenOff stop).afterProbe time := by
  cases answer with
  | slept outcome => rfl
  | polled outcome probes => simp [afterProbe, brokenOff, hle]

/-- A poll that is broken off before its second question has asked once. -/
theorem brokenOff_polled_cons {time stop : Nat} {probes : List Nat} (hle : time ≤ stop)
    (hlate : ∀ probe ∈ probes, stop < probe) (outcome : PollOutcome α) :
    (Answer.polled outcome (time :: probes)).brokenOff stop = .polled .cancelled [time] := by
  have hnone : probes.filter (· ≤ stop) = [] := by
    rw [List.filter_eq_nil_iff]
    intro probe hmem
    have hlt := hlate probe hmem
    simp only [decide_eq_true_eq]
    omega
  simp [brokenOff, hle, hnone]

end Answer

namespace Request

/-- The answer of a timer that is stopped. Nothing is asked. -/
def refusal : Request α → Answer α
  | .sleep _ => .slept .cancelled
  | .poll .. => .polled .cancelled []

/-- The request may ask as often as its time limit allows. -/
def Bounded : Request α → Prop
  | .sleep _ => True
  | .poll interval timeout more _ => 0 < interval ∧ timeout / interval ≤ more

end Request

/-- When the signal is fired next, if it is ever. -/
def stopAt? (timer : Timer) : Option Nat :=
  timer.firings.head?.map (·.1)

/-- The timer if the signal is not fired any more. -/
def undisturbed (timer : Timer) : Timer :=
  { timer with firings := [] }

/-- Goes on with a poll. -/
def polling (timer : Timer) (probe : (asked now : Nat) → Option α) (allowed asked : Nat)
    (poll : Poll) : Answer α × Timer :=
  let (outcome, probes, last) := pollWith probe allowed asked poll timer
  (.polled outcome probes, last)

/-- Does what work asks for. -/
def respond (timer : Timer) : Request α → Answer α × Timer
  | .sleep ms =>
    let (outcome, woken) := timer.sleep ms
    (.slept outcome, woken)
  | .poll interval timeout more probe => timer.polling probe (more + 1) 0 { interval, timeout }

/-- What happens to the signal up to a time. -/
def due (timer : Timer) (finish : Nat) : List (Nat × Firing) :=
  timer.firings.takeWhile (·.1 ≤ finish)

/-- Lets the clock run while work is busy elsewhere. What is due meanwhile is fired. -/
def pass (timer : Timer) (ms : Nat) : Timer :=
  { (timer.due (timer.now + ms)).foldl (fun timer _ => timer.fire) timer with
    now := timer.now + ms }

/-- The answer, if there was a request, and the timer after a turn. -/
def turn (timer : Timer) : Turn α → Option (Answer α) × Timer
  | .request request =>
    let (answer, last) := timer.respond request
    (some answer, last)
  | .elsewhere ms => (none, timer.pass ms)

/-- The timer after some turns. -/
def after (timer : Timer) (turns : List (Turn α)) : Timer :=
  turns.foldl (fun timer turn => (timer.turn turn).2) timer

/-! ## One request -/

/-- No stop has come since the timer was made, and the next one is still to come. -/
structure Waiting (timer : Timer) : Prop where
  live : timer.isStopped = false
  seen_le : timer.seen ≤ timer.signal.count
  ahead : ∀ stop ∈ timer.stopAt?, timer.now ≤ stop

/-- What is fired next is the first of the firings. -/
theorem mem_stopAt? {stop : Nat} :
    stop ∈ timer.stopAt? ↔ ∃ firing later, timer.firings = (stop, firing) :: later := by
  unfold stopAt?
  cases timer.firings with
  | nil => simp
  | cons entry later =>
    obtain ⟨time, firing⟩ := entry
    simp

/-- A signal that is fired stops everything that noted its count before. -/
theorem stoppedSince_fire {signal : StopSignal} {seen : Nat} (h : seen ≤ signal.count)
    (firing : Firing) : (signal.fire firing).stoppedSince seen = true := by
  unfold StopSignal.fire StopSignal.trigger StopSignal.drop StopSignal.stoppedSince
  cases firing with
  | drop => rfl
  | trigger =>
    cases hdropped : signal.dropped with
    | true => simp [hdropped]
    | false => simp [Nat.lt_succ_of_le h]

/-- The clock of a timer that sleeps once. -/
theorem now_slept_one (timer : Timer) (gap : Nat) : (timer.slept gap 1).now = timer.now + gap := by
  rw [slept_one]

/-- A signal that is fired has counted no fewer stops. -/
theorem count_le_fire (signal : StopSignal) (firing : Firing) :
    signal.count ≤ (signal.fire firing).count := by
  unfold StopSignal.fire StopSignal.trigger StopSignal.drop
  cases firing with
  | drop => exact Nat.le_refl _
  | trigger =>
    dsimp only
    split
    · exact Nat.le_refl _
    · exact Nat.le_succ _

/-- A sleep that ends before the next stop leaves it to come. -/
theorem Waiting.slept (h : timer.Waiting) {gap : Nat}
    (hahead : ∀ stop ∈ timer.stopAt?, timer.now + gap ≤ stop) : (timer.slept gap 1).Waiting := by
  refine ⟨h.live, h.seen_le, fun stop hstop => ?_⟩
  rw [slept_one]
  exact hahead stop hstop

/-- A timer whose signal is not fired any more waits for nothing. -/
theorem Waiting.undisturbed (h : timer.Waiting) : timer.undisturbed.Waiting :=
  ⟨h.live, h.seen_le, fun _ hstop => nomatch hstop⟩

/-- That does not change when it sleeps. -/
theorem Waiting.undisturbed_slept (h : timer.Waiting) (gap : Nat) :
    (timer.slept gap 1).undisturbed.Waiting :=
  ⟨h.live, h.seen_le, fun _ hstop => nomatch hstop⟩

/-- A sleep comes to its end, or the next stop ends it at once. -/
theorem Waiting.sleep_cases (h : timer.Waiting) (ms : Nat) :
    (∀ stop ∈ timer.stopAt?, timer.now + Sleep.granted ms ≤ stop) ∧
        timer.sleep ms = (.elapsed, timer.slept (Sleep.granted ms) 1) ∨
      ∃ stop ∈ timer.stopAt?, stop < timer.now + Sleep.granted ms ∧
        ∃ last, timer.sleep ms = (.cancelled, last) ∧ last.now = stop ∧
          last.isStopped = true := by
  by_cases hearly : ∃ stop ∈ timer.stopAt?, stop < timer.now + Sleep.granted ms
  · right
    obtain ⟨stop, hstop, hearly⟩ := hearly
    obtain ⟨firing, later, hfirings⟩ := mem_stopAt?.mp hstop
    have hahead := h.ahead stop hstop
    have hafter : timer.firings = (timer.now + (stop - timer.now), firing) :: later := by
      rw [hfirings, Nat.add_sub_cancel' hahead]
    refine ⟨stop, hstop, hearly, _, sleep_of_stop h.live hafter (by omega), ?_, ?_⟩
    · exact Nat.add_sub_cancel' hahead
    · exact stoppedSince_fire h.seen_le firing
  · left
    have hcalm : ∀ stop ∈ timer.stopAt?, timer.now + Sleep.granted ms ≤ stop := by
      intro stop hstop
      apply Nat.not_lt.mp
      intro hlt
      exact hearly ⟨stop, hstop, hlt⟩
    refine ⟨hcalm, sleep_of_calm h.live fun entry hentry => ?_⟩
    exact hcalm entry.1 (Option.mem_map_of_mem _ hentry)

/-- A sleep at a timer whose signal is not fired any more comes to its end. -/
theorem Waiting.sleep_undisturbed (h : timer.Waiting) (ms : Nat) :
    timer.undisturbed.sleep ms =
      (.elapsed, (timer.slept (Sleep.granted ms) 1).undisturbed) := by
  rcases h.undisturbed.sleep_cases ms with ⟨_, hsleep⟩ | ⟨stop, hstop, _⟩
  · rw [hsleep, slept_one, slept_one]
    rfl
  · cases hstop

/-- How a request ends at a timer that is not stopped, given how it would end if no stop came: just
so if it ends before the next stop, and otherwise at that stop. -/
inductive Fate (timer : Timer) (calm : Answer α × Timer) : Answer α × Timer → Prop
  | undisturbed (hstop : ∀ stop ∈ timer.stopAt?, calm.2.now ≤ stop) :
      Fate timer calm (calm.1, { calm.2 with firings := timer.firings })
  | brokenOff {stop : Nat} {last : Timer} (hstop : stop ∈ timer.stopAt?)
      (hearly : stop < calm.2.now) (hnow : last.now = stop) (hstopped : last.isStopped = true) :
      Fate timer calm (calm.1.brokenOff stop, last)

/-- How a request ends if no stop comes. -/
structure Calm (timer : Timer) (calm : Answer α × Timer) : Prop where
  not_cancelled : calm.1.isCancelled = false
  probes_le : ∀ time ∈ calm.1.probes, timer.now ≤ time
  waiting : calm.2.Waiting
  now_le : timer.now ≤ calm.2.now

/-! ## Polls -/

section Polls

variable {probe : (asked now : Nat) → Option α} {allowed asked : Nat} {poll later : Poll}
  {woken : Timer}

/-- A poll is refused by a timer that is stopped. -/
theorem polling_of_stopped (hstopped : timer.isStopped = true) :
    timer.polling probe (allowed + 1) asked poll = (.polled .cancelled [], timer) := by
  rw [polling, pollWith, if_pos hstopped]

/-- A poll ends with the first answer. -/
theorem polling_of_ready (hlive : timer.isStopped = false) {answer : α}
    (hnext : poll.next (probe asked timer.now) = .ready answer) :
    timer.polling probe (allowed + 1) asked poll =
      (.polled (.ready answer) [timer.now], timer) := by
  rw [polling, pollWith, if_neg (by simp [hlive]), hnext]

/-- A poll ends with the last question. -/
theorem polling_of_timedOut (hlive : timer.isStopped = false)
    (hnext : poll.next (probe asked timer.now) = .timedOut) :
    timer.polling probe (allowed + 1) asked poll = (.polled .timedOut [timer.now], timer) := by
  rw [polling, pollWith, if_neg (by simp [hlive]), hnext]

/-- A poll ends when its sleep is broken off. -/
theorem polling_of_cancelled (hlive : timer.isStopped = false)
    (hnext : poll.next (probe asked timer.now) = .asleep later)
    (hsleep : timer.sleep poll.interval = (.cancelled, woken)) :
    timer.polling probe (allowed + 1) asked poll = (.polled .cancelled [timer.now], woken) := by
  rw [polling, pollWith, if_neg (by simp [hlive]), hnext]
  simp only [hsleep]

/-- A poll goes on when its sleep has ended. -/
theorem polling_of_elapsed (hlive : timer.isStopped = false)
    (hnext : poll.next (probe asked timer.now) = .asleep later)
    (hsleep : timer.sleep poll.interval = (.elapsed, woken)) :
    timer.polling probe (allowed + 1) asked poll =
      ((woken.polling probe allowed (asked + 1) later).1.afterProbe timer.now,
        (woken.polling probe allowed (asked + 1) later).2) := by
  rw [polling, pollWith, if_neg (by simp [hlive]), hnext]
  simp only [hsleep]
  rfl

/-- If no stop comes, a poll is not cancelled. -/
theorem Waiting.calm_polling (h : timer.Waiting) :
    Calm timer (timer.undisturbed.polling probe allowed asked poll) := by
  induction allowed generalizing timer asked poll with
  | zero => exact ⟨rfl, List.forall_mem_nil _, h.undisturbed, Nat.le_refl _⟩
  | succ allowed ih =>
    have hprobe : ∀ time ∈ [timer.now], timer.now ≤ time := by
      intro time hmem
      exact Nat.le_of_eq (List.mem_singleton.mp hmem).symm
    cases hnext : poll.next (probe asked timer.undisturbed.now) with
    | ready answer =>
      rw [polling_of_ready h.undisturbed.live hnext]
      exact ⟨rfl, hprobe, h.undisturbed, Nat.le_refl _⟩
    | timedOut =>
      rw [polling_of_timedOut h.undisturbed.live hnext]
      exact ⟨rfl, hprobe, h.undisturbed, Nat.le_refl _⟩
    | asleep later =>
      have hcalm := @ih (timer.slept (Sleep.granted poll.interval) 1).undisturbed (asked + 1) later
        (h.undisturbed_slept _)
      have hwoken : timer.now ≤ (timer.slept (Sleep.granted poll.interval) 1).undisturbed.now :=
        Nat.le_add_right _ _
      rw [polling_of_elapsed h.undisturbed.live hnext (h.sleep_undisturbed poll.interval)]
      refine ⟨?_, ?_, hcalm.waiting, Nat.le_trans hwoken hcalm.now_le⟩
      · dsimp only
        rw [Answer.isCancelled_afterProbe]
        exact hcalm.not_cancelled
      · intro time hmem
        dsimp only at hmem
        rcases Answer.mem_probes_afterProbe hmem with rfl | hlater
        · exact Nat.le_refl _
        · exact Nat.le_trans hwoken (hcalm.probes_le time hlater)

/-- A poll that has slept once ends as its remainder does. -/
theorem Fate.after_slept {gap : Nat} (h : timer.Waiting) {calm result : Answer α × Timer}
    (hfate : Fate (timer.slept gap 1) calm result) :
    Fate timer (calm.1.afterProbe timer.now, calm.2)
      (result.1.afterProbe timer.now, result.2) := by
  cases hfate with
  | undisturbed hstop => exact .undisturbed hstop
  | @brokenOff stop last hstop hearly hnow hstopped =>
    dsimp only
    rw [← Answer.brokenOff_afterProbe (h.ahead stop hstop)]
    exact .brokenOff hstop hearly hnow hstopped

/-- A poll ends as it would without a stop, or at the next stop. -/
theorem Waiting.fate_polling (h : timer.Waiting) :
    Fate timer (timer.undisturbed.polling probe allowed asked poll)
      (timer.polling probe allowed asked poll) := by
  induction allowed generalizing timer asked poll with
  | zero => exact .undisturbed h.ahead
  | succ allowed ih =>
    cases hnext : poll.next (probe asked timer.now) with
    | ready answer =>
      rw [polling_of_ready h.live hnext, polling_of_ready h.undisturbed.live hnext]
      exact .undisturbed h.ahead
    | timedOut =>
      rw [polling_of_timedOut h.live hnext, polling_of_timedOut h.undisturbed.live hnext]
      exact .undisturbed h.ahead
    | asleep later =>
      rw [polling_of_elapsed h.undisturbed.live hnext (h.sleep_undisturbed poll.interval)]
      rcases h.sleep_cases poll.interval with
        ⟨hahead, hsleep⟩ | ⟨stop, hstop, hearly, last, hsleep, hnow, hstopped⟩
      · rw [polling_of_elapsed h.live hnext hsleep]
        exact (ih (h.slept hahead)).after_slept h
      · have hcalm : Calm (timer.slept (Sleep.granted poll.interval) 1).undisturbed
            ((timer.slept (Sleep.granted poll.interval) 1).undisturbed.polling probe allowed
              (asked + 1) later) :=
          (h.undisturbed_slept _).calm_polling
        have hwoken : stop < (timer.slept (Sleep.granted poll.interval) 1).undisturbed.now := by
          change stop < (timer.slept _ 1).now
          rwa [now_slept_one]
        have hlate : ∀ time ∈ _, stop < time := fun time hmem =>
          Nat.lt_of_lt_of_le hwoken (hcalm.probes_le time hmem)
        rw [polling_of_cancelled h.live hnext hsleep,
          ← Answer.brokenOff_polled_cons (h.ahead stop hstop) hlate]
        exact .brokenOff hstop (Nat.lt_of_lt_of_le hwoken hcalm.now_le) hnow hstopped

end Polls

/-! ## Requests -/

/-- If no stop comes, no request is cancelled. -/
theorem Waiting.calm (h : timer.Waiting) (request : Request α) :
    Calm timer (timer.undisturbed.respond request) := by
  cases request with
  | sleep ms =>
    rw [respond, h.sleep_undisturbed]
    exact ⟨rfl, List.forall_mem_nil _, h.undisturbed_slept _, Nat.le_add_right _ _⟩
  | poll interval timeout more probe =>
    rw [respond]
    exact h.calm_polling

/-- A request ends as it would without a stop, or at the next stop. -/
theorem Waiting.fate (h : timer.Waiting) (request : Request α) :
    Fate timer (timer.undisturbed.respond request) (timer.respond request) := by
  cases request with
  | sleep ms =>
    have hcalm : timer.undisturbed.respond (.sleep ms : Request α) =
        (.slept .elapsed, (timer.slept (Sleep.granted ms) 1).undisturbed) := by
      rw [respond, h.sleep_undisturbed]
    have hnow : (timer.slept (Sleep.granted ms) 1).undisturbed.now =
        timer.now + Sleep.granted ms := now_slept_one timer _
    rw [hcalm]
    rcases h.sleep_cases ms with
      ⟨hahead, hsleep⟩ | ⟨stop, hstop, hearly, last, hsleep, hlast, hstopped⟩
    · rw [respond, hsleep]
      exact .undisturbed (by rwa [hnow])
    · rw [respond, hsleep]
      exact .brokenOff hstop (by rwa [hnow]) hlast hstopped
  | poll interval timeout more probe =>
    rw [respond, respond]
    exact h.fate_polling

/-- A request that may ask as often as its time limit allows is not given up. -/
theorem Waiting.isSettled (h : timer.Waiting) {request : Request α} (hbounded : request.Bounded) :
    (timer.undisturbed.respond request).1.isSettled = true := by
  cases request with
  | sleep ms => rfl
  | poll interval timeout more probe =>
    have hends := @ends_pollWith _ _ probe { interval, timeout } _ hbounded.1
      h.undisturbed.live (fun _ hstop => nomatch hstop) (Nat.zero_le timeout)
      (Nat.lt_succ_of_le hbounded.2) 0
    generalize hresult : pollWith probe (more + 1) 0 { interval, timeout } timer.undisturbed =
      result at hends
    have hanswer : (timer.undisturbed.respond (.poll interval timeout more probe)).1 =
        .polled result.1 result.2.1 := by
      rw [← hresult]
      rfl
    rw [hanswer]
    cases hends <;> rfl

/-- A timer that is stopped refuses everything and stays as it is. -/
theorem respond_of_stopped (hstopped : timer.isStopped = true) (request : Request α) :
    timer.respond request = (request.refusal, timer) := by
  cases request with
  | sleep ms => rw [respond, sleep, if_pos hstopped, Request.refusal]
  | poll interval timeout more probe =>
    rw [respond, polling_of_stopped hstopped, Request.refusal]

/-! ## Turns -/

/-- A timer that is stopped stays so when its signal is fired. -/
theorem isStopped_fire (hstopped : timer.isStopped = true) : timer.fire.isStopped = true := by
  have hfire (firing : Firing) : (timer.signal.fire firing).stoppedSince timer.seen = true := by
    unfold isStopped StopSignal.stoppedSince at hstopped
    unfold StopSignal.fire StopSignal.trigger StopSignal.drop StopSignal.stoppedSince
    cases firing with
    | drop => rfl
    | trigger =>
      cases hdropped : timer.signal.dropped with
      | true => simp [hdropped]
      | false =>
        have hlt : timer.seen < timer.signal.count := by simpa [hdropped] using hstopped
        simp [Nat.lt_succ_of_lt hlt]
  unfold fire
  cases timer.firings with
  | nil => exact hstopped
  | cons entry later => exact hfire entry.2

/-- A timer that is stopped stays so however often its signal is fired. -/
theorem isStopped_foldl_fire (hstopped : timer.isStopped = true) (due : List (Nat × Firing)) :
    (due.foldl (fun timer _ => timer.fire) timer).isStopped = true := by
  induction due generalizing timer with
  | nil => exact hstopped
  | cons entry due ih => exact ih (isStopped_fire hstopped)

/-- A timer that is stopped stays so while work is busy elsewhere. -/
theorem isStopped_pass (hstopped : timer.isStopped = true) (ms : Nat) :
    (timer.pass ms).isStopped = true :=
  isStopped_foldl_fire hstopped _

/-- What is due while work is busy elsewhere stops the timer. -/
theorem Waiting.isStopped_pass (h : timer.Waiting) {stop ms : Nat} (hstop : stop ∈ timer.stopAt?)
    (hdue : stop ≤ timer.now + ms) : (timer.pass ms).isStopped = true := by
  obtain ⟨firing, later, hfirings⟩ := mem_stopAt?.mp hstop
  have hfirst : timer.fire.isStopped = true := by
    rw [fire, hfirings]
    exact stoppedSince_fire h.seen_le firing
  have hall := isStopped_foldl_fire hfirst (later.takeWhile (·.1 ≤ timer.now + ms))
  have hhead : timer.due (timer.now + ms) =
      (stop, firing) :: later.takeWhile (·.1 ≤ timer.now + ms) := by
    rw [due, hfirings]
    exact List.takeWhile_cons_of_pos (decide_eq_true hdue)
  simp only [pass, hhead, List.foldl_cons]
  exact hall

/-- Where nothing is due, only the clock runs while work is busy elsewhere. -/
theorem pass_of_lt {ms : Nat} (hlater : ∀ stop ∈ timer.stopAt?, timer.now + ms < stop) :
    timer.pass ms = { timer with now := timer.now + ms } := by
  have hnone : timer.due (timer.now + ms) = [] := by
    unfold due
    cases hfirings : timer.firings with
    | nil => rfl
    | cons entry later =>
      have hlt := hlater entry.1 (mem_stopAt?.mpr ⟨entry.2, later, hfirings⟩)
      apply List.takeWhile_cons_of_neg
      simp only [decide_eq_true_eq]
      omega
  simp only [pass, hnone, List.foldl_nil]

/-- The timer is stopped if and only if the first stop has come. -/
structure Tracks (start timer : Timer) : Prop where
  waiting : timer.isStopped = false → timer.Waiting ∧ timer.firings = start.firings
  came : timer.isStopped = true → ∃ stop ∈ start.stopAt?, stop ≤ timer.now

/-- A timer that has not stopped goes on to wait, or is stopped by the first stop. -/
theorem Tracks.of_not_stopped {last : Timer} (hfirings : last.firings = start.firings)
    (hlast : last.Waiting) : Tracks start last := by
  refine ⟨fun _ => ⟨hlast, hfirings⟩, fun hstopped => ?_⟩
  cases hlast.live.symm.trans hstopped

/-- A timer that was stopped by the first stop. -/
theorem Tracks.of_stopped {stop : Nat} (hstop : stop ∈ start.stopAt?) (hcame : stop ≤ timer.now)
    (hstopped : timer.isStopped = true) : Tracks start timer := by
  refine ⟨fun hlive => ?_, fun _ => ⟨stop, hstop, hcame⟩⟩
  cases hlive.symm.trans hstopped

/-- A request keeps track of the first stop. -/
theorem Tracks.respond (h : Tracks start timer) (request : Request α) :
    Tracks start (timer.respond request).2 := by
  cases hlive : timer.isStopped with
  | true => rwa [respond_of_stopped hlive]
  | false =>
    obtain ⟨hwaiting, hfirings⟩ := h.waiting hlive
    have hsame : timer.stopAt? = start.stopAt? := by rw [stopAt?, hfirings, stopAt?]
    have hcalm := hwaiting.calm request
    have hfate := hwaiting.fate request
    generalize timer.respond request = result at hfate
    cases hfate with
    | undisturbed hstop =>
      exact .of_not_stopped hfirings ⟨hcalm.waiting.live, hcalm.waiting.seen_le, hstop⟩
    | brokenOff hstop _ hnow hstopped =>
      exact .of_stopped (hsame ▸ hstop) (Nat.le_of_eq hnow.symm) hstopped

/-- So does work that is busy elsewhere. -/
theorem Tracks.pass (h : Tracks start timer) (ms : Nat) : Tracks start (timer.pass ms) := by
  cases hlive : timer.isStopped with
  | true =>
    obtain ⟨stop, hstop, hcame⟩ := h.came hlive
    exact .of_stopped hstop (Nat.le_add_right_of_le hcame) (isStopped_pass hlive ms)
  | false =>
    obtain ⟨hwaiting, hfirings⟩ := h.waiting hlive
    have hsame : timer.stopAt? = start.stopAt? := by rw [stopAt?, hfirings, stopAt?]
    by_cases hdue : ∃ stop ∈ timer.stopAt?, stop ≤ timer.now + ms
    · obtain ⟨stop, hstop, hdue⟩ := hdue
      exact .of_stopped (hsame ▸ hstop) hdue (hwaiting.isStopped_pass hstop hdue)
    · have hlater : ∀ stop ∈ timer.stopAt?, timer.now + ms < stop := by
        intro stop hstop
        apply Nat.not_le.mp
        intro hle
        exact hdue ⟨stop, hstop, hle⟩
      rw [pass_of_lt hlater]
      refine .of_not_stopped hfirings ⟨hlive, hwaiting.seen_le, fun stop hstop => ?_⟩
      exact Nat.le_of_lt (hlater stop hstop)

/-- So does every turn. -/
theorem Tracks.turn (h : Tracks start timer) (turn : Turn α) :
    Tracks start (timer.turn turn).2 := by
  cases turn with
  | request request => exact h.respond request
  | elsewhere ms => exact h.pass ms

/-- So do turns in a row. -/
theorem Tracks.after (h : Tracks start timer) (turns : List (Turn α)) :
    Tracks start (timer.after turns) := by
  induction turns generalizing timer with
  | nil => exact h
  | cons turn turns ih => exact ih (h.turn turn)

/-- A timer that is stopped stays so in every turn. -/
theorem isStopped_after (hstopped : timer.isStopped = true) (turns : List (Turn α)) :
    (timer.after turns).isStopped = true := by
  induction turns generalizing timer with
  | nil => exact hstopped
  | cons turn turns ih =>
    apply ih
    cases turn with
    | request request => simpa only [turn, respond_of_stopped hstopped] using hstopped
    | elsewhere ms => exact isStopped_pass hstopped ms

end GameMacros.Timer
