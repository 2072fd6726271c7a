import Mathlib.Logic.Function.Iterate
import GameMacros.Proofs.Stopping

/-!
# Stops are for good

The first stop after a timer was made ends the request that is under way, and from then on every
request is refused at once. Before that stop nothing is cancelled, and stops from before the timer
was made do not count. All this does not depend on how stops are counted: a timer may take a stop
that it has observed as seen, so that it does not count any more, if it remembers that it was
stopped.
-/

namespace GameMacros.Timer

variable {α : Type} {timer : Timer}

/-- What can be seen of a timer. -/
structure View where
  now : Nat
  stopped : Bool
  notes : List (Nat × Bool)
  deriving DecidableEq, Repr

/-- What can be seen of the timer. -/
def view (timer : Timer) : View where
  now := timer.now
  stopped := timer.isStopped
  notes := timer.notes

/-- The answers to some turns, each with what can be seen of the timer afterwards. -/
def course (timer : Timer) : List (Turn α) → List (Option (Answer α) × View)
  | [] => []
  | turn :: turns =>
    ((timer.turn turn).1, (timer.turn turn).2.view) :: (timer.turn turn).2.course turns

/-! ## Timers that remember -/

/-- A timer that takes a stop as seen when it has observed it. Such a stop does not count any more,
so the timer has to remember that it was stopped. -/
structure Latched where
  timer : Timer
  stopped : Bool := false

namespace Latched

/-- There was a stop that is remembered, or that was not observed yet. -/
def isStopped (latched : Latched) : Bool :=
  latched.stopped || latched.timer.isStopped

/-- What can be seen of the timer. -/
def view (latched : Latched) : View where
  now := latched.timer.now
  stopped := latched.isStopped
  notes := latched.timer.notes

/-- Takes all stops so far as seen and remembers that there was one. -/
def observe (timer : Timer) : Latched where
  timer := { timer with seen := timer.signal.count }
  stopped := true

/-- Sleeps for a time. -/
def sleep (latched : Latched) (ms : Nat) : SleepOutcome × Latched :=
  if latched.isStopped then (.cancelled, latched)
  else
    match latched.timer.sleep ms with
    | (.cancelled, woken) => (.cancelled, observe woken)
    | (.elapsed, woken) => (.elapsed, { latched with timer := woken })

/-- Goes on with a poll. -/
def polling (probe : (asked now : Nat) → Option α) :
    (allowed asked : Nat) → Poll → Latched → Answer α × Latched
  | 0, _, _, latched => (.polled .unsettled [], latched)
  | allowed + 1, asked, poll, latched =>
    if latched.isStopped then (.polled .cancelled [], latched)
    else
      match poll.next (probe asked latched.timer.now) with
      | .ready answer => (.polled (.ready answer) [latched.timer.now], latched)
      | .timedOut => (.polled .timedOut [latched.timer.now], latched)
      | .asleep later =>
        match latched.sleep poll.interval with
        | (.cancelled, woken) => (.polled .cancelled [latched.timer.now], woken)
        | (.elapsed, woken) =>
          ((polling probe allowed (asked + 1) later woken).1.afterProbe latched.timer.now,
            (polling probe allowed (asked + 1) later woken).2)

/-- The answer, if there was a request, and the timer after a turn. -/
def turn (latched : Latched) : Turn α → Option (Answer α) × Latched
  | .request (.sleep ms) => (some (.slept (latched.sleep ms).1), (latched.sleep ms).2)
  | .request (.poll interval timeout more probe) =>
    let (answer, last) := polling probe (more + 1) 0 { interval, timeout } latched
    (some answer, last)
  | .elsewhere ms => (none, { latched with timer := latched.timer.pass ms })

/-- The answers to some turns, each with what can be seen of the timer afterwards. -/
def course (latched : Latched) : List (Turn α) → List (Option (Answer α) × View)
  | [] => []
  | turn :: turns =>
    ((latched.turn turn).1, (latched.turn turn).2.view) :: (latched.turn turn).2.course turns

end Latched

/-- A timer and one that remembers differ only in the stops that they count, and they agree on
whether there was one. -/
inductive Mirrors (timer : Timer) : Latched → Prop
  | intro {signal : StopSignal} {seen : Nat} {stopped : Bool}
      (hseen : timer.seen ≤ timer.signal.count) (hother : seen ≤ signal.count)
      (hsame : (stopped || signal.stoppedSince seen) = timer.isStopped) :
      Mirrors timer ⟨{ timer with signal, seen }, stopped⟩

/-- A timer that is not stopped sleeps until its time is over or its signal is fired. -/
theorem sleep_of_live (hlive : timer.isStopped = false) (ms : Nat) :
    timer.sleep ms =
      if (timer.note true).firesBefore ((timer.note true).now + Sleep.granted ms) then
        (.cancelled, (timer.note true).fire.note false)
      else
        (.elapsed, { timer.note true with
          now := (timer.note true).now + Sleep.granted ms }.note false) :=
  if_neg (ne_true_of_eq_false hlive)

/-- A note changes nothing else about the timer. -/
theorem exists_note_eq (timer : Timer) (suspended : Bool) :
    ∃ notes, timer.note suspended = { timer with notes } := by
  unfold note
  split
  · exact ⟨_, rfl⟩
  · exact ⟨timer.notes, rfl⟩

/-- A timer is stopped when its signal is fired in its sleep. -/
theorem isStopped_of_firesBefore (hseen : timer.seen ≤ timer.signal.count) {time : Nat}
    (hearly : (timer.note true).firesBefore time = true) :
    ((timer.note true).fire.note false).isStopped = true := by
  obtain ⟨asleep, hasleep⟩ := exists_note_eq timer true
  obtain ⟨awake, hawake⟩ := exists_note_eq (timer.note true).fire false
  rw [hawake, hasleep]
  rw [hasleep] at hearly
  unfold firesBefore at hearly
  cases hfirings : timer.firings with
  | nil => simp [hfirings] at hearly
  | cons entry later =>
    simp only [fire]
    exact stoppedSince_fire hseen entry.2

namespace Mirrors

variable {latched : Latched}

/-- Both are stopped, or none. -/
theorem isStopped_eq (h : Mirrors timer latched) : latched.isStopped = timer.isStopped := by
  cases h with
  | intro _ _ hsame => exact hsame

/-- Both show the same. -/
theorem view_eq (h : Mirrors timer latched) : latched.view = timer.view := by
  have hstopped := h.isStopped_eq
  cases h with
  | intro =>
    rw [Latched.view, hstopped]
    rfl

/-- The timer has counted no fewer stops than it had when it was made. -/
theorem seen_le (h : Mirrors timer latched) : timer.seen ≤ timer.signal.count := by
  cases h with
  | intro hseen => exact hseen

/-- Both have the same time. -/
theorem now_eq (h : Mirrors timer latched) : latched.timer.now = timer.now := by
  cases h with
  | intro => rfl

/-- Both have the same firings ahead of them. -/
theorem firings_eq (h : Mirrors timer latched) : latched.timer.firings = timer.firings := by
  cases h with
  | intro => rfl

/-- Both have the clock at another time. -/
theorem with_now (h : Mirrors timer latched) (now : Nat) :
    Mirrors { timer with now } { latched with timer := { latched.timer with now } } := by
  cases h with
  | intro hseen hother hsame => exact .intro hseen hother hsame

/-- Both note the same. -/
theorem note (h : Mirrors timer latched) (suspended : Bool) :
    Mirrors (timer.note suspended) { latched with timer := latched.timer.note suspended } := by
  obtain ⟨now, signal, seen, firings, hooked, notes⟩ := timer
  cases h with
  | intro hseen hother hsame =>
    cases hooked with
    | true => exact .intro hseen hother hsame
    | false => exact .intro hseen hother hsame

/-- Both are fired. -/
theorem fire (h : Mirrors timer latched) :
    Mirrors timer.fire { latched with timer := latched.timer.fire } := by
  obtain ⟨now, signal, seen, firings, hooked, notes⟩ := timer
  cases h with
  | intro hseen hother hsame =>
    cases firings with
    | nil => exact .intro hseen hother hsame
    | cons entry later =>
      refine .intro (Nat.le_trans hseen (count_le_fire _ _))
        (Nat.le_trans hother (count_le_fire _ _)) ?_
      rw [stoppedSince_fire hother, Bool.or_true]
      exact (stoppedSince_fire hseen entry.2).symm

/-- Both are fired several times. -/
theorem foldl_fire (h : Mirrors timer latched) (due : List (Nat × Firing)) :
    Mirrors (due.foldl (fun timer _ => timer.fire) timer)
      { latched with timer := due.foldl (fun timer _ => timer.fire) latched.timer } := by
  induction due generalizing timer latched with
  | nil => exact h
  | cons entry due ih => exact ih h.fire

/-- While work is busy elsewhere, both go on. -/
theorem pass (h : Mirrors timer latched) (ms : Nat) :
    Mirrors (timer.pass ms) { latched with timer := latched.timer.pass ms } := by
  have hdue : latched.timer.due (timer.now + ms) = timer.due (timer.now + ms) := by
    rw [due, due, h.firings_eq]
  simp only [Timer.pass, h.now_eq, hdue]
  exact (h.foldl_fire _).with_now _

/-- A timer that is stopped may take all stops as seen if it remembers that. -/
theorem observe (h : Mirrors timer latched) (hstopped : timer.isStopped = true) :
    Mirrors timer (.observe latched.timer) := by
  cases h with
  | intro hseen => exact .intro hseen (Nat.le_refl _) hstopped.symm

/-- Both sleep. -/
theorem sleep (h : Mirrors timer latched) (ms : Nat) :
    (latched.sleep ms).1 = (timer.sleep ms).1 ∧
      Mirrors (timer.sleep ms).2 (latched.sleep ms).2 := by
  cases hlive : timer.isStopped with
  | true =>
    have hother := h.isStopped_eq.trans hlive
    rw [Latched.sleep, if_pos hother, Timer.sleep, if_pos hlive]
    exact ⟨rfl, h⟩
  | false =>
    have hother := h.isStopped_eq.trans hlive
    have hinner : latched.timer.isStopped = false := (Bool.or_eq_false_iff.mp hother).2
    have hasleep := h.note true
    have hnow : (latched.timer.note true).now = (timer.note true).now := hasleep.now_eq
    have hfirings : (latched.timer.note true).firings = (timer.note true).firings :=
      hasleep.firings_eq
    have hfires (time : Nat) :
        (latched.timer.note true).firesBefore time = (timer.note true).firesBefore time := by
      rw [firesBefore, firesBefore, hfirings]
    rw [Latched.sleep, if_neg (ne_true_of_eq_false hother), sleep_of_live hlive,
      sleep_of_live hinner, hnow, hfires]
    cases hearly : (timer.note true).firesBefore ((timer.note true).now + Sleep.granted ms) with
    | true =>
      have hstopped := isStopped_of_firesBefore (h.seen_le) hearly
      simp only [if_true]
      exact ⟨trivial, (hasleep.fire.note false).observe hstopped⟩
    | false =>
      simp only [Bool.false_eq_true, if_false]
      exact ⟨trivial, (hasleep.with_now _).note false⟩

/-- Both poll. -/
theorem polling (h : Mirrors timer latched) (probe : (asked now : Nat) → Option α)
    (allowed asked : Nat) (poll : Poll) :
    (Latched.polling probe allowed asked poll latched).1 =
        (timer.polling probe allowed asked poll).1 ∧
      Mirrors (timer.polling probe allowed asked poll).2
        (Latched.polling probe allowed asked poll latched).2 := by
  induction allowed generalizing timer latched asked poll with
  | zero => exact ⟨rfl, h⟩
  | succ allowed ih =>
    cases hlive : timer.isStopped with
    | true =>
      have hother := h.isStopped_eq.trans hlive
      rw [Latched.polling, if_pos hother, polling_of_stopped hlive]
      exact ⟨rfl, h⟩
    | false =>
      have hother := h.isStopped_eq.trans hlive
      rw [Latched.polling, if_neg (ne_true_of_eq_false hother), h.now_eq]
      cases hnext : poll.next (probe asked timer.now) with
      | ready answer =>
        rw [polling_of_ready hlive hnext]
        exact ⟨rfl, h⟩
      | timedOut =>
        rw [polling_of_timedOut hlive hnext]
        exact ⟨rfl, h⟩
      | asleep later =>
        obtain ⟨houtcome, hwoken⟩ := h.sleep poll.interval
        generalize hother : latched.sleep poll.interval = other at houtcome hwoken
        generalize hsleep : timer.sleep poll.interval = result at houtcome hwoken
        obtain ⟨outcome, woken⟩ := result
        obtain ⟨_, awake⟩ := other
        cases houtcome
        cases outcome with
        | cancelled =>
          rw [polling_of_cancelled hlive hnext hsleep]
          exact ⟨rfl, hwoken⟩
        | elapsed =>
          obtain ⟨hanswer, hlast⟩ := ih hwoken (asked + 1) later
          rw [polling_of_elapsed hlive hnext hsleep]
          exact ⟨congrArg (Answer.afterProbe timer.now) hanswer, hlast⟩

/-- In every turn both answer the same. -/
theorem turn (h : Mirrors timer latched) (turn : Turn α) :
    (latched.turn turn).1 = (timer.turn turn).1 ∧
      Mirrors (timer.turn turn).2 (latched.turn turn).2 := by
  cases turn with
  | elsewhere ms => exact ⟨rfl, h.pass ms⟩
  | request request =>
    cases request with
    | sleep ms =>
      obtain ⟨houtcome, hwoken⟩ := h.sleep ms
      exact ⟨congrArg (fun outcome => some (Answer.slept outcome)) houtcome, hwoken⟩
    | poll interval timeout more probe =>
      obtain ⟨hanswer, hlast⟩ := h.polling probe (more + 1) 0 { interval, timeout }
      exact ⟨congrArg some hanswer, hlast⟩

/-- Over all turns both answer and show the same. -/
theorem course_eq (h : Mirrors timer latched) (turns : List (Turn α)) :
    latched.course turns = timer.course turns := by
  induction turns generalizing timer latched with
  | nil => rfl
  | cons turn turns ih =>
    obtain ⟨hanswer, hnext⟩ := h.turn turn
    rw [Latched.course, Timer.course, hanswer, hnext.view_eq, ih hnext]

end Mirrors

/-! ## Stops -/

/-- A timer that is made after some stops. The stops to come are given with their times. -/
def fresh (early : Nat) (hooked : Bool) (firings : List (Nat × Firing)) : Timer :=
  { ofSignal (StopSignal.trigger^[early] {}) hooked with firings }

/-- A signal that was triggered some times has counted that often. -/
theorem iterate_trigger (early : Nat) :
    StopSignal.trigger^[early] {} = ({ count := early } : StopSignal) := by
  induction early with
  | zero => rfl
  | succ early ih =>
    rw [Function.iterate_succ_apply', ih]
    rfl

/-- Stops from before the timer was made do not count. -/
theorem waiting_fresh (early : Nat) (hooked : Bool) (firings : List (Nat × Firing)) :
    (fresh early hooked firings).Waiting := by
  refine ⟨?_, Nat.le_refl _, fun stop _ => Nat.zero_le stop⟩
  rw [isStopped, fresh, iterate_trigger]
  simp [ofSignal, StopSignal.stoppedSince]

/-- However many stops there were before, a new timer is like another one that remembers. -/
theorem mirrors_fresh (early others : Nat) (hooked : Bool) (firings : List (Nat × Firing)) :
    Mirrors (fresh early hooked firings) { timer := fresh others hooked firings } := by
  have hlive := (waiting_fresh early hooked firings).live
  have hother : (fresh others hooked firings).isStopped = false :=
    (waiting_fresh others hooked firings).live
  exact .intro (Nat.le_refl _) (Nat.le_refl _) (hother.trans hlive.symm)

/-- What the first stop does to a timer, wherever work is with it. -/
structure StopsForGood (α : Type) (start timer : Timer) : Prop where
  /-- Before the first stop the timer is not stopped. -/
  came : timer.isStopped = true → ∃ stop ∈ start.stopAt?, stop ≤ timer.now
  /-- After the first stop it is. -/
  pending : timer.isStopped = false →
    timer.firings = start.firings ∧ ∀ stop ∈ start.stopAt?, timer.now ≤ stop
  /-- Before the first stop nothing is cancelled. The stop ends at once what is under way. -/
  goes_on : timer.isStopped = false → ∀ request : Request α,
    (timer.undisturbed.respond request).1.isCancelled = false ∧
      Fate timer (timer.undisturbed.respond request) (timer.respond request)
  /-- What may ask as often as its time limit allows comes to an end. -/
  settles : timer.isStopped = false → ∀ request : Request α, request.Bounded →
    (timer.respond request).1.isSettled = true
  /-- After the first stop everything is refused, without a question, a note or any time. -/
  refuses : timer.isStopped = true → ∀ request : Request α,
    timer.respond request = (request.refusal, timer)
  /-- A timer that is stopped stays so. -/
  forever : timer.isStopped = true → ∀ turns : List (Turn α),
    (timer.after turns).isStopped = true

/-- A timer that keeps track of the first stop is stopped by it for good. -/
theorem Tracks.stopsForGood {start : Timer} (h : Tracks start timer) :
    StopsForGood α start timer where
  came := h.came
  pending hlive := by
    obtain ⟨hwaiting, hfirings⟩ := h.waiting hlive
    have hahead := hwaiting.ahead
    rw [stopAt?, hfirings] at hahead
    exact ⟨hfirings, hahead⟩
  goes_on hlive request :=
    ⟨((h.waiting hlive).1.calm request).not_cancelled, (h.waiting hlive).1.fate request⟩
  settles hlive request hbounded := by
    have hcalm := (h.waiting hlive).1.isSettled hbounded
    have hfate := (h.waiting hlive).1.fate request
    generalize timer.respond request = result at hfate
    cases hfate with
    | undisturbed => exact hcalm
    | brokenOff =>
      generalize (timer.undisturbed.respond request).1 = answer
      cases answer <;> rfl
  refuses hstopped := respond_of_stopped hstopped
  forever hstopped := isStopped_after hstopped

/-- Whatever work does with its timer, the first stop after the timer was made stops it for good,
and stops from before do not count. A timer that takes the stops it has observed as seen, and
remembers that it was stopped, answers and shows the same. -/
theorem stopsForGood_after (early : Nat) (hooked : Bool) (firings : List (Nat × Firing))
    (turns : List (Turn α)) :
    StopsForGood α (fresh early hooked firings) ((fresh early hooked firings).after turns) ∧
      (fresh early hooked firings).course turns = (fresh 0 hooked firings).course turns ∧
      ({ timer := fresh early hooked firings } : Latched).course turns =
        (fresh early hooked firings).course turns := by
  have hwaiting := waiting_fresh early hooked firings
  have hstart : Tracks (fresh early hooked firings) (fresh early hooked firings) :=
    .of_not_stopped rfl hwaiting
  refine ⟨(hstart.after turns).stopsForGood, ?_, (mirrors_fresh early early _ _).course_eq turns⟩
  rw [← (mirrors_fresh early early hooked firings).course_eq,
    (mirrors_fresh 0 early hooked firings).course_eq]

end GameMacros.Timer
