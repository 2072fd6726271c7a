import GameMacros.Engine.Timer

/-!
# How polls end

A poll asks at once and again after each sleep, so the times of its questions are fixed from the
start. It ends with the first answer, with the last question that its time limit allows, or with the
next stop, whichever comes first. A stop that comes at the very time of a question is left out.
-/

namespace GameMacros.Timer

variable {α : Type} {timer : Timer} {gap last : Nat}

/-! ## Sleeps in a row -/

/-- The notes about a sleep. -/
def bracket (start finish : Nat) : List (Nat × Bool) :=
  [(start, true), (finish, false)]

/-- The notes about sleeps of one length in a row. -/
def brackets (start gap sleeps : Nat) : List (Nat × Bool) :=
  (List.range' start sleeps gap).flatMap fun time => bracket time (time + gap)

/-- The notes so far with further ones, if sleeps are noted. -/
def notesWith (timer : Timer) (notes : List (Nat × Bool)) : List (Nat × Bool) :=
  if timer.hooked then timer.notes ++ notes else timer.notes

/-- The timer after sleeps in a row that nothing has broken off. -/
def slept (timer : Timer) (gap sleeps : Nat) : Timer :=
  { timer with
    now := timer.now + sleeps * gap
    notes := timer.notesWith (brackets timer.now gap sleeps) }

/-- The timer whose sleeps in a row are broken off when its signal is fired. -/
def brokenOff (timer : Timer) (gap after : Nat) (firing : Firing) (later : List (Nat × Firing)) :
    Timer :=
  { timer with
    now := timer.now + after
    signal := timer.signal.fire firing
    firings := later
    notes := timer.notesWith (brackets timer.now gap (after / gap) ++
      bracket (timer.now + after / gap * gap) (timer.now + after)) }

/-- How long it is until the signal is fired, if it is ever. -/
def stopIn? (timer : Timer) : Option Nat :=
  timer.firings.head?.map (·.1 - timer.now)

/-- The notes of a first sleep come before those of the others. -/
theorem brackets_succ (start gap sleeps : Nat) :
    brackets start gap (sleeps + 1) =
      bracket start (start + gap) ++ brackets (start + gap) gap sleeps := by
  rw [brackets, List.range'_succ, List.flatMap_cons]
  rfl

/-- A timer that sleeps once has two notes more. -/
theorem slept_one (timer : Timer) (gap : Nat) :
    timer.slept gap 1 =
      { timer with
        now := timer.now + gap
        notes := timer.notesWith (bracket timer.now (timer.now + gap)) } := by
  have hnotes : brackets timer.now gap 1 = bracket timer.now (timer.now + gap) :=
    brackets_succ timer.now gap 0
  rw [slept, hnotes, Nat.one_mul]

/-- A timer that does not sleep stays as it is. -/
theorem slept_zero (timer : Timer) (gap : Nat) : timer.slept gap 0 = timer := by
  rw [slept, Nat.zero_mul, Nat.add_zero]
  unfold notesWith brackets
  cases hhooked : timer.hooked with
  | true => simp [← hhooked]
  | false => simp [← hhooked]

/-- A timer that sleeps once and then other times sleeps as often as both. -/
theorem slept_slept (timer : Timer) (gap sleeps : Nat) :
    (timer.slept gap 1).slept gap sleeps = timer.slept gap (sleeps + 1) := by
  have hnow : timer.now + gap + sleeps * gap = timer.now + (sleeps + 1) * gap := by
    rw [Nat.add_one_mul sleeps gap]
    omega
  rw [slept_one, slept, slept, brackets_succ]
  unfold notesWith
  cases timer.hooked with
  | true => simp only [if_true, hnow, List.append_assoc]
  | false => simp only [Bool.false_eq_true, if_false, hnow]

/-- A timer that sleeps once before a sleep of it is broken off. -/
theorem slept_brokenOff (timer : Timer) (hgap : 0 < gap) (after : Nat) (firing : Firing)
    (later : List (Nat × Firing)) :
    (timer.slept gap 1).brokenOff gap after firing later =
      timer.brokenOff gap (after + gap) firing later := by
  have hquotient : (after + gap) / gap = after / gap + 1 := Nat.add_div_right after hgap
  have hnow : timer.now + gap + after = timer.now + (after + gap) := by omega
  have hstart :
      timer.now + gap + after / gap * gap = timer.now + (after / gap + 1) * gap := by
    rw [Nat.add_one_mul (after / gap) gap]
    omega
  rw [slept_one, brokenOff, brokenOff, hquotient, brackets_succ]
  unfold notesWith
  cases timer.hooked with
  | true => simp only [if_true, hnow, hstart, List.append_assoc]
  | false => simp only [Bool.false_eq_true, if_false, hnow]

/-- What is fired is the first of the firings. -/
theorem exists_firings {after : Nat} (h : after ∈ timer.stopIn?) (hpos : 0 < after) :
    ∃ firing later, timer.firings = (timer.now + after, firing) :: later := by
  unfold stopIn? at h
  cases hfirings : timer.firings with
  | nil => simp [hfirings] at h
  | cons entry later =>
    obtain ⟨time, firing⟩ := entry
    have htime : time - timer.now = after := by simpa [hfirings] using h
    have heq : time = timer.now + after := by omega
    exact ⟨firing, later, by rw [heq]⟩

/-- A sleep comes to its end if the signal is not fired before that time. -/
theorem sleep_of_calm {ms : Nat} (hlive : timer.isStopped = false)
    (hcalm : ∀ entry ∈ timer.firings.head?, timer.now + Sleep.granted ms ≤ entry.1) :
    timer.sleep ms = (.elapsed, timer.slept (Sleep.granted ms) 1) := by
  have hfires : (timer.note true).firesBefore ((timer.note true).now + Sleep.granted ms) =
      false := by
    have hsame : (timer.note true).now = timer.now ∧
        (timer.note true).firings = timer.firings := by
      unfold note
      split <;> exact ⟨rfl, rfl⟩
    unfold firesBefore
    rw [hsame.1, hsame.2]
    cases hfirings : timer.firings with
    | nil => rfl
    | cons entry later =>
      have hle := hcalm entry (by simp [hfirings])
      apply decide_eq_false
      omega
  rw [sleep, if_neg (by simp [hlive])]
  simp only [hfires, Bool.false_eq_true, if_false, slept_one]
  unfold note notesWith bracket
  cases hhooked : timer.hooked with
  | true => simp
  | false => simp [hhooked]

/-- A sleep that takes time comes to its end if it is no longer than it is until the next stop. -/
theorem sleep_of_quiet {ms : Nat} (hlive : timer.isStopped = false) (hms : 0 < Sleep.granted ms)
    (hquiet : ∀ stop ∈ timer.stopIn?, Sleep.granted ms ≤ stop) :
    timer.sleep ms = (.elapsed, timer.slept (Sleep.granted ms) 1) := by
  apply sleep_of_calm hlive
  intro entry hentry
  have hle := hquiet (entry.1 - timer.now) (Option.mem_map_of_mem _ hentry)
  omega

/-- A sleep is broken off when the signal is fired before its end. -/
theorem sleep_of_stop {ms after : Nat} {firing : Firing} {later : List (Nat × Firing)}
    (hlive : timer.isStopped = false)
    (hfirings : timer.firings = (timer.now + after, firing) :: later)
    (hearly : after < Sleep.granted ms) :
    timer.sleep ms =
      (.cancelled, timer.brokenOff (Sleep.granted ms) after firing later) := by
  have hsame : (timer.note true).now = timer.now ∧
      (timer.note true).firings = timer.firings := by
    unfold note
    split <;> exact ⟨rfl, rfl⟩
  have hfires : (timer.note true).firesBefore ((timer.note true).now + Sleep.granted ms) =
      true := by
    rw [firesBefore, hsame.1, hsame.2, hfirings]
    apply decide_eq_true
    omega
  have hquotient : after / Sleep.granted ms = 0 := Nat.div_eq_of_lt hearly
  rw [sleep, if_neg (by simp [hlive])]
  simp only [hfires, if_true, brokenOff, hquotient]
  unfold fire note notesWith bracket brackets
  cases hhooked : timer.hooked with
  | true => simp [hfirings]
  | false => simp [hhooked, hfirings]

/-! ## Questions in a row -/

/-- How a poll ends that asks a last time after `last` sleeps: its outcome, the times of its
questions and the timer. The question after `k` sleeps is answered by `answers k`. -/
inductive Ends (answers : Nat → Option α) (timer : Timer) (gap last : Nat) :
    PollOutcome α × List Nat × Timer → Prop
  | ready {sleeps : Nat} {answer : α} (hlast : sleeps ≤ last)
      (hstop : ∀ stop ∈ timer.stopIn?, sleeps * gap < stop)
      (hunanswered : ∀ k < sleeps, answers k = none) (hanswer : answers sleeps = some answer) :
      Ends answers timer gap last
        (.ready answer, List.range' timer.now (sleeps + 1) gap, timer.slept gap sleeps)
  | timedOut (hstop : ∀ stop ∈ timer.stopIn?, last * gap < stop)
      (hunanswered : ∀ k ≤ last, answers k = none) :
      Ends answers timer gap last
        (.timedOut, List.range' timer.now (last + 1) gap, timer.slept gap last)
  | cancelled {after : Nat} {firing : Firing} {later : List (Nat × Firing)}
      (hfirings : timer.firings = (timer.now + after, firing) :: later)
      (hearly : after < last * gap) (hunanswered : ∀ k, k * gap < after → answers k = none) :
      Ends answers timer gap last
        (.cancelled, List.range' timer.now (after / gap + 1) gap,
          timer.brokenOff gap after firing later)

/-- A sleep that comes to its end brings the next firing closer. -/
theorem stopIn?_slept (timer : Timer) (gap : Nat) :
    (timer.slept gap 1).stopIn? = timer.stopIn?.map (· - gap) := by
  rw [slept_one]
  unfold stopIn?
  cases timer.firings with
  | nil => rfl
  | cons entry later => simp [Nat.sub_sub]

/-- What is left until the next firing after a sleep that comes to its end. -/
theorem forall_stopIn?_slept {P : Nat → Prop} :
    (∀ stop ∈ (timer.slept gap 1).stopIn?, P stop) ↔ ∀ stop ∈ timer.stopIn?, P (stop - gap) := by
  rw [stopIn?_slept]
  cases timer.stopIn? <;> simp

/-- A poll ends at its first question if that is answered. -/
theorem Ends.of_answer {answers : Nat → Option α} {answer : α}
    (hpos : ∀ stop ∈ timer.stopIn?, 0 < stop) (hanswer : answers 0 = some answer) :
    Ends answers timer gap last (.ready answer, [timer.now], timer) := by
  have hends : Ends answers timer gap last
      (.ready answer, List.range' timer.now (0 + 1) gap, timer.slept gap 0) := by
    apply Ends.ready (Nat.zero_le last) _ _ hanswer
    · rwa [Nat.zero_mul]
    · intro k hk
      exact absurd hk (Nat.not_lt_zero k)
  rwa [slept_zero] at hends

/-- A poll ends at its first question if that is the last one. -/
theorem Ends.of_late {answers : Nat → Option α} (hpos : ∀ stop ∈ timer.stopIn?, 0 < stop)
    (hanswer : answers 0 = none) : Ends answers timer gap 0 (.timedOut, [timer.now], timer) := by
  have hends : Ends answers timer gap 0
      (.timedOut, List.range' timer.now (0 + 1) gap, timer.slept gap 0) := by
    apply Ends.timedOut
    · rwa [Nat.zero_mul]
    · intro k hk
      rwa [Nat.le_zero.mp hk]
  rwa [slept_zero] at hends

/-- A poll ends in its first sleep if the signal is fired meanwhile. -/
theorem Ends.of_stop {answers : Nat → Option α} {after : Nat} {firing : Firing}
    {later : List (Nat × Firing)} (hanswer : answers 0 = none)
    (hfirings : timer.firings = (timer.now + after, firing) :: later) (hearly : after < gap) :
    Ends answers timer gap (last + 1)
      (.cancelled, [timer.now], timer.brokenOff gap after firing later) := by
  have hends : Ends answers timer gap (last + 1)
      (.cancelled, List.range' timer.now (after / gap + 1) gap,
        timer.brokenOff gap after firing later) := by
    apply Ends.cancelled hfirings
    · exact Nat.lt_of_lt_of_le hearly (Nat.le_mul_of_pos_left gap (Nat.succ_pos last))
    · intro k hk
      cases k with
      | zero => exact hanswer
      | succ k =>
        rw [Nat.add_one_mul k gap] at hk
        omega
  rwa [Nat.div_eq_of_lt hearly] at hends

/-- A poll whose first question is not answered ends as its other questions demand, if its first
sleep comes to an end. -/
theorem Ends.of_slept {answers : Nat → Option α} {outcome : PollOutcome α} {probes : List Nat}
    {woken : Timer} (hgap : 0 < gap) (hanswer : answers 0 = none)
    (h : Ends (fun k => answers (k + 1)) (timer.slept gap 1) gap last (outcome, probes, woken)) :
    Ends answers timer gap (last + 1) (outcome, timer.now :: probes, woken) := by
  have hnow : (timer.slept gap 1).now = timer.now + gap := by rw [slept_one]
  have hlater {sleeps : Nat} (hstop : ∀ stop ∈ (timer.slept gap 1).stopIn?, sleeps * gap < stop) :
      ∀ stop ∈ timer.stopIn?, (sleeps + 1) * gap < stop := by
    intro stop hmem
    have hlt := forall_stopIn?_slept.mp hstop stop hmem
    rw [Nat.add_one_mul sleeps gap]
    omega
  cases h with
  | @ready sleeps answer hlast hstop hunanswered hready =>
    rw [slept_slept, hnow, ← List.range'_succ]
    apply Ends.ready (Nat.succ_le_succ hlast) (hlater hstop) ?_ hready
    intro k hk
    cases k with
    | zero => exact hanswer
    | succ k => exact hunanswered k (Nat.lt_of_succ_lt_succ hk)
  | timedOut hstop hunanswered =>
    rw [slept_slept, hnow, ← List.range'_succ]
    apply Ends.timedOut (hlater hstop)
    intro k hk
    cases k with
    | zero => exact hanswer
    | succ k => exact hunanswered k (Nat.le_of_succ_le_succ hk)
  | @cancelled after firing later hfirings hearly hunanswered =>
    have hquotient : (after + gap) / gap = after / gap + 1 := Nat.add_div_right after hgap
    have htimes : timer.now :: List.range' (timer.now + gap) (after / gap + 1) gap =
        List.range' timer.now ((after + gap) / gap + 1) gap := by
      rw [hquotient]
      exact List.range'_succ.symm
    rw [slept_brokenOff timer hgap, hnow, htimes]
    apply Ends.cancelled
    · rw [slept_one] at hfirings
      rw [Nat.add_comm after gap, ← Nat.add_assoc]
      exact hfirings
    · rw [Nat.add_one_mul last gap]
      omega
    · intro k hk
      cases k with
      | zero => exact hanswer
      | succ k =>
        rw [Nat.add_one_mul k gap] at hk
        exact hunanswered k (by omega)

/-- A poll that is under way ends in this way. -/
theorem ends_pollWith (probe : (asked now : Nat) → Option α) {poll : Poll} {allowed : Nat}
    (hinterval : 0 < poll.interval) (hlive : timer.isStopped = false)
    (hoff : ∀ stop ∈ timer.stopIn?, ¬Sleep.granted poll.interval ∣ stop)
    (hwaited : poll.waited ≤ poll.timeout)
    (hallowed : (poll.timeout - poll.waited) / poll.interval < allowed) (asked : Nat) :
    Ends (fun k => probe (asked + k) (timer.now + k * Sleep.granted poll.interval)) timer
      (Sleep.granted poll.interval) ((poll.timeout - poll.waited) / poll.interval)
      (pollWith probe allowed asked poll timer) := by
  induction allowed generalizing asked poll timer with
  | zero => exact absurd hallowed (Nat.not_lt_zero _)
  | succ allowed ih =>
    have hgap : 0 < Sleep.granted poll.interval := Nat.lt_min.mpr ⟨hinterval, by decide⟩
    have hpos : ∀ stop ∈ timer.stopIn?, 0 < stop := by
      intro stop hmem
      apply Nat.pos_of_ne_zero
      rintro rfl
      exact hoff 0 hmem (Nat.dvd_zero _)
    have hfirst : probe (asked + 0) (timer.now + 0 * Sleep.granted poll.interval) =
        probe asked timer.now := by
      rw [Nat.zero_mul, Nat.add_zero, Nat.add_zero]
    rw [pollWith, if_neg (by simp [hlive])]
    cases hanswer : probe asked timer.now with
    | some answer => exact .of_answer hpos (hfirst.trans hanswer)
    | none =>
      simp only [Poll.next]
      by_cases hlate : poll.timeout < poll.waited + poll.interval
      · have hlast : (poll.timeout - poll.waited) / poll.interval = 0 :=
          Nat.div_eq_of_lt (by omega)
        rw [if_pos hlate, hlast]
        exact .of_late hpos (hfirst.trans hanswer)
      have hagain : poll.waited + poll.interval ≤ poll.timeout := Nat.not_lt.mp hlate
      have hlast : (poll.timeout - poll.waited) / poll.interval =
          (poll.timeout - (poll.waited + poll.interval)) / poll.interval + 1 := by
        rw [← Nat.sub_sub]
        exact Nat.div_eq_sub_div hinterval (by omega)
      rw [if_neg hlate, hlast]
      by_cases hearly : ∃ stop ∈ timer.stopIn?, stop < Sleep.granted poll.interval
      · obtain ⟨stop, hstop, hearly⟩ := hearly
        obtain ⟨firing, later, hfirings⟩ := exists_firings hstop (hpos stop hstop)
        simp only [sleep_of_stop hlive hfirings hearly]
        exact .of_stop (hfirst.trans hanswer) hfirings hearly
      · have hquiet : ∀ stop ∈ timer.stopIn?, Sleep.granted poll.interval ≤ stop := by
          intro stop hstop
          apply Nat.not_lt.mp
          intro hlt
          exact hearly ⟨stop, hstop, hlt⟩
        have hothers : ∀ stop ∈ (timer.slept (Sleep.granted poll.interval) 1).stopIn?,
            ¬Sleep.granted poll.interval ∣ stop := by
          rw [forall_stopIn?_slept]
          intro stop hstop hdvd
          have hlate := Nat.dvd_sub_iff_left (hquiet stop hstop) (Nat.dvd_refl _)
          exact hoff stop hstop (hlate.mp hdvd)
        have hlater := @ih (timer.slept (Sleep.granted poll.interval) 1)
          { poll with waited := poll.waited + poll.interval } hinterval hlive hothers hagain
          (by dsimp only; omega) (asked + 1)
        simp only [sleep_of_quiet hlive hgap hquiet]
        have htimes (k : Nat) :
            (timer.slept (Sleep.granted poll.interval) 1).now + k * Sleep.granted poll.interval =
              timer.now + (k + 1) * Sleep.granted poll.interval := by
          rw [slept_one, Nat.add_one_mul k (Sleep.granted poll.interval)]
          dsimp only
          omega
        simp only [htimes, Nat.add_assoc asked 1, Nat.add_comm 1] at hlater
        exact .of_slept hgap (hfirst.trans hanswer) hlater

/-! ## How polls end -/

/-- A poll ends in one way only. -/
theorem Ends.unique {answers : Nat → Option α} {result other : PollOutcome α × List Nat × Timer}
    (h : Ends answers timer gap last result) (h' : Ends answers timer gap last other) :
    result = other := by
  have hstopIn {after : Nat} {firing : Firing} {later : List (Nat × Firing)}
      (hfirings : timer.firings = (timer.now + after, firing) :: later) :
      after ∈ timer.stopIn? := by
    simp [stopIn?, hfirings]
  cases h with
  | @ready sleeps answer hlast hstop hunanswered hanswer =>
    cases h' with
    | @ready others found hlast' _ hunanswered' hanswer' =>
      obtain hlt | rfl | hgt := Nat.lt_trichotomy sleeps others
      · cases hanswer.symm.trans (hunanswered' sleeps hlt)
      · cases hanswer.symm.trans hanswer'
        rfl
      · cases hanswer'.symm.trans (hunanswered others hgt)
    | timedOut _ hunanswered' => cases hanswer.symm.trans (hunanswered' sleeps hlast)
    | cancelled hfirings' _ hunanswered' =>
      cases hanswer.symm.trans (hunanswered' sleeps (hstop _ (hstopIn hfirings')))
  | timedOut hstop hunanswered =>
    cases h' with
    | ready hlast' _ _ hanswer' => cases hanswer'.symm.trans (hunanswered _ hlast')
    | timedOut => rfl
    | cancelled hfirings' hearly' =>
      exact absurd hearly' (Nat.lt_asymm (hstop _ (hstopIn hfirings')))
  | cancelled hfirings hearly hunanswered =>
    cases h' with
    | ready _ hstop' _ hanswer' =>
      cases hanswer'.symm.trans (hunanswered _ (hstop' _ (hstopIn hfirings)))
    | timedOut hstop' => exact absurd hearly (Nat.lt_asymm (hstop' _ (hstopIn hfirings)))
    | cancelled hfirings' =>
      have hsame := hfirings.symm.trans hfirings'
      simp only [List.cons.injEq, Prod.mk.injEq, Nat.add_left_cancel_iff] at hsame
      obtain ⟨⟨rfl, rfl⟩, rfl⟩ := hsame
      rfl

/-- A poll ends when its last question would have been asked, or before. -/
theorem Ends.now_le {answers : Nat → Option α} {result : PollOutcome α × List Nat × Timer}
    (h : Ends answers timer gap last result) : result.2.2.now ≤ timer.now + last * gap := by
  cases h with
  | ready hlast => exact Nat.add_le_add_left (Nat.mul_le_mul_right gap hlast) timer.now
  | timedOut => exact Nat.le_refl _
  | cancelled _ hearly => exact Nat.add_le_add_left (Nat.le_of_lt hearly) timer.now

/-- The notes of a poll are those about its sleeps, each of which begins with a question. -/
theorem Ends.exists_naps {answers : Nat → Option α} {result : PollOutcome α × List Nat × Timer}
    (h : Ends answers timer gap last result) :
    ∃ naps : List (Nat × Nat), naps.map Prod.fst <+: result.2.1 ∧
      result.2.2.notes = timer.notesWith (naps.flatMap fun nap => bracket nap.1 nap.2) := by
  let naps (sleeps : Nat) : List (Nat × Nat) :=
    (List.range' timer.now sleeps gap).map fun time => (time, time + gap)
  have hstarts (sleeps : Nat) : (naps sleeps).map Prod.fst = List.range' timer.now sleeps gap := by
    rw [List.map_map]
    exact List.map_id' _
  have hnotes (sleeps : Nat) : brackets timer.now gap sleeps =
      (naps sleeps).flatMap fun nap => bracket nap.1 nap.2 := by
    rw [brackets, List.flatMap_map]
  have hnext (sleeps : Nat) : List.range' timer.now (sleeps + 1) gap =
      List.range' timer.now sleeps gap ++ [timer.now + sleeps * gap] := by
    rw [List.range'_concat, Nat.mul_comm]
  cases h with
  | @ready sleeps =>
    refine ⟨naps sleeps, ?_, by simp only [slept, hnotes]⟩
    rw [hstarts, hnext]
    exact List.prefix_append _ _
  | timedOut =>
    refine ⟨naps last, ?_, by simp only [slept, hnotes]⟩
    rw [hstarts, hnext]
    exact List.prefix_append _ _
  | @cancelled after firing later =>
    refine ⟨naps (after / gap) ++ [(timer.now + after / gap * gap, timer.now + after)], ?_, ?_⟩
    · rw [List.map_append, hstarts, hnext]
      exact List.prefix_refl _
    · simp only [brokenOff, hnotes, List.flatMap_append, List.flatMap_singleton]

/-- How a poll with a positive interval and a time limit ends. -/
structure PollsTo (probe : (asked now : Nat) → Option α) (timer : Timer) (interval timeout : Nat)
    (result : PollOutcome α × List Nat × Timer) : Prop where
  /-- The poll ends in this way and in no other. -/
  ends : ∀ other,
    Ends (fun k => probe k (timer.now + k * Sleep.granted interval)) timer
      (Sleep.granted interval) (timeout / interval) other ↔ other = result
  /-- The poll takes no more time than it is given. -/
  in_time : result.2.2.now ≤ timer.now + timeout
  /-- Each sleep has a note at its start and one at its end, and there are no other notes. -/
  naps : ∃ naps : List (Nat × Nat), naps.map Prod.fst <+: result.2.1 ∧
    result.2.2.notes = timer.notesWith (naps.flatMap fun nap => bracket nap.1 nap.2)

/-- A poll that may ask as often as its time limit allows comes to its end. The stop, if there is
one, comes between two questions. -/
theorem pollsTo_pollWith (probe : (asked now : Nat) → Option α) {interval timeout allowed : Nat}
    (hinterval : 0 < interval) (hallowed : probeLimit interval timeout ≤ allowed)
    (hlive : timer.isStopped = false)
    (hoff : ∀ stop ∈ timer.stopIn?, ¬Sleep.granted interval ∣ stop) :
    PollsTo probe timer interval timeout
      (pollWith probe allowed 0 { interval, timeout } timer) := by
  have hends := @ends_pollWith _ _ probe { interval, timeout } _ hinterval hlive hoff
    (Nat.zero_le timeout) hallowed 0
  simp only [Nat.zero_add, Nat.sub_zero] at hends
  refine ⟨fun other => ⟨fun hother => hother.unique hends, ?_⟩, ?_, hends.exists_naps⟩
  · rintro rfl
    exact hends
  · calc
      _ ≤ timer.now + timeout / interval * Sleep.granted interval := hends.now_le
      _ ≤ timer.now + timeout / interval * interval :=
        Nat.add_le_add_left (Nat.mul_le_mul_left _ (Sleep.granted_le interval)) _
      _ ≤ timer.now + timeout := Nat.add_le_add_left (Nat.div_mul_le_self timeout interval) _

/-- A poll that would be answered at its fourth question is stopped in the sleep before it. -/
theorem pollsTo_pollWith_of_stop :
    let timer : Timer := { now := 1000, firings := [(1250, .trigger)], hooked := true }
    let probe : Nat → Nat → Option Nat := fun asked now => if asked = 3 then some now else none
    pollWith probe 11 0 { interval := 100, timeout := 1000 } timer =
        (.cancelled, [1000, 1100, 1200],
          { timer with
            now := 1250
            signal := { count := 1 }
            firings := []
            notes := [(1000, true), (1100, false), (1100, true), (1200, false), (1200, true),
              (1250, false)] }) ∧
      PollsTo probe timer 100 1000
        (pollWith probe 11 0 { interval := 100, timeout := 1000 } timer) := by
  refine ⟨by decide +kernel, ?_⟩
  apply pollsTo_pollWith
  · decide
  · decide
  · rfl
  · intro stop hstop
    cases hstop
    decide

/-- A poll with an interval of more than thirty years asks again too early, because the clock does
not grant the whole interval. -/
theorem pollCounted_cut_short :
    let timer : Timer := {}
    let interval := Sleep.longest + 1
    timer.isStopped = false ∧ timer.stopIn? = none ∧ interval / interval = 1 ∧
      (timer.pollCounted interval interval none).1 = .timedOut ∧
      (timer.pollCounted interval interval none).2.1 ≠ [0, interval] ∧
      (timer.pollCounted interval interval none).2.2.now ≠ 1 * interval := by
  decide +kernel

end GameMacros.Timer
