import GameMacros.Proofs.Flight

/-!
# Callers

What is called comes in front of its caller, and nothing ever comes in between: what is called
later comes in front of both, and what is queued comes behind them. So when an activation leaves the
queue its caller is next.
-/

namespace GameMacros

open Execution

/-- Wherever the first number is in the list, the second one comes right behind it. -/
def Adjoins (first second : Nat) (ids : List Nat) : Prop :=
  ∀ place : Nat, ids[place]? = some first → ids[place + 1]? = some second

/-- What is left of a list of numbers keeps its order. Some are gone from its front, and new ones
come in front of it and at its end. -/
inductive Shifts (least : Nat) : List Nat → List Nat → Prop
  | intro (gone kept fresh late : List Nat) (hnew : ∀ id ∈ fresh ++ late, least ≤ id) :
      Shifts least (gone ++ kept) (fresh ++ kept ++ late)

/-- Numbers that are next to each other stay so. -/
theorem Adjoins.shifts {least first second : Nat} {ids later : List Nat}
    (h : Adjoins first second ids) (hfirst : first < least) (hshifts : Shifts least ids later) :
    Adjoins first second later := by
  obtain ⟨gone, kept, fresh, late, hnew⟩ := hshifts
  have hbefore (place : Nat) : (gone ++ kept)[gone.length + place]? = kept[place]? := by
    rw [List.getElem?_append_right (Nat.le_add_right _ _), Nat.add_sub_cancel_left]
  have hafter (place : Nat) :
      (fresh ++ kept ++ late)[fresh.length + place]? = (kept ++ late)[place]? := by
    rw [List.append_assoc, List.getElem?_append_right (Nat.le_add_right _ _),
      Nat.add_sub_cancel_left]
  have hold {id : Nat} (hmem : id ∈ fresh ++ late) : id ≠ first :=
    Nat.ne_of_gt (Nat.lt_of_lt_of_le hfirst (hnew id hmem))
  intro place hplace
  -- The first number is neither among the new ones in front nor among those at the end.
  have hbehind : fresh.length ≤ place := by
    by_contra hin
    rw [List.append_assoc, List.getElem?_append_left (Nat.lt_of_not_le hin)] at hplace
    exact hold (List.mem_append_left _ (List.mem_of_getElem? hplace)) rfl
  obtain ⟨offset, rfl⟩ := Nat.exists_eq_add_of_le hbehind
  rw [hafter] at hplace
  have hkept : offset < kept.length := by
    by_contra hin
    rw [List.getElem?_append_right (Nat.le_of_not_lt hin)] at hplace
    exact hold (List.mem_append_right _ (List.mem_of_getElem? hplace)) rfl
  rw [List.getElem?_append_left hkept, ← hbefore] at hplace
  have hsecond : kept[offset + 1]? = some second := by
    rw [← hbefore, ← Nat.add_assoc]
    exact h _ hplace
  rw [Nat.add_assoc, hafter, List.getElem?_append_left (List.getElem?_eq_some_iff.mp hsecond).1,
    hsecond]

namespace Engine

variable {engine next : Engine}

/-- The numbers of the activations in the queue. -/
def ids (engine : Engine) : List Nat :=
  engine.queue.map Activation.id

/-- A choice only takes activations from the front of the queue. -/
theorem Choice.queue_suffix {result : Engine × Job} (h : Choice engine result) :
    result.1.queue <:+ engine.queue := by
  have hdropped : engine.dropFinished.queue <:+ engine.queue := List.dropWhile_suffix _
  cases h with
  | shutDown | loggedOut => exact List.suffix_refl _
  | drained | stoppedAtLoop => exact List.nil_suffix
  | stopped | pausedAtLoop | steppedOverLatch | held | stepped | started => exact hdropped

/-- Where activations only leave the front of the queue, the others keep their order. -/
theorem shifts_of_suffix (h : next.queue <:+ engine.queue) :
    Shifts engine.nextId engine.ids next.ids := by
  obtain ⟨gone, hgone⟩ := h
  have hshifts : Shifts engine.nextId _ _ :=
    .intro (gone.map Activation.id) next.ids [] [] (by simp)
  rw [List.nil_append, List.append_nil] at hshifts
  rwa [ids, ← hgone, List.map_append]

/-- At the end of a command what it calls comes in front of the queue. -/
theorem shifts_commit (engine : Engine) (activation : Activation) (callee : Option Program) :
    Shifts engine.nextId engine.ids (engine.commit activation callee).ids := by
  obtain ⟨heq, _⟩ | ⟨front, others, hqueue, hid, heq⟩ := engine.commit_cases activation callee
  · rw [heq]
    exact shifts_of_suffix (List.suffix_refl _)
  · let fresh := ((callee.map (Activation.ofProgram engine.nextId)).toList).map Activation.id
    have hfresh : ∀ id ∈ fresh ++ [], engine.nextId ≤ id := by
      cases callee <;> simp [fresh, Activation.ofProgram]
    have hshifts := Shifts.intro [] engine.ids fresh [] hfresh
    have hids : (engine.commit activation callee).ids = fresh ++ engine.ids ++ [] := by
      simp [ids, heq, hqueue, hid, fresh, Activation.advance]
    rwa [hids]

/-- A call empties the queue, or leaves it but for its end. -/
theorem shifts_handle (engine : Engine) (library : Library) (call : Call) :
    Shifts engine.nextId engine.ids (engine.handle library call).1.ids := by
  have hcontrol := engine.control_handle library call
  obtain hqueue | hqueue | ⟨program, _, _, hqueue⟩ := hcontrol.queue_cases
  · exact shifts_of_suffix (hqueue ▸ List.suffix_refl _)
  · exact shifts_of_suffix (hqueue ▸ List.nil_suffix)
  · have hshifts : Shifts engine.nextId _ _ := .intro [] engine.ids [] [engine.nextId] (by simp)
    have hids : (engine.handle library call).1.ids = [] ++ engine.ids ++ [engine.nextId] := by
      simp [ids, hqueue, Activation.ofProgram]
    rwa [hids]

end Engine

namespace Machine

variable {σ : Type} {host : Host σ} {machine next last : Machine σ} {moves : List (Move σ)}
  {id caller : Nat}

/-- Where the outcome of a piece is put into effect, what was next to each other stays so. -/
theorem adjoins_settle (machine : Machine σ) (flight : InFlight) (standing : Standing)
    (hlt : id < machine.engine.nextId) (h : Adjoins id caller machine.engine.ids) :
    Adjoins id caller (machine.settle host flight.activation flight.command flight.callee
      flight.seen standing).engine.ids := by
  cases standing with
  | finished => exact h.shifts hlt (machine.engine.shifts_commit _ _)
  | failed failure => exact h.shifts hlt (Engine.shifts_of_suffix List.nil_suffix)
  | asleep ms pause =>
    simp only [settle, Engine.ids, Engine.noteAsleep_queue]
    exact h

/-- What is next to each other stays so in a step. -/
theorem Step.adjoins (hstep : Step host machine next) (hlt : id < machine.engine.nextId)
    (h : Adjoins id caller machine.engine.ids) : Adjoins id caller next.engine.ids := by
  have hchosen {engine : Engine} {job : Engine.Job}
      (hjob : machine.engine.nextJob = (engine, job)) : Adjoins id caller engine.ids :=
    h.shifts hlt (Engine.shifts_of_suffix (Engine.choice_of_nextJob hjob).queue_suffix)
  cases hstep with
  | @starts engine front htask hjob =>
    have hchoice := Engine.choice_of_nextJob hjob
    have hframe : machine.engine.Frame engine := hchoice.frame
    obtain ⟨command, hcurrent⟩ := Activation.exists_current?_of_not_finished hchoice.of_run.1
    rw [begin_of_current? hcurrent]
    generalize start _ command front _ = begun
    exact adjoins_settle { machine with engine, world := begun.world }
      ⟨begun.activation, command, begun.callee, .trailing, engine.signal.count⟩ begun.standing
      (Nat.lt_of_lt_of_le hlt hframe.nextId_le) (hchosen hjob)
  | ends _ hjob => exact hchosen hjob
  | @rests engine htask hjob =>
    obtain ⟨wake, task, hrest, _⟩ := exists_rest_eq { machine with engine } htask
    have hsame : Adjoins id caller engine.ids := hchosen hjob
    rw [hrest]
    exact hsame
  | cancels =>
    simp only [Engine.ids, Engine.noteAwake_queue]
    exact h
  | @resumes flight wakeAt htask hlive =>
    obtain ⟨runState, _, hwake⟩ := exists_wake_eq host machine hlive
    rw [hwake]
    generalize resume _ _ _ _ = piece
    exact adjoins_settle
      { machine with engine.runState := runState, world := piece.1, task := .ready }
      flight piece.2 hlt h
  | unparks => exact h

/-- What is next to each other stays so in a move. -/
theorem adjoins_of_move? {move : Move σ} (hmove : machine.move? host move = some next)
    (hlt : id < machine.engine.nextId) (h : Adjoins id caller machine.engine.ids) :
    Adjoins id caller next.engine.ids := by
  cases move with
  | work => exact (step_of_step? hmove).adjoins hlt h
  | wait | drift =>
    cases hmove
    exact h
  | call library call =>
    cases hmove
    exact h.shifts hlt (machine.engine.shifts_handle library call)
  | launch mode =>
    simp only [move?] at hmove
    split at hmove
    · cases hmove
      exact h
    · cases hmove

/-- In the move a new activation comes in front of the one that has called it. -/
def Calls (host : Host σ) (id caller : Nat) (entry : Machine σ × Move σ) : Prop :=
  ∃ next ∈ entry.1.move? host entry.2,
    entry.1.engine.nextId ≤ id ∧ [id, caller] <+: next.engine.ids

instance (host : Host σ) (id caller : Nat) : DecidablePred (Calls host id caller) :=
  fun entry => inferInstanceAs (Decidable (∃ next ∈ entry.1.move? host entry.2,
    entry.1.engine.nextId ≤ id ∧ [id, caller] <+: next.engine.ids))

/-- What is called is in front of its caller. -/
theorem Calls.adjoins {move : Move σ} (h : Calls host id caller (machine, move))
    (hmachine : machine.Reachable host) (hmove : machine.move? host move = some next) :
    id < next.engine.nextId ∧ Adjoins id caller next.engine.ids := by
  obtain ⟨_, hnext, _, others, hothers⟩ := h
  cases hmove.symm.trans hnext
  have hids : next.engine.ids = id :: caller :: others := hothers.symm
  have hsound := (sound_of_reachable (hmachine.run (.cons hmove (.nil _)))).engine
  have hnodup : next.engine.ids.Nodup := hsound.ids_nodup
  refine ⟨?_, fun place hplace => ?_⟩
  · have hmem : id ∈ next.engine.ids := hids ▸ List.mem_cons_self
    obtain ⟨activation, hqueued, rfl⟩ := List.mem_map.mp hmem
    exact hsound.id_lt activation hqueued
  · cases place with
    | zero => rw [hids]; rfl
    | succ place =>
      rw [hids, List.nodup_cons] at hnodup
      rw [hids, List.getElem?_cons_succ] at hplace
      exact absurd (List.mem_of_getElem? hplace) hnodup.1

/-- What is next to each other stays so in a run. -/
theorem Run.adjoins (hrun : Run host machine moves last) (hlt : id < machine.engine.nextId)
    (h : Adjoins id caller machine.engine.ids) : Adjoins id caller last.engine.ids := by
  induction hrun with
  | nil => exact h
  | cons hmove _ ih =>
    exact ih (Nat.lt_of_lt_of_le hlt (proceeds_of_move? hmove).frame.nextId_le)
      (adjoins_of_move? hmove hlt h)

end Machine

end GameMacros
