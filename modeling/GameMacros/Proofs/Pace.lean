import GameMacros.Proofs.Tracking

/-!
# The pace of a run

An activation moves forward until it rewinds, and it never rewinds without a pause. So the same
command of it does not start twice within that pause.
-/

namespace GameMacros

open Execution

/-- A command that starts and goes back in its activation sleeps first. -/
theorem Execution.start_rewinds {σ : Type} {scope : Scope σ} {command : Command}
    {activation : Activation} {world : World σ} {begun : Start σ}
    (hnext : activation.nextStep = none)
    (hbegun : start scope command activation world = begun) :
    begun.activation.step = activation.step ∧
      (begun.activation.nextStep = none ∨
        begun.standing = .asleep rewindPause .beforeRewind) := by
  subst hbegun
  unfold start
  cases command.kind with
  | loop count =>
    cases count with
    | none => exact ⟨rfl, .inr rfl⟩
    | some count =>
      dsimp only [loop]
      split
      · exact ⟨rfl, .inl hnext⟩
      · exact ⟨rfl, .inr rfl⟩
  | craft count =>
    dsimp only [craft]
    split <;> exact ⟨rfl, .inl hnext⟩
  | runMacro name =>
    dsimp only [runMacro]
    split
    · exact ⟨rfl, .inl hnext⟩
    · split <;> exact ⟨rfl, .inl hnext⟩
  | action | click | keys | target | recipe | item | require | wait | waitAddon | native =>
    exact ⟨rfl, .inl hnext⟩

namespace Machine

variable {σ : Type} {host : Host σ} {machine next last : Machine σ} {moves : List (Move σ)}
  {beginning : Beginning}

/-! ## The same command of an activation -/

/-- The activation has passed the command that has started, or does so when its command wakes, or
the pause that is due between two starts will be over by then. -/
def Beginning.Precedes (beginning : Beginning) (activation : Activation) : Option Nat → Prop
  | none => beginning.place < activation.step
  | some wakeAt =>
    activation.nextStep = none ∧ beginning.place ≤ activation.step ∨
      beginning.time + rewindPause ≤ wakeAt

/-- Since the command has started, its activation has not come back to it, or the pause that is due
is over. -/
structure Spaced (beginning : Beginning) (machine : Machine σ) : Prop where
  id_lt : beginning.id < machine.engine.nextId
  time_le : beginning.time ≤ machine.world.now
  precedes : ∀ activation wakeTime?, machine.Has activation wakeTime? →
    activation.id = beginning.id →
    beginning.time + rewindPause ≤ machine.world.now ∨ beginning.Precedes activation wakeTime?

/-- A command that ends at once leaves all places up to its own behind. -/
theorem precedes_of_finished {scope : Scope σ} {command : Command} {front : Activation}
    {world : World σ} {begun : Start σ} (hnext : front.nextStep = none)
    (hbegun : start scope command front world = begun) (hfinished : begun.standing = .finished)
    (hplace : beginning.place ≤ front.step) :
    beginning.Precedes begun.activation.advance none := by
  obtain ⟨hstep, hstraight | hrewinds⟩ := start_rewinds hnext hbegun
  · have hadvanced : begun.activation.advance.step = front.step + 1 := by
      rw [Activation.advance, hstraight, hstep]
      rfl
    exact Nat.lt_of_le_of_lt hplace (by omega)
  · cases hfinished.symm.trans hrewinds

/-- A command that goes to sleep goes on behind its place, or comes back only after the pause. -/
theorem precedes_of_asleep {scope : Scope σ} {command : Command} {front : Activation}
    {world : World σ} {begun : Start σ} {ms : Nat} {pause : Pause} (hnext : front.nextStep = none)
    (hbegun : start scope command front world = begun)
    (hasleep : begun.standing = .asleep ms pause) (hplace : beginning.place ≤ front.step)
    {now : Nat} (htime : beginning.time ≤ now) :
    beginning.Precedes begun.activation (some (now + Sleep.granted ms)) := by
  obtain ⟨hstep, hstraight | hrewinds⟩ := start_rewinds hnext hbegun
  · exact .inl ⟨hstraight, hstep ▸ hplace⟩
  · right
    cases hasleep.symm.trans hrewinds
    rw [Sleep.granted_of_le (by decide)]
    exact Nat.add_le_add_right htime _

/-- The start of a command is followed by the pause or by other places. -/
theorem spaced_of_beginning? (hmachine : machine.Reachable host) {move : Move σ}
    (hmove : machine.move? host move = some next)
    (hbegins : beginning? (machine, move) = some beginning) : Spaced beginning next := by
  have hsound := sound_of_reachable hmachine
  obtain ⟨rfl, front, hstarting, rfl⟩ := exists_starting? hbegins
  have hready := (nextJob_of_starting? hstarting).1
  have hlt : front.id < machine.engine.nextId := (has_of_starting? hstarting).id_lt hsound
  have hnext := nextStep_of_starting? hsound hstarting
  have hnow := now_le_of_move? hmove
  have hnotAsleep {activation : Activation} {wakeAt : Nat}
      (hhas : machine.Has activation (some wakeAt)) : False := by
    cases hhas with
    | executing htask => cases hready.symm.trans htask
  refine ⟨Nat.lt_of_lt_of_le hlt (proceeds_of_move? hmove).frame.nextId_le, hnow, ?_⟩
  intro activation wakeTime? hhas hid
  cases comes_of_move? hmachine hmove hhas with
  | stays _ hother => exact absurd hid.symm (hother front rfl hstarting)
  | fresh hfresh => exact absurd hid (Nat.ne_of_gt (Nat.lt_of_lt_of_le hlt hfresh))
  | passes _ hother _ hbegun hfinished =>
    cases hstarting.symm.trans hother
    exact .inr (precedes_of_finished hnext hbegun hfinished (Nat.le_refl _))
  | begins _ hother _ hbegun hasleep =>
    cases hstarting.symm.trans hother
    exact .inr (precedes_of_asleep hnext hbegun hasleep (Nat.le_refl _) (Nat.le_refl _))
  | goesOn _ hasleep => exact (hnotAsleep hasleep).elim
  | ends _ hasleep => exact (hnotAsleep hasleep).elim

/-- Until the pause is over, every move leads away from the command that has started. -/
theorem Spaced.move (h : Spaced beginning machine) (hmachine : machine.Reachable host)
    {move : Move σ} (hmove : machine.move? host move = some next) : Spaced beginning next := by
  have hsound := sound_of_reachable hmachine
  have hnow := now_le_of_move? hmove
  refine ⟨Nat.lt_of_lt_of_le h.id_lt (proceeds_of_move? hmove).frame.nextId_le,
    Nat.le_trans h.time_le hnow, ?_⟩
  intro activation wakeTime? hhas hid
  have hearlier {activation : Activation} {wakeTime? : Option Nat}
      (hhas : machine.Has activation wakeTime?) (hid : activation.id = beginning.id) :
      beginning.time + rewindPause ≤ next.world.now ∨
        beginning.Precedes activation wakeTime? :=
    (h.precedes activation wakeTime? hhas hid).imp_left fun hover => Nat.le_trans hover hnow
  cases comes_of_move? hmachine hmove hhas with
  | stays hstays => exact hearlier hstays hid
  | fresh hfresh =>
    exact absurd hid (Nat.ne_of_gt (Nat.lt_of_lt_of_le h.id_lt hfresh))
  | passes _ hstarting _ hbegun hfinished =>
    have hnext := nextStep_of_starting? hsound hstarting
    have hfront := (course_of_start_eq hbegun).id_eq.symm.trans hid
    refine (hearlier (has_of_starting? hstarting) hfront).imp_right ?_
    intro hplace
    exact precedes_of_finished hnext hbegun hfinished (Nat.le_of_lt hplace)
  | begins _ hstarting _ hbegun hasleep =>
    have hnext := nextStep_of_starting? hsound hstarting
    have hfront := (course_of_start_eq hbegun).id_eq.symm.trans hid
    refine (hearlier (has_of_starting? hstarting) hfront).imp_right ?_
    intro hplace
    exact precedes_of_asleep hnext hbegun hasleep (Nat.le_of_lt hplace) h.time_le
  | goesOn _ hasleep hdue ms =>
    obtain hover | hstraight | hover := hearlier hasleep hid
    · exact .inl hover
    · exact .inr (.inl hstraight)
    · exact .inl (Nat.le_trans hover (Nat.le_trans hdue hnow))
  | ends _ hasleep hdue =>
    obtain hover | ⟨hstraight, hplace⟩ | hover := hearlier hasleep hid
    · exact .inl hover
    · right
      change beginning.place < Option.getD _ _
      rw [hstraight]
      exact Nat.lt_succ_of_le hplace
    · exact .inl (Nat.le_trans hover (Nat.le_trans hdue hnow))

/-- Two starts of the same command of an activation are a pause apart. -/
def Beginning.Apart (first later : Beginning) : Prop :=
  first.id = later.id → first.place = later.place → first.time + rewindPause ≤ later.time

/-- When the same command starts again, the pause is over. -/
theorem Spaced.apart (h : Spaced beginning machine) {move : Move σ} {later : Beginning}
    (hlater : beginning? (machine, move) = some later) : beginning.Apart later := by
  intro hid hplace
  obtain ⟨_, front, hstarting, rfl⟩ := exists_starting? hlater
  have hprecedes := h.precedes front none (has_of_starting? hstarting) hid.symm
  exact hprecedes.resolve_right fun hlt => Nat.ne_of_lt hlt hplace

/-- From a start on the same command starts again only after the pause. -/
theorem Run.apart_of_spaced (hrun : Run host machine moves last)
    (hmachine : machine.Reachable host) (h : Spaced beginning machine) :
    ∀ later ∈ beginnings host moves machine, beginning.Apart later := by
  induction hrun with
  | nil => simp [beginnings, trail]
  | @cons machine next last move moves hmove _ ih =>
    intro later hmem
    rw [beginnings_cons hmove] at hmem
    rcases List.mem_append.mp hmem with hfirst | hothers
    · exact h.apart (Option.mem_toList.mp hfirst)
    · exact ih (hmachine.run (.cons hmove (.nil _))) (h.move hmachine hmove) later hothers

/-- In a run the same command of an activation does not start twice within the pause. -/
theorem Run.pairwise_apart (hrun : Run host machine moves last)
    (hmachine : machine.Reachable host) :
    (beginnings host moves machine).Pairwise Beginning.Apart := by
  induction hrun with
  | nil => exact .nil
  | @cons machine next last move moves hmove hrest ih =>
    have hreached : next.Reachable host := hmachine.run (.cons hmove (.nil _))
    rw [beginnings_cons hmove]
    cases hbegins : beginning? (machine, move) with
    | none => exact ih hreached
    | some beginning =>
      have hspaced := spaced_of_beginning? hmachine hmove hbegins
      exact .cons (hrest.apart_of_spaced hreached hspaced) (ih hreached)

end Machine

end GameMacros
