import Mathlib.Data.List.Basic

set_option autoImplicit false

namespace Sylar.Lib

section Runs

variable {State Action : Type} (step : State → Action → Option State)

-- One interleaving is one list of actions. A step answers none where the
-- action cannot be taken, so a run that completes is a schedule the system allows.
def run (state : State) (schedule : List Action) : Option State := schedule.foldlM step state

-- Every step of the run is taken in a state and by an action that meet the guard.
def Along (guard : State → Action → Prop) : State → List Action → Prop
  | _, [] => True
  | state, action :: rest =>
      guard state action ∧
        match step state action with
        | some next => Along guard next rest
        | none => True

instance decidableAlong (guard : State → Action → Prop) [∀ state action, Decidable (guard state action)] :
    ∀ state schedule, Decidable (Along step guard state schedule)
  | _, [] => inferInstanceAs (Decidable True)
  | state, action :: rest =>
      match stepped : step state action with
      | some next =>
          have : Decidable (Along step guard next rest) := decidableAlong guard next rest
          decidable_of_iff (guard state action ∧ Along step guard next rest) (by simp only [Along, stepped])
      | none => decidable_of_iff (guard state action ∧ True) (by simp only [Along, stepped])

theorem along_next (guard : State → Action → Prop) (state next : State) (action : Action) (rest : List Action)
    (along : Along step guard state (action :: rest)) (stepped : step state action = some next) :
    Along step guard next rest := by
  simpa only [stepped] using along.2

theorem along_true (state : State) (schedule : List Action) : Along step (fun _ _ => True) state schedule := by
  induction schedule generalizing state with
  | nil => trivial
  | cons action rest ih =>
      refine ⟨trivial, ?_⟩
      split
      · exact ih _
      · trivial

@[simp] theorem run_nil (state : State) : run step state [] = some state := rfl

theorem run_cons (state : State) (action : Action) (rest : List Action) :
    run step state (action :: rest) = (step state action).bind fun next => run step next rest := by
  simp [run, List.foldlM_cons]

theorem run_cons_some (state final : State) (action : Action) (rest : List Action)
    (completed : run step state (action :: rest) = some final) :
    ∃ next, step state action = some next ∧ run step next rest = some final := by
  rw [run_cons] at completed
  exact Option.bind_eq_some_iff.mp completed

theorem run_append (state : State) (before after : List Action) :
    run step state (before ++ after) = (run step state before).bind fun next => run step next after := by
  simp [run, List.foldlM_append]

theorem run_append_some (state middle : State) (before after : List Action)
    (reached : run step state before = some middle) :
    run step state (before ++ after) = run step middle after := by
  rw [run_append, reached, Option.bind_some]

theorem along_of_reached (guard : State → Action → Prop) (schedule : List Action) (state : State)
    (meets : ∀ before action after reached, schedule = before ++ action :: after →
      run step state before = some reached → guard reached action) : Along step guard state schedule := by
  induction schedule generalizing state with
  | nil => trivial
  | cons action rest ih =>
      refine ⟨meets [] action rest state rfl rfl, ?_⟩
      split
      · rename_i next stepped
        apply ih next
        intro before later after reached shape ran
        apply meets (action :: before) later after reached (by rw [shape]; rfl)
        rw [run_cons, stepped, Option.bind_some, ran]
      · trivial

theorem run_invariant (guard : State → Action → Prop) (invariant : State → Prop)
    (kept : ∀ state action next, invariant state → guard state action →
      step state action = some next → invariant next)
    (schedule : List Action) (state final : State) (initial : invariant state)
    (along : Along step guard state schedule) (completed : run step state schedule = some final) :
    invariant final := by
  induction schedule generalizing state with
  | nil =>
      cases completed
      exact initial
  | cons action rest ih =>
      obtain ⟨next, stepped, remaining⟩ := run_cons_some step state final action rest completed
      exact ih next (kept state action next initial along.1 stepped)
        (along_next step guard state next action rest along stepped) remaining

section Finishing

variable {Party : Type} (invariant : State → Prop) (left : State → Party → Nat)

theorem run_finishes (party : Party)
    (moves : ∀ state, invariant state → left state party ≠ 0 → ∃ action next, step state action = some next ∧
      invariant next ∧ left next party < left state party ∧ ∀ other, left next other ≤ left state other)
    (state : State) (initial : invariant state) :
    ∃ schedule final, run step state schedule = some final ∧ invariant final ∧ left final party = 0 ∧
      ∀ other, left final other ≤ left state other := by
  induction amount : left state party using Nat.strongRecOn generalizing state with
  | _ amount ih =>
      by_cases done : left state party = 0
      · exact ⟨[], state, rfl, initial, done, fun _ => Nat.le_refl _⟩
      · obtain ⟨action, next, stepped, holds, less, others⟩ := moves state initial done
        obtain ⟨schedule, final, completed, kept, ends, lower⟩ := ih (left next party) (amount ▸ less) next holds rfl
        refine ⟨action :: schedule, final, ?_, kept, ends, fun other => Nat.le_trans (lower other) (others other)⟩
        rw [run_cons, stepped, Option.bind_some, completed]

-- Where whoever has something left to do can take a step that leaves him less
-- and nobody more, a run brings any number of parties to their ends.
theorem run_finishes_all
    (moves : ∀ state party, invariant state → left state party ≠ 0 → ∃ action next, step state action = some next ∧
      invariant next ∧ left next party < left state party ∧ ∀ other, left next other ≤ left state other)
    (parties : List Party) (state : State) (initial : invariant state) :
    ∃ schedule final, run step state schedule = some final ∧ invariant final ∧ (∀ party ∈ parties, left final party = 0) ∧
      ∀ other, left final other ≤ left state other := by
  induction parties generalizing state with
  | nil => exact ⟨[], state, rfl, initial, by simp, fun _ => Nat.le_refl _⟩
  | cons party rest ih =>
      obtain ⟨before, middle, reached, holds, ends, lower⟩ :=
        run_finishes step invariant left party (fun state => moves state party) state initial
      obtain ⟨after, final, completed, kept, others, later⟩ := ih middle holds
      refine ⟨before ++ after, final, by rw [run_append_some step _ _ _ _ reached, completed], kept, ?_,
        fun other => Nat.le_trans (later other) (lower other)⟩
      intro other member
      rcases List.mem_cons.mp member with rfl | among
      · exact Nat.le_zero.mp (Nat.le_trans (later other) (Nat.le_of_eq ends))
      · exact others other among

end Finishing

-- The state holds before the run and after each of its steps.
def Throughout (holds : State → Prop) : State → List Action → Prop
  | state, [] => holds state
  | state, action :: rest =>
      holds state ∧
        match step state action with
        | some next => Throughout holds next rest
        | none => True

theorem throughout_start (holds : State → Prop) (state : State) (schedule : List Action)
    (throughout : Throughout step holds state schedule) : holds state := by
  cases schedule with
  | nil => exact throughout
  | cons action rest => exact throughout.1

theorem throughout_reached (holds : State → Prop) (before after : List Action) (state reached : State)
    (throughout : Throughout step holds state (before ++ after)) (completed : run step state before = some reached) :
    holds reached := by
  induction before generalizing state with
  | nil =>
      cases completed
      exact throughout_start step holds _ after throughout
  | cons action rest ih =>
      obtain ⟨next, stepped, remaining⟩ := run_cons_some step state reached action rest completed
      refine ih next ?_ remaining
      have later := throughout.2
      simp only [stepped] at later
      exact later

-- Where a step from a good state ends in a good state exactly if it meets the
-- condition, a run stays good exactly if all of its steps do.
theorem throughout_iff_along (holds invariant : State → Prop) (guard condition : State → Action → Prop)
    (kept : ∀ state action next, invariant state → guard state action → step state action = some next → invariant next)
    (exactly : ∀ state action next, invariant state → holds state → guard state action → step state action = some next →
      (holds next ↔ condition state action))
    (refused : ∀ state action, step state action = none → condition state action) (schedule : List Action) (state : State)
    (initial : invariant state) (good : holds state) (along : Along step guard state schedule) :
    Throughout step holds state schedule ↔ Along step condition state schedule := by
  induction schedule generalizing state with
  | nil => exact iff_of_true good trivial
  | cons action rest ih =>
      cases stepped : step state action with
      | none =>
          simp only [Throughout, Along, stepped, and_true]
          exact iff_of_true good (refused state action stepped)
      | some next =>
          have remaining := along_next step guard state next action rest along stepped
          have invariantNext := kept state action next initial along.1 stepped
          have decides := exactly state action next initial good along.1 stepped
          simp only [Throughout, Along, stepped]
          constructor
          · rintro ⟨-, throughout⟩
            have goodNext := throughout_start step holds next rest throughout
            exact ⟨decides.mp goodNext, (ih next invariantNext goodNext remaining).mp throughout⟩
          · rintro ⟨meets, later⟩
            have goodNext := decides.mpr meets
            exact ⟨good, (ih next invariantNext goodNext remaining).mpr later⟩

end Runs

end Sylar.Lib
