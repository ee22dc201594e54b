import Sylar.Config.ConfigVar
import Sylar.Lib.Runs

set_option autoImplicit false

namespace Sylar.Config.SetValueRace

open Lib (run Along)
open Yaml (Exception)

-- Where one thread stands in setValue. While it notifies it holds the read
-- lock, and listener is the place in m_cbs of the callback to be called next;
-- while it is writing it has left the read section and waits for the write lock.
inductive Phase (Val : Type) where
  | idle
  | notifying (new : Val) (listener : Nat)
  | writing (new : Val)
deriving DecidableEq, Repr

-- One variable that any number of threads share, with the pairs its listeners
-- have been called with. Listeners are the places 0, 1, ... of m_cbs.
structure Shared (Val : Type) where
  val : Val
  threads : List (Phase Val)
  deliveries : List (Nat × Val × Val)
deriving DecidableEq, Repr

inductive Action (Val : Type) where
  | setValue (thread : Nat) (new : Val)
  | fromString (thread : Nat) (text : String)
  | deliver (thread : Nat)
  | leave (thread : Nat)
  | write (thread : Nat)

section Steps

variable {Val : Type} [BEq Val] (listeners : Nat) (fromStr : String → Except Exception Val)

def start (initial : Val) (threads : Nat) : Shared Val := ⟨initial, List.replicate threads .idle, []⟩

def Phase.reads : Phase Val → Bool
  | .notifying _ _ => true
  | _ => false

-- The comparison at the head of the read section; an equal value ends the call.
def enter (state : Shared Val) (thread : Nat) (new : Val) : Shared Val :=
  if state.val == new then state
  else { state with threads := state.threads.set thread (.notifying new 0) }

-- Read sections of several threads may overlap callback by callback; the write
-- section is one step, which waits until no thread holds the read lock.
def step (state : Shared Val) : Action Val → Option (Shared Val)
  | .setValue thread new =>
      match state.threads[thread]? with
      | some .idle => some (enter state thread new)
      | _ => none
  | .fromString thread text =>
      match state.threads[thread]? with
      | some .idle =>
          match fromStr text with
          | .error _ => some state
          | .ok new => some (enter state thread new)
      | _ => none
  | .deliver thread =>
      match state.threads[thread]? with
      | some (.notifying new listener) =>
          if listener < listeners then
            some { state with
              threads := state.threads.set thread (.notifying new (listener + 1))
              deliveries := state.deliveries ++ [(listener, state.val, new)] }
          else none
      | _ => none
  | .leave thread =>
      match state.threads[thread]? with
      | some (.notifying new listener) =>
          if listener < listeners then none
          else some { state with threads := state.threads.set thread (.writing new) }
      | _ => none
  | .write thread =>
      match state.threads[thread]? with
      | some (.writing new) =>
          if state.threads.any Phase.reads then none
          else some { state with val := new, threads := state.threads.set thread .idle }
      | _ => none

end Steps

section History

variable {Val : Type}

-- The pairs form a chain: the first old value is start, every later one is the
-- new value before it, and finish is the last new value.
def Linked (start : Val) : List (Val × Val) → Val → Prop
  | [], finish => start = finish
  | pair :: rest, finish => pair.1 = start ∧ Linked pair.2 rest finish

theorem linked_snoc (start middle finish : Val) (pairs : List (Val × Val)) (linked : Linked start pairs middle) :
    Linked start (pairs ++ [(middle, finish)]) finish := by
  induction pairs generalizing start with
  | nil =>
      cases linked
      exact ⟨rfl, rfl⟩
  | cons pair rest ih => exact ⟨linked.1, ih pair.2 linked.2⟩

def seen (deliveries : List (Nat × Val × Val)) (listener : Nat) : List (Val × Val) :=
  (deliveries.filter fun delivery => delivery.1 == listener).map Prod.snd

theorem seen_snoc_own (deliveries : List (Nat × Val × Val)) (listener : Nat) (old new : Val) :
    seen (deliveries ++ [(listener, old, new)]) listener = seen deliveries listener ++ [(old, new)] := by
  simp [seen]

theorem seen_snoc_other (deliveries : List (Nat × Val × Val)) (listener other : Nat) (old new : Val)
    (different : other ≠ listener) : seen (deliveries ++ [(listener, old, new)]) other = seen deliveries other := by
  simp [seen, Ne.symm different]

def AllIdle (state : Shared Val) : Prop := ∀ phase ∈ state.threads, phase = .idle

def Consistent (listeners : Nat) (initial : Val) (state : Shared Val) : Prop :=
  ∀ listener < listeners, (∃ finish, Linked initial (seen state.deliveries listener) finish) ∧
    (AllIdle state → Linked initial (seen state.deliveries listener) state.val)

instance [DecidableEq Val] (state : Shared Val) : Decidable (AllIdle state) :=
  inferInstanceAs (Decidable (∀ phase ∈ state.threads, phase = .idle))

def announces [BEq Val] (fromStr : String → Except Exception Val) (state : Shared Val) : Action Val → Bool
  | .setValue _ new => !(state.val == new)
  | .fromString _ text =>
      match fromStr text with
      | .ok new => !(state.val == new)
      | .error _ => false
  | _ => false

-- A call that has something to announce starts while no other call is in progress.
def Undisturbed [BEq Val] (fromStr : String → Except Exception Val) (state : Shared Val) (action : Action Val) : Prop :=
  announces fromStr state action = true → AllIdle state

instance [DecidableEq Val] (fromStr : String → Except Exception Val) (state : Shared Val) (action : Action Val) :
    Decidable (Undisturbed fromStr state action) :=
  inferInstanceAs (Decidable (announces fromStr state action = true → AllIdle state))

def OthersIdle (state : Shared Val) (thread : Nat) : Prop :=
  ∀ (other : Nat) (phase : Phase Val), other ≠ thread → state.threads[other]? = some phase → phase = .idle

-- At most one call is in progress, and it has told the listeners before its
-- place in m_cbs, and only those, about the value it brings.
inductive Serial (listeners : Nat) (initial : Val) (state : Shared Val) : Prop where
  | idle (idle : AllIdle state)
      (linked : ∀ listener < listeners, Linked initial (seen state.deliveries listener) state.val)
  | notifying (thread : Nat) (new : Val) (next : Nat) (here : state.threads[thread]? = some (.notifying new next))
      (others : OthersIdle state thread)
      (told : ∀ listener < listeners, listener < next → Linked initial (seen state.deliveries listener) new)
      (untold : ∀ listener < listeners, next ≤ listener → Linked initial (seen state.deliveries listener) state.val)
  | writing (thread : Nat) (new : Val) (here : state.threads[thread]? = some (.writing new))
      (others : OthersIdle state thread)
      (told : ∀ listener < listeners, Linked initial (seen state.deliveries listener) new)

theorem serial_idle (listeners : Nat) (initial : Val) (state : Shared Val) (serial : Serial listeners initial state)
    (idle : AllIdle state) : ∀ listener < listeners, Linked initial (seen state.deliveries listener) state.val := by
  cases serial with
  | idle _ linked => exact linked
  | notifying thread new next here _ _ _ => cases idle _ (List.mem_of_getElem? here)
  | writing thread new here _ _ => cases idle _ (List.mem_of_getElem? here)

theorem serial_notifying (listeners : Nat) (initial : Val) (state : Shared Val) (serial : Serial listeners initial state)
    (thread next : Nat) (new : Val) (here : state.threads[thread]? = some (.notifying new next)) :
    OthersIdle state thread ∧
      (∀ listener < listeners, listener < next → Linked initial (seen state.deliveries listener) new) ∧
      (∀ listener < listeners, next ≤ listener → Linked initial (seen state.deliveries listener) state.val) := by
  cases serial with
  | idle idle _ => cases idle _ (List.mem_of_getElem? here)
  | notifying active brought place there others told untold =>
      by_cases same : thread = active
      · subst same
        cases there.symm.trans here
        exact ⟨others, told, untold⟩
      · cases others thread _ same here
  | writing active brought there others told =>
      by_cases same : thread = active
      · subst same
        cases there.symm.trans here
      · cases others thread _ same here

theorem serial_writing (listeners : Nat) (initial : Val) (state : Shared Val) (serial : Serial listeners initial state)
    (thread : Nat) (new : Val) (here : state.threads[thread]? = some (.writing new)) :
    OthersIdle state thread ∧
      ∀ listener < listeners, Linked initial (seen state.deliveries listener) new := by
  cases serial with
  | idle idle _ => cases idle _ (List.mem_of_getElem? here)
  | notifying active brought place there others _ _ =>
      by_cases same : thread = active
      · subst same
        cases there.symm.trans here
      · cases others thread _ same here
  | writing active brought there others told =>
      by_cases same : thread = active
      · subst same
        cases there.symm.trans here
        exact ⟨others, told⟩
      · cases others thread _ same here

theorem serial_consistent (listeners : Nat) (initial : Val) (state : Shared Val)
    (serial : Serial listeners initial state) : Consistent listeners initial state := by
  intro listener bound
  refine ⟨?_, fun idle => serial_idle listeners initial state serial idle listener bound⟩
  cases serial with
  | idle _ linked => exact ⟨_, linked listener bound⟩
  | notifying _ new next _ _ told untold =>
      by_cases passed : listener < next
      · exact ⟨_, told listener bound passed⟩
      · exact ⟨_, untold listener bound (Nat.le_of_not_lt passed)⟩
  | writing _ new _ _ told => exact ⟨_, told listener bound⟩

theorem set_thread_here (threads : List (Phase Val)) (thread : Nat) (old new : Phase Val)
    (here : threads[thread]? = some old) : (threads.set thread new)[thread]? = some new := by
  have bound := (List.getElem?_eq_some_iff.mp here).1
  simp [bound]

theorem set_thread_self (threads : List (Phase Val)) (thread : Nat) (phase : Phase Val)
    (here : threads[thread]? = some phase) : threads.set thread phase = threads := by
  obtain ⟨bound, rfl⟩ := List.getElem?_eq_some_iff.mp here
  exact List.set_getElem_self bound

theorem set_thread_others (state : Shared Val) (thread : Nat) (new : Phase Val) (others : OthersIdle state thread) :
    OthersIdle { state with threads := state.threads.set thread new } thread := by
  intro other phase different present
  rw [List.getElem?_set_ne (Ne.symm different)] at present
  exact others other phase different present

theorem start_serial (listeners : Nat) (initial : Val) (threads : Nat) :
    Serial listeners initial (start initial threads) := by
  refine .idle ?_ fun _ _ => rfl
  intro phase member
  exact List.eq_of_mem_replicate member

theorem enter_serial [BEq Val] (listeners : Nat) (initial : Val) (state : Shared Val) (thread : Nat) (new : Val)
    (serial : Serial listeners initial state) (here : state.threads[thread]? = some .idle)
    (undisturbed : ¬ (state.val == new) = true → AllIdle state) :
    Serial listeners initial (enter state thread new) := by
  rw [enter]
  split
  · exact serial
  · rename_i changed
    have idle := undisturbed changed
    have linked := serial_idle listeners initial state serial idle
    have others : OthersIdle state thread := fun _ phase _ present => idle phase (List.mem_of_getElem? present)
    exact .notifying thread new 0 (set_thread_here state.threads thread _ _ here)
      (set_thread_others state thread _ others) (fun _ _ impossible => absurd impossible (Nat.not_lt_zero _))
      (fun listener bound _ => linked listener bound)

theorem deliver_serial (listeners : Nat) (initial : Val) (state : Shared Val) (thread next : Nat) (new : Val)
    (serial : Serial listeners initial state) (here : state.threads[thread]? = some (.notifying new next)) :
    Serial listeners initial { state with
      threads := state.threads.set thread (.notifying new (next + 1))
      deliveries := state.deliveries ++ [(next, state.val, new)] } := by
  obtain ⟨others, told, untold⟩ := serial_notifying listeners initial state serial thread next new here
  refine .notifying thread new (next + 1) (set_thread_here state.threads thread _ _ here)
    (set_thread_others state thread _ others) ?_ ?_
  · intro listener bound passed
    by_cases last : listener = next
    · subst last
      dsimp only
      rw [seen_snoc_own]
      exact linked_snoc initial state.val new _ (untold listener bound (Nat.le_refl _))
    · dsimp only
      rw [seen_snoc_other _ _ _ _ _ last]
      exact told listener bound (by omega)
  · intro listener bound ahead
    dsimp only
    rw [seen_snoc_other _ _ _ _ _ (by omega : listener ≠ next)]
    exact untold listener bound (by omega)

theorem step_serial [BEq Val] (listeners : Nat) (fromStr : String → Except Exception Val) (initial : Val)
    (state : Shared Val) (action : Action Val) (after : Shared Val) (serial : Serial listeners initial state)
    (undisturbed : Undisturbed fromStr state action) (stepped : step listeners fromStr state action = some after) :
    Serial listeners initial after := by
  cases action with
  | setValue thread new =>
      simp only [step] at stepped
      split at stepped
      · rename_i here
        cases stepped
        exact enter_serial listeners initial state thread new serial here
          (fun changed => undisturbed (by simpa [announces] using changed))
      · cases stepped
  | fromString thread text =>
      simp only [step] at stepped
      split at stepped
      · rename_i here
        split at stepped
        · cases stepped
          exact serial
        · rename_i new converted
          cases stepped
          exact enter_serial listeners initial state thread new serial here
            (fun changed => undisturbed (by simpa [announces, converted] using changed))
      · cases stepped
  | deliver thread =>
      simp only [step] at stepped
      split at stepped
      · rename_i new next here
        split at stepped
        · cases stepped
          exact deliver_serial listeners initial state thread next new serial here
        · cases stepped
      · cases stepped
  | leave thread =>
      simp only [step] at stepped
      split at stepped
      · rename_i new next here
        split at stepped
        · cases stepped
        · rename_i finished
          cases stepped
          obtain ⟨others, told, -⟩ := serial_notifying listeners initial state serial thread next new here
          exact .writing thread new (set_thread_here state.threads thread _ _ here)
            (set_thread_others state thread _ others) (fun listener bound => told listener bound (by omega))
      · cases stepped
  | write thread =>
      simp only [step] at stepped
      split at stepped
      · rename_i new here
        split at stepped
        · cases stepped
        · cases stepped
          obtain ⟨others, told⟩ := serial_writing listeners initial state serial thread new here
          refine .idle ?_ told
          intro phase member
          obtain ⟨other, present⟩ := List.getElem?_of_mem member
          by_cases same : other = thread
          · subst same
            exact (Option.some.inj ((set_thread_here state.threads other _ .idle here).symm.trans present)).symm
          · exact set_thread_others state thread _ others other phase same present
      · cases stepped

theorem listeners_consistent [BEq Val] (listeners : Nat) (fromStr : String → Except Exception Val) (initial : Val)
    (threads : Nat) (schedule : List (Action Val)) (final : Shared Val)
    (along : Along (step listeners fromStr) (Undisturbed fromStr) (start initial threads) schedule)
    (completed : run (step listeners fromStr) (start initial threads) schedule = some final) :
    Consistent listeners initial final := by
  apply serial_consistent
  exact Lib.run_invariant (step listeners fromStr) (Undisturbed fromStr) (Serial listeners initial)
    (fun state action after serial guard stepped =>
      step_serial listeners fromStr initial state action after serial guard stepped)
    schedule (start initial threads) final (start_serial listeners initial threads) along completed

end History

section Alone

variable {Val : Type} [BEq Val]

def recorder (listener : Nat) : OnChange Val (List (Nat × Val × Val)) :=
  fun old new deliveries => (deliveries ++ [(listener, old, new)], none)

def recordersFrom (first : Nat) : Nat → List (Nat × OnChange Val (List (Nat × Val × Val)))
  | 0 => []
  | count + 1 => (first, recorder first) :: recordersFrom (first + 1) count

def aloneSchedule (listeners thread : Nat) (new : Val) : List (Action Val) :=
  .setValue thread new :: (List.replicate listeners (.deliver thread) ++ [.leave thread, .write thread])

theorem deliveries_alone (listeners : Nat) (fromStr : String → Except Exception Val) (thread count first : Nat)
    (new : Val) (state : Shared Val) (here : state.threads[thread]? = some (.notifying new first))
    (total : first + count = listeners) :
    run (step listeners fromStr) state (List.replicate count (.deliver thread)) =
      some ⟨state.val, state.threads.set thread (.notifying new listeners),
        (ConfigVar.notify state.val new (recordersFrom first count) state.deliveries).1⟩ := by
  induction count generalizing first state with
  | zero =>
      obtain rfl : first = listeners := by omega
      rw [List.replicate_zero, Lib.run_nil, set_thread_self state.threads thread _ here]
      rfl
  | succ count ih =>
      have bound : first < listeners := by omega
      have next := ih (first + 1)
        { state with
          threads := state.threads.set thread (.notifying new (first + 1))
          deliveries := state.deliveries ++ [(first, state.val, new)] }
        (set_thread_here state.threads thread _ _ here) (by omega)
      rw [List.replicate_succ, Lib.run_cons]
      simp only [step, here, if_pos bound, Option.bind_some, next, List.set_set]
      rfl

omit [BEq Val] in
theorem recorders_quiet (first count : Nat) :
    ∀ entry ∈ (recordersFrom first count : List (Nat × OnChange Val (List (Nat × Val × Val)))),
      ∀ old new deliveries, (entry.2 old new deliveries).2 = none := by
  induction count generalizing first with
  | zero => simp [recordersFrom]
  | succ count ih =>
      intro entry member
      rcases List.mem_cons.mp member with same | later
      · subst same
        exact fun _ _ _ => rfl
      · exact ih (first + 1) entry later

theorem alone_refines_set_value (listeners : Nat) (fromStr : String → Except Exception Val) (thread : Nat) (new : Val)
    (state : Shared Val) (var : ConfigVar Val (List (Nat × Val × Val))) (idle : AllIdle state)
    (bound : thread < state.threads.length) (same : var.val = state.val)
    (recording : var.cbs.toList = recordersFrom 0 listeners) (changed : ¬ (state.val == new) = true) :
    run (step listeners fromStr) state (aloneSchedule listeners thread new) =
      some ⟨(var.setValue new state.deliveries).1.val, state.threads, (var.setValue new state.deliveries).2.1⟩ := by
  have here : state.threads[thread]? = some .idle := by
    rw [List.getElem?_eq_getElem bound, idle _ (List.getElem_mem bound)]
  let entered : Shared Val := { state with threads := state.threads.set thread (.notifying new 0) }
  let told := (ConfigVar.notify state.val new (recordersFrom 0 listeners) state.deliveries).1
  have first : step listeners fromStr state (.setValue thread new) = some entered := by
    simp only [step, here, enter, if_neg changed, entered]
  have notified := deliveries_alone listeners fromStr thread listeners 0 new entered
    (set_thread_here state.threads thread _ _ here) (Nat.zero_add listeners)
  have silent := ConfigVar.notify_quiet state.val new (recordersFrom 0 listeners) state.deliveries
    (recorders_quiet 0 listeners)
  have returned : ConfigVar.notify state.val new (recordersFrom 0 listeners) state.deliveries = (told, none) :=
    Prod.ext rfl silent
  have sequential : var.setValue new state.deliveries = ({ var with val := new }, told, none) := by
    rw [ConfigVar.setValue, same, if_neg changed, recording, returned]
  have noReader : ∀ phase ∈ state.threads.set thread (.writing new), phase.reads = false := by
    intro phase member
    rcases List.mem_or_eq_of_mem_set member with before | written
    · rw [idle phase before]
      rfl
    · rw [written]
      rfl
  rw [aloneSchedule, Lib.run_cons, first, Option.bind_some, Lib.run_append_some _ _ _ _ _ notified, sequential]
  simpa [entered, Lib.run_cons, step, List.set_set, bound, set_thread_self state.threads thread .idle here, told] using noReader

end Alone

-- Two threads, one after the other, and then the second between the read
-- section and the write section of the first.
def oneAfterTheOther : List (Action Nat) :=
  [.setValue 0 1, .deliver 0, .leave 0, .write 0, .setValue 1 2, .deliver 1, .leave 1, .write 1]

def oneInsideTheOther : List (Action Nat) :=
  [.setValue 0 1, .deliver 0, .leave 0, .setValue 1 2, .deliver 1, .leave 1, .write 0, .write 1]

def noNumber (_ : String) : Except Exception Nat := .error "bad lexical cast"

theorem listeners_consistent_in_turn : Consistent 1 0 (⟨2, [.idle, .idle], [(0, 0, 1), (0, 1, 2)]⟩ : Shared Nat) :=
  listeners_consistent 1 noNumber 0 2 oneAfterTheOther _ (by decide) (by decide)

theorem overlapping_calls_break_chain :
    ¬ ∀ (schedule : List (Action Nat)) (final : Shared Nat),
      run (step 1 noNumber) (start 0 2) schedule = some final → Consistent 1 0 final := by
  intro claimed
  have consistent := claimed oneInsideTheOther ⟨2, [.idle, .idle], [(0, 0, 1), (0, 0, 2)]⟩ (by decide)
  obtain ⟨-, second, -⟩ := (consistent 0 (by decide)).2 (by decide)
  exact absurd second (by decide)

end Sylar.Config.SetValueRace
