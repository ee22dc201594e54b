import Sylar.Config.ConfigVarStatements

set_option autoImplicit false

namespace Sylar.Config.ConfigVarStatements

open Function (update)
open Lib (Fine run)
open Lib.Sections (Undisturbed fineStep settled wholeStep)
open Yaml (Exception)

section History

variable {Val : Type} [BEq Val] {toStr : Val → Except Exception String} (memory : Memory Val toStr)
variable (fromStr : String → Except Exception Val)

def Asked (calls : List (Call Val)) (new : Val) : Prop :=
  .setValue new ∈ calls ∨ ∃ text, .fromString text ∈ calls ∧ fromStr text = .ok new

def Event.changes : Event Val → Bool
  | .wrote _ | .added _ | .removed _ | .cleared => true
  | _ => false

-- The later of two events is not about an earlier state, and a change is about one of its own.
def Follows (before after : Nat × Event Val) : Prop :=
  before.1 ≤ after.1 ∧ (after.2.changes = true → before.1 < after.1)

-- One change at a time: of the value or of the listeners.
def Consecutive (history : List (Val × List Nat)) : Prop :=
  ∀ (place : Nat) (first second : Val × List Nat), history[place]? = some first → history[place + 1]? = some second →
    first.1 = second.1 ∨ first.2 = second.2

section Steps

variable (initial : Initial Val) (verdicts : Nat → Nat → Bool) (programs : Nat → List (Call Val))
  (state next : Calling memory) (thread : Nat)

-- What a step can be: the variable after it, and the phase, calls and new events of its thread.
inductive Advances : Guarded Val → Phase Val → List (Call Val) → List (Event Val) → Prop where
  | converted (text : String) (rest : List (Call Val)) (idle : (state.locals thread).phase = .idle)
      (calls : (state.locals thread).calls = .fromString text :: rest) :
      Advances (state.data ()) .idle (fromString fromStr text rest) []
  | shown (rest : List (Call Val)) (idle : (state.locals thread).phase = .idle)
      (calls : (state.locals thread).calls = .toString :: rest) :
      Advances (state.data ()) .idle rest [.shown (caught (toStr (state.data ()).val))]
  | equal (new : Val) (rest : List (Call Val)) (idle : (state.locals thread).phase = .idle)
      (calls : (state.locals thread).calls = .setValue new :: rest) (equal : ((state.data ()).val == new) = true) :
      Advances (state.data ()) .idle rest [.equal new]
  | notified (new : Val) (rest : List (Call Val)) (idle : (state.locals thread).phase = .idle)
      (calls : (state.locals thread).calls = .setValue new :: rest) (differs : ((state.data ()).val == new) = false) :
      Advances (state.data ()) (.writing new) rest
        [.notified new ((state.data ()).cbs.map fun listener => (listener, (state.data ()).val))]
  | refused (new : Val) (rest : List (Call Val)) (told : List (Nat × Val)) (idle : (state.locals thread).phase = .idle)
      (calls : (state.locals thread).calls = .setValue new :: rest) (differs : ((state.data ()).val == new) = false)
      (throws : ∃ count, (state.locals thread).verdicts count = true) (some : told ≠ [])
      (first : told <+: (state.data ()).cbs.map fun listener => (listener, (state.data ()).val)) :
      Advances (state.data ()) .idle rest [.refused new told]
  | wrote (new : Val) (writing : (state.locals thread).phase = .writing new) :
      Advances { state.data () with val := new }.recorded .idle (state.locals thread).calls [.wrote new]
  | added (rest : List (Call Val)) (idle : (state.locals thread).phase = .idle)
      (calls : (state.locals thread).calls = .addListener :: rest) :
      Advances (added (state.data ())).recorded .idle rest [.added (added (state.data ())).funId]
  | removed (key : Nat) (rest : List (Call Val)) (idle : (state.locals thread).phase = .idle)
      (calls : (state.locals thread).calls = .delListenner key :: rest) :
      Advances { state.data () with cbs := (state.data ()).cbs.erase key }.recorded .idle rest [.removed key]
  | cleared (rest : List (Call Val)) (idle : (state.locals thread).phase = .idle)
      (calls : (state.locals thread).calls = .clearListener :: rest) :
      Advances { state.data () with cbs := [] }.recorded .idle rest [.cleared]

omit [BEq Val] in
theorem recorded_place (data : Guarded Val) : data.recorded.place = data.history.length := by
  simp [Guarded.recorded, Guarded.place]

theorem step_cases (stepped : wholeStep (moves memory fromStr) state thread = some next) :
    ∃ data phase calls events own, Advances memory fromStr state thread data phase calls events ∧
      Goes memory (state.locals thread) own phase calls (events.map fun event => (data.place, event)) ∧
      next = ⟨(), fun _ => data, update state.locals thread own⟩ := by
  have only (data : Guarded Val) : update state.data () data = fun _ => data := by
    funext lock
    simp
  rw [wholeStep, moves] at stepped
  cases phase : (state.locals thread).phase with
  | idle =>
      cases calls : (state.locals thread).calls with
      | nil => simp [phase, calls] at stepped
      | cons call rest =>
          cases call with
          | setValue new =>
              obtain ⟨after, executed, goes⟩ := compare_then_notify_execute memory new rest (state.data ()) (state.locals thread)
              simp only [phase, calls, executed, only, Option.map_some, Option.some.injEq] at stepped
              subst stepped
              cases equal : (state.data ()).val == new with
              | true =>
                  rw [equal, if_pos rfl, phase] at goes
                  exact ⟨_, _, _, _, _, .equal new rest phase calls equal, goes, rfl⟩
              | false =>
                  rw [equal, if_neg Bool.false_ne_true] at goes
                  cases threw : (tell (state.locals thread).verdicts (state.data ()).val (state.locals thread).callbacks
                      (state.data ()).cbs).2 with
                  | true =>
                      rw [if_pos threw, phase] at goes
                      obtain ⟨some, throws⟩ := tell_throws _ _ _ _ threw
                      exact ⟨_, _, _, _, _, .refused new rest _ phase calls equal throws some (tell_initial _ _ _ _), goes, rfl⟩
                  | false =>
                      rw [if_neg (by simp [threw])] at goes
                      exact ⟨_, _, _, _, _, .notified new rest phase calls equal, goes, rfl⟩
          | fromString text =>
              simp only [phase, calls, Option.map_some, Option.some.injEq] at stepped
              subst stepped
              exact ⟨_, _, _, _, { state.locals thread with phase := .idle, calls := fromString fromStr text rest },
                .converted text rest phase calls, ⟨rfl, rfl, rfl, by simp⟩, rfl⟩
          | toString =>
              obtain ⟨after, executed, goes⟩ := print_execute memory rest (state.data ()) (state.locals thread)
              simp only [phase, calls, executed, only, Option.map_some, Option.some.injEq] at stepped
              subst stepped
              rw [phase] at goes
              exact ⟨_, _, _, _, _, .shown rest phase calls, goes, rfl⟩
          | addListener =>
              obtain ⟨after, executed, goes⟩ := add_listener_execute memory rest (state.data ()) (state.locals thread)
              simp only [phase, calls, executed, only, Option.map_some, Option.some.injEq] at stepped
              subst stepped
              exact ⟨_, _, _, _, _, .added rest phase calls, by rwa [recorded_place], rfl⟩
          | delListenner key =>
              obtain ⟨after, executed, goes⟩ := del_listenner_execute memory key rest (state.data ()) (state.locals thread)
              simp only [phase, calls, executed, only, Option.map_some, Option.some.injEq] at stepped
              subst stepped
              exact ⟨_, _, _, _, _, .removed key rest phase calls, by rwa [recorded_place], rfl⟩
          | clearListener =>
              obtain ⟨after, executed, goes⟩ := clear_listener_execute memory rest (state.data ()) (state.locals thread)
              simp only [phase, calls, executed, only, Option.map_some, Option.some.injEq] at stepped
              subst stepped
              exact ⟨_, _, _, _, _, .cleared rest phase calls, by rwa [recorded_place], rfl⟩
  | writing new =>
      obtain ⟨after, executed, goes⟩ :=
        write_execute memory new (state.locals thread).calls (state.data ()) (state.locals thread)
      simp only [phase, executed, only, Option.map_some, Option.some.injEq] at stepped
      subst stepped
      exact ⟨_, _, _, _, _, .wrote new phase, by rwa [recorded_place], rfl⟩

structure Sound (data : Guarded Val) : Prop where
  first : data.history.head? = some (initial.val, initial.cbs)
  last : data.history.getLast? = some (data.val, data.cbs)
  keys : data.cbs.Nodup
  values : ∀ past ∈ data.history, past.1 = initial.val ∨ ∃ thread, Asked fromStr (programs thread) past.1
  consecutive : Consecutive data.history

section Advance

variable (data : Guarded Val) (phase : Phase Val) (calls : List (Call Val)) (events : List (Event Val))

end Advance

-- A listener that writes down what it is called with as the old value, and
-- throws where the verdict on the call says so.
def recorder (verdicts : Nat → Bool) (callbacks key : Nat) : OnChange Val (List (Nat × Val)) :=
  fun old _ told => (told ++ [(key, old)], if verdicts (callbacks + told.length) then some "refused" else none)

omit [BEq Val] in
theorem notify_recorder (verdicts : Nat → Bool) (callbacks : Nat) (old new : Val) (keys : List Nat) (told : List (Nat × Val)) :
    ConfigVar.notify old new (keys.map fun key => (key, recorder verdicts callbacks key)) told =
      (told ++ (tell verdicts old (callbacks + told.length) keys).1,
        if (tell verdicts old (callbacks + told.length) keys).2 then some "refused" else none) := by
  induction keys generalizing told with
  | nil => simp [ConfigVar.notify, tell]
  | cons key rest ih =>
      cases throws : verdicts (callbacks + told.length) with
      | true => simp [ConfigVar.notify, recorder, tell, throws]
      | false =>
          have later := ih (told ++ [(key, old)])
          simp only [List.length_append, List.length_singleton] at later
          simp [ConfigVar.notify, recorder, tell, throws, later, Nat.add_assoc]

theorem set_value_steps (new : Val) (rest : List (Call Val)) (idle : (state.locals thread).phase = .idle)
    (calls : (state.locals thread).calls = .setValue new :: rest) :
    ∃ after, wholeStep (moves memory fromStr) state thread =
        some { state with data := update state.data () (state.data ()), locals := update state.locals thread after } ∧
      if (state.data ()).val == new then
        Goes memory (state.locals thread) after .idle rest [((state.data ()).place, .equal new)]
      else if (tell (state.locals thread).verdicts (state.data ()).val (state.locals thread).callbacks (state.data ()).cbs).2 then
        Goes memory (state.locals thread) after .idle rest [((state.data ()).place, .refused new
          (tell (state.locals thread).verdicts (state.data ()).val (state.locals thread).callbacks (state.data ()).cbs).1)]
      else Goes memory (state.locals thread) after (.writing new) rest
        [((state.data ()).place, .notified new ((state.data ()).cbs.map fun listener => (listener, (state.data ()).val)))] := by
  obtain ⟨after, executed, goes⟩ := compare_then_notify_execute memory new rest (state.data ()) (state.locals thread)
  rw [idle] at goes
  refine ⟨after, ?_, goes⟩
  rw [wholeStep, moves]
  simp only [idle, calls, executed, Option.map_some]

theorem write_steps (new : Val) (writing : (state.locals thread).phase = .writing new) :
    ∃ after, wholeStep (moves memory fromStr) state thread = some { state with
        data := update state.data () { state.data () with val := new }.recorded
        locals := update state.locals thread after } ∧
      Goes memory (state.locals thread) after .idle (state.locals thread).calls [((state.data ()).history.length, .wrote new)] := by
  obtain ⟨after, executed, goes⟩ :=
    write_execute memory new (state.locals thread).calls (state.data ()) (state.locals thread)
  refine ⟨after, ?_, goes⟩
  rw [wholeStep, moves]
  simp only [writing, executed, Option.map_some]

-- A thread that no other interrupts does what setValue does on one thread: the
-- same value, the same listeners told, and the same exception.
theorem alone_refines_set_value (var : ConfigVar Val (List (Nat × Val))) (new : Val) (rest : List (Call Val))
    (idle : (state.locals thread).phase = .idle) (calls : (state.locals thread).calls = .setValue new :: rest)
    (val : (state.data ()).val = var.val)
    (cbs : var.cbs.toList = (state.data ()).cbs.map fun key =>
      (key, recorder (state.locals thread).verdicts (state.locals thread).callbacks key)) :
    ∃ count final, run (wholeStep (moves memory fromStr)) state (List.replicate count thread) = some final ∧
      (final.data ()).val = (var.setValue new []).1.val ∧ (final.locals thread).phase = .idle ∧
      (final.locals thread).calls = rest ∧
      ∀ told, (var.setValue new []).2.1 = told → told ≠ [] → ((state.data ()).place,
        if (var.setValue new []).2.2 = none then .notified new told else .refused new told) ∈ (final.locals thread).events := by
  have called := notify_recorder (state.locals thread).verdicts (state.locals thread).callbacks var.val new (state.data ()).cbs []
  rw [← cbs, List.length_nil, Nat.add_zero, List.nil_append] at called
  obtain ⟨entered, first, goes⟩ := set_value_steps memory fromStr state thread new rest idle calls
  rw [val] at goes
  cases equal : var.val == new with
  | true =>
      rw [equal, if_pos rfl] at goes
      refine ⟨1, _, by rw [List.replicate_one, Lib.run_cons, first]; rfl, ?_, ?_, ?_, ?_⟩
      · simp [ConfigVar.setValue, equal, val]
      · simp [goes.phase]
      · simp [goes.calls]
      · intro told result filled
        have none : told = [] := by simpa [ConfigVar.setValue, equal] using result
        exact absurd none filled
  | false =>
      rw [equal, if_neg Bool.false_ne_true] at goes
      cases threw : (tell (state.locals thread).verdicts var.val (state.locals thread).callbacks (state.data ()).cbs).2 with
      | true =>
          rw [if_pos threw] at goes
          rw [if_pos threw] at called
          have set : var.setValue new [] = (var, (tell (state.locals thread).verdicts var.val (state.locals thread).callbacks
              (state.data ()).cbs).1, some "refused") := by
            simp [ConfigVar.setValue, equal, called]
          refine ⟨1, _, by rw [List.replicate_one, Lib.run_cons, first]; rfl, ?_, ?_, ?_, ?_⟩
          · simp [set, val]
          · simp [goes.phase]
          · simp [goes.calls]
          · intro told result _
            rw [set] at result ⊢
            simp [goes.events, ← result]
      | false =>
          rw [if_neg (by simp [threw])] at goes
          rw [if_neg (by simp [threw]), tell_all _ _ _ _ threw] at called
          obtain ⟨written, second, left⟩ := write_steps memory fromStr
            { state with data := update state.data () (state.data ()), locals := update state.locals thread entered } thread new
            (by simp [goes.phase])
          have set : var.setValue new [] =
              ({ var with val := new }, (state.data ()).cbs.map fun key => (key, var.val), none) := by
            simp [ConfigVar.setValue, equal, called]
          refine ⟨2, _, by
            rw [List.replicate_succ, List.replicate_one, Lib.run_cons, first, Option.bind_some, Lib.run_cons, second]
            rfl, ?_, ?_, ?_, ?_⟩
          · simp [set, Guarded.recorded]
          · simp [left.phase]
          · simp [left.calls, goes.calls]
          · intro told result _
            rw [set] at result ⊢
            simp [left.events, goes.events, ← result]

end Steps

end History

end Sylar.Config.ConfigVarStatements
