import Mathlib.Logic.Function.Basic
import Sylar.Lib.Runs
import Sylar.Log.ManagerInvariant

set_option autoImplicit false

namespace Sylar.Log.GetLoggerRace

open Function (update)
open Lib (Address Heap Along run)

-- Where a thread stands in LoggerManager::getLogger: its lookup has found
-- nothing, and it is about to put a new logger into the map.
inductive Phase where
  | idle
  | creating (name : String)
deriving DecidableEq, Repr

-- The calls that have returned are kept with their names and what they returned.
structure Shared (Formatter : Type) where
  manager : LoggerManager Formatter
  phases : Nat → Phase
  returned : List (String × Address)

inductive Action where
  | find (thread : Nat) (name : String)
  | insert (thread : Nat)
deriving DecidableEq, Repr

section Race

variable {Formatter : Type} (default : Formatter)

def start (manager : LoggerManager Formatter) : Shared Formatter := ⟨manager, fun _ => .idle, []⟩

-- The end of getLogger: m_loggers[name] = logger.
def insertLogger (manager : LoggerManager Formatter) (name : String) : LoggerManager Formatter × Address :=
  let logger := manager.objects.size
  ({ manager with
      objects := manager.objects.alloc { Logger.new default name with root := some manager.root }
      loggers := manager.loggers.insert name logger }, logger)

def step (state : Shared Formatter) : Action → Option (Shared Formatter)
  | .find thread name =>
      match state.phases thread with
      | .creating _ => none
      | .idle =>
          match state.manager.loggers[name]? with
          | some logger => some { state with returned := state.returned ++ [(name, logger)] }
          | none => some { state with phases := update state.phases thread (.creating name) }
  | .insert thread =>
      match state.phases thread with
      | .idle => none
      | .creating name =>
          let (manager, logger) := insertLogger default state.manager name
          some ⟨manager, update state.phases thread .idle, state.returned ++ [(name, logger)]⟩

def OneLogger (state : Shared Formatter) : Prop :=
  ∀ name first second, (name, first) ∈ state.returned → (name, second) ∈ state.returned →
    first = second ∧ state.manager.loggers[name]? = some first

def AllIdle (state : Shared Formatter) : Prop := ∀ thread, state.phases thread = .idle

-- Nobody looks a name up in vain while another call is about to add that name.
def Unhurried (state : Shared Formatter) : Action → Prop
  | .find _ name => state.manager.loggers[name]? = none → ∀ other, state.phases other ≠ .creating name
  | .insert _ => True

structure Sound (state : Shared Formatter) : Prop where
  stored : ∀ name logger, (name, logger) ∈ state.returned → state.manager.loggers[name]? = some logger
  single : ∀ first second name, state.phases first = .creating name → state.phases second = .creating name → first = second
  absent : ∀ thread name, state.phases thread = .creating name → state.manager.loggers[name]? = none

-- Two calls for one name end with two objects, or are bound to.
inductive Divided (state : Shared Formatter) (name : String) : Prop where
  | both (first second : Nat) (different : first ≠ second) (one : state.phases first = .creating name)
      (two : state.phases second = .creating name)
  | late (thread : Nat) (logger : Address) (creating : state.phases thread = .creating name)
      (already : (name, logger) ∈ state.returned)
  | objects (first second : Address) (different : first ≠ second) (one : (name, first) ∈ state.returned)
      (two : (name, second) ∈ state.returned)

def Bounded (state : Shared Formatter) : Prop :=
  (∀ (name : String) (logger : Address), state.manager.loggers[name]? = some logger → logger < state.manager.objects.size) ∧
    ∀ entry ∈ state.returned, entry.2 < state.manager.objects.size

section Steps

variable (state next : Shared Formatter) (action : Action)

theorem step_cases (stepped : step default state action = some next) :
    (∃ thread name logger, action = .find thread name ∧ state.manager.loggers[name]? = some logger ∧
      next = { state with returned := state.returned ++ [(name, logger)] }) ∨
    (∃ thread name, action = .find thread name ∧ state.phases thread = .idle ∧ state.manager.loggers[name]? = none ∧
      next = { state with phases := update state.phases thread (.creating name) }) ∨
    (∃ thread name, action = .insert thread ∧ state.phases thread = .creating name ∧
      next = ⟨(insertLogger default state.manager name).1, update state.phases thread .idle,
        state.returned ++ [(name, state.manager.objects.size)]⟩) := by
  cases action with
  | find thread name =>
      simp only [step] at stepped
      split at stepped
      · cases stepped
      · rename_i idle
        split at stepped
        · rename_i logger found
          cases stepped
          exact .inl ⟨thread, name, logger, rfl, found, rfl⟩
        · rename_i missing
          cases stepped
          exact .inr (.inl ⟨thread, name, rfl, idle, missing, rfl⟩)
  | insert thread =>
      simp only [step] at stepped
      split at stepped
      · cases stepped
      · rename_i name creating
        cases stepped
        exact .inr (.inr ⟨thread, name, rfl, creating, rfl⟩)

theorem insert_loggers (manager : LoggerManager Formatter) (name other : String) :
    (insertLogger default manager name).1.loggers[other]? =
      if name = other then some manager.objects.size else manager.loggers[other]? := by
  simp [insertLogger, Std.TreeMap.getElem?_insert]

theorem insert_size (manager : LoggerManager Formatter) (name : String) :
    (insertLogger default manager name).1.objects.size = manager.objects.size + 1 := by
  simp [insertLogger]

theorem start_bounded (manager : LoggerManager Formatter) (wellFormed : manager.WellFormed) : Bounded (start manager) := by
  refine ⟨fun name logger present => ?_, fun entry member => by cases member⟩
  obtain ⟨object, stored⟩ := wellFormed.named name logger present
  exact Heap.read_bound manager.objects logger object stored

theorem step_bounded (bounded : Bounded state) (stepped : step default state action = some next) : Bounded next := by
  obtain ⟨loggers, returned⟩ := bounded
  rcases step_cases default state next action stepped with
    ⟨thread, name, logger, -, found, rfl⟩ | ⟨thread, name, -, -, -, rfl⟩ | ⟨thread, name, -, -, rfl⟩
  · refine ⟨loggers, fun entry member => ?_⟩
    rcases List.mem_append.mp member with old | new
    · exact returned entry old
    · rw [List.mem_singleton.mp new]
      exact loggers name logger found
  · exact ⟨loggers, returned⟩
  · refine ⟨fun other logger present => ?_, fun entry member => ?_⟩
    · rw [insert_loggers] at present
      rw [insert_size]
      split at present
      · cases present
        exact Nat.lt_succ_self _
      · exact Nat.lt_succ_of_lt (loggers other logger present)
    · rw [insert_size]
      rcases List.mem_append.mp member with old | new
      · exact Nat.lt_succ_of_lt (returned entry old)
      · rw [List.mem_singleton.mp new]
        exact Nat.lt_succ_self _

theorem update_creating (thread who : Nat) (phase : Phase) (name : String)
    (creating : update state.phases thread phase who = .creating name) :
    (who = thread ∧ phase = .creating name) ∨ (who ≠ thread ∧ state.phases who = .creating name) := by
  by_cases same : who = thread
  · subst same
    exact .inl ⟨rfl, by simpa using creating⟩
  · exact .inr ⟨same, by simpa [same] using creating⟩

theorem step_sound (sound : Sound state) (unhurried : Unhurried state action) (stepped : step default state action = some next) :
    Sound next := by
  rcases step_cases default state next action stepped with
    ⟨thread, name, logger, rfl, found, rfl⟩ | ⟨thread, name, rfl, idle, missing, rfl⟩ | ⟨thread, name, rfl, creating, rfl⟩
  · refine ⟨fun other pointer member => ?_, sound.single, sound.absent⟩
    rcases List.mem_append.mp member with old | new
    · exact sound.stored other pointer old
    · cases List.mem_singleton.mp new
      exact found
  · refine ⟨sound.stored, fun first second other one two => ?_, fun who other creating => ?_⟩
    · rcases update_creating state thread first _ other one with ⟨rfl, same⟩ | ⟨-, before⟩
      · cases same
        rcases update_creating state first second _ name two with ⟨rfl, -⟩ | ⟨-, earlier⟩
        · rfl
        · exact absurd earlier (unhurried missing second)
      · rcases update_creating state thread second _ other two with ⟨rfl, same⟩ | ⟨-, earlier⟩
        · cases same
          exact absurd before (unhurried missing first)
        · exact sound.single first second other before earlier
    · rcases update_creating state thread who _ other creating with ⟨-, same⟩ | ⟨-, before⟩
      · cases same
        exact missing
      · exact sound.absent who other before
  · have unreturned : ∀ pointer, (name, pointer) ∉ state.returned := by
      intro pointer member
      have stored := sound.stored name pointer member
      rw [sound.absent thread name creating] at stored
      cases stored
    refine ⟨fun other pointer member => ?_, fun first second other one two => ?_, fun who other waits => ?_⟩
    · rw [insert_loggers]
      rcases List.mem_append.mp member with old | new
      · have different : name ≠ other := by
          rintro rfl
          exact unreturned pointer old
        rw [if_neg different]
        exact sound.stored other pointer old
      · cases List.mem_singleton.mp new
        exact if_pos rfl
    · obtain ⟨-, nothing⟩ | ⟨-, before⟩ := update_creating state thread first _ other one
      · cases nothing
      · obtain ⟨-, nothing⟩ | ⟨-, earlier⟩ := update_creating state thread second _ other two
        · cases nothing
        · exact sound.single first second other before earlier
    · obtain ⟨-, nothing⟩ | ⟨away, before⟩ := update_creating state thread who _ other waits
      · cases nothing
      · have different : name ≠ other := by
          rintro rfl
          exact away (sound.single who thread name before creating)
        rw [insert_loggers, if_neg different]
        exact sound.absent who other before

theorem step_divided (bounded : Bounded state) (name : String) (divided : Divided state name)
    (stepped : step default state action = some next) : Divided next name := by
  have grows (pointer : Address) (entry : String × Address) (member : (name, pointer) ∈ state.returned) :
      (name, pointer) ∈ state.returned ++ [entry] := List.mem_append_left _ member
  rcases step_cases default state next action stepped with
    ⟨thread, other, logger, rfl, found, rfl⟩ | ⟨thread, other, rfl, idle, missing, rfl⟩ | ⟨thread, other, rfl, creating, rfl⟩
  · cases divided with
    | both first second different one two => exact .both first second different one two
    | late who pointer waits already => exact .late who pointer waits (grows pointer _ already)
    | objects first second different one two => exact .objects first second different (grows first _ one) (grows second _ two)
  · have still (who : Nat) (waits : state.phases who = .creating name) :
        update state.phases thread (.creating other) who = .creating name := by
      have away : who ≠ thread := by
        rintro rfl
        rw [idle] at waits
        cases waits
      rw [Function.update_of_ne away, waits]
    cases divided with
    | both first second different one two => exact .both first second different (still first one) (still second two)
    | late who pointer waits already => exact .late who pointer (still who waits) already
    | objects first second different one two => exact .objects first second different one two
  · have fresh (pointer : Address) (member : (name, pointer) ∈ state.returned) : pointer ≠ state.manager.objects.size :=
      Nat.ne_of_lt (bounded.2 _ member)
    have own (who : Nat) (mine : who = thread) (waits : state.phases who = .creating name) : other = name := by
      rw [mine, creating] at waits
      exact Phase.creating.inj waits
    have still (who : Nat) (away : who ≠ thread) (waits : state.phases who = .creating name) :
        update state.phases thread .idle who = .creating name := by rw [Function.update_of_ne away, waits]
    have added (same : other = name) :
        (name, state.manager.objects.size) ∈ state.returned ++ [(other, state.manager.objects.size)] := by
      rw [same]
      exact List.mem_append_right _ List.mem_cons_self
    cases divided with
    | both first second different one two =>
        by_cases firstMine : first = thread
        · have away : second ≠ thread := fun same => different (firstMine.trans same.symm)
          exact .late second _ (still second away two) (added (own first firstMine one))
        · by_cases secondMine : second = thread
          · exact .late first _ (still first firstMine one) (added (own second secondMine two))
          · exact .both first second different (still first firstMine one) (still second secondMine two)
    | late who pointer waits already =>
        by_cases mine : who = thread
        · exact .objects pointer _ (fresh pointer already) (grows pointer _ already) (added (own who mine waits))
        · exact .late who pointer (still who mine waits) (grows pointer _ already)
    | objects first second different one two => exact .objects first second different (grows first _ one) (grows second _ two)

theorem hurried_divides (hurried : ¬ Unhurried state action) (stepped : step default state action = some next) :
    ∃ name, Divided next name := by
  rcases step_cases default state next action stepped with
    ⟨thread, name, logger, rfl, found, rfl⟩ | ⟨thread, name, rfl, idle, missing, rfl⟩ | ⟨thread, name, rfl, creating, rfl⟩
  · rw [Unhurried, found] at hurried
    exact absurd (fun nothing => by cases nothing) hurried
  · simp only [Unhurried, missing, forall_const, not_forall, not_not] at hurried
    obtain ⟨other, waits⟩ := hurried
    have away : other ≠ thread := by
      rintro rfl
      rw [idle] at waits
      cases waits
    have still : update state.phases thread (.creating name) other = .creating name := by
      rw [Function.update_of_ne away, waits]
    exact ⟨name, .both other thread away still (Function.update_self _ _ _)⟩
  · exact absurd trivial hurried

theorem divided_not_one (name : String) (divided : Divided state name) (idle : AllIdle state) : ¬ OneLogger state := by
  intro one
  cases divided with
  | both first second different waits =>
      rw [idle first] at waits
      cases waits
  | late thread pointer waits =>
      rw [idle thread] at waits
      cases waits
  | objects first second different inFirst inSecond => exact different (one name first second inFirst inSecond).1

end Steps

theorem run_divided (schedule : List Action) (state final : Shared Formatter) (name : String) (bounded : Bounded state)
    (divided : Divided state name) (completed : run (step default) state schedule = some final) : Divided final name :=
  (Lib.run_invariant (step default) (fun _ _ => True) (fun reached => Bounded reached ∧ Divided reached name)
    (fun state action next holds _ stepped => ⟨step_bounded default state next action holds.1 stepped,
      step_divided default state next action holds.1 name holds.2 stepped⟩)
    schedule state final ⟨bounded, divided⟩ (Lib.along_true _ _ _) completed).2

theorem one_logger_unhurried (schedule : List Action) (state final : Shared Formatter) (bounded : Bounded state)
    (completed : run (step default) state schedule = some final) (idle : AllIdle final) (one : OneLogger final) :
    Along (step default) Unhurried state schedule := by
  induction schedule generalizing state with
  | nil => trivial
  | cons action rest ih =>
      obtain ⟨next, stepped, remaining⟩ := Lib.run_cons_some _ state final action rest completed
      have boundedNext := step_bounded default state next action bounded stepped
      refine ⟨?_, ?_⟩
      · by_contra hurried
        obtain ⟨name, divided⟩ := hurried_divides default state next action hurried stepped
        exact divided_not_one final name (run_divided default rest next final name boundedNext divided remaining) idle one
      · rw [stepped]
        exact ih next boundedNext remaining

theorem one_logger_iff (manager : LoggerManager Formatter) (wellFormed : manager.WellFormed) (schedule : List Action)
    (final : Shared Formatter) (completed : run (step default) (start manager) schedule = some final) :
    (Along (step default) Unhurried (start manager) schedule → OneLogger final) ∧
      (AllIdle final → OneLogger final → Along (step default) Unhurried (start manager) schedule) := by
  constructor
  · intro along
    have sound := Lib.run_invariant (step default) Unhurried Sound
      (fun state action next sound unhurried stepped => step_sound default state next action sound unhurried stepped)
      schedule (start manager) final ⟨by simp [start], by simp [start], by simp [start]⟩ along completed
    intro name first second inFirst inSecond
    have storedFirst := sound.stored name first inFirst
    exact ⟨Option.some.inj (storedFirst.symm.trans (sound.stored name second inSecond)), storedFirst⟩
  · exact one_logger_unhurried default schedule (start manager) final (start_bounded manager wellFormed) completed

theorem alone_refines_get_logger (state : Shared Formatter) (thread : Nat) (name : String)
    (idle : state.phases thread = .idle) :
    ∃ final, (run (step default) state [.find thread name] = some final ∨
        run (step default) state [.find thread name, .insert thread] = some final) ∧
      final.manager = (state.manager.getLogger default name).1 ∧ final.phases = state.phases ∧
      final.returned = state.returned ++ [(name, (state.manager.getLogger default name).2)] := by
  cases present : state.manager.loggers[name]? with
  | some logger =>
      refine ⟨{ state with returned := state.returned ++ [(name, logger)] }, .inl ?_, ?_, rfl, ?_⟩
      · simp [Lib.run_cons, step, idle, present]
      · simp [LoggerManager.getLogger, present]
      · simp [LoggerManager.getLogger, present]
  | none =>
      refine ⟨⟨(insertLogger default state.manager name).1, state.phases,
        state.returned ++ [(name, state.manager.objects.size)]⟩, .inr ?_, ?_, rfl, ?_⟩
      · have unchanged : update state.phases thread .idle = state.phases := by rw [← idle, Function.update_eq_self]
        simp [Lib.run_cons, step, idle, present, insertLogger, unchanged]
      · simp [LoggerManager.getLogger, present, insertLogger]
      · simp [LoggerManager.getLogger, present]

end Race

def inTurn : List Action := [.find 0 "system", .insert 0, .find 1 "system"]

def atOnce : List Action := [.find 0 "system", .find 1 "system", .insert 0, .insert 1]

theorem one_logger_iff_in_turn :
    ∃ final, run (step 0) (start (LoggerManager.new 0)) inTurn = some final ∧ OneLogger final := by
  have first : (LoggerManager.new 0).loggers["system"]? = none := by rw [LoggerManager.new_loggers]; rfl
  have second : (insertLogger 0 (LoggerManager.new 0) "system").1.loggers["system"]? =
      some (LoggerManager.new 0).objects.size := by
    rw [insert_loggers]
    rfl
  obtain ⟨final, completed⟩ : ∃ final, run (step 0) (start (LoggerManager.new 0)) inTurn = some final := by
    simp [inTurn, Lib.run_cons, step, start, first, second]
  refine ⟨final, completed, (one_logger_iff 0 _ (LoggerManager.new_well_formed 0) inTurn final completed).1 ?_⟩
  simp [inTurn, Along, Unhurried, step, start, first, second]

theorem two_loggers_at_once :
    ¬ ∀ (schedule : List Action) (final : Shared Nat),
      run (step 0) (start (LoggerManager.new 0)) schedule = some final → OneLogger final := by
  intro claimed
  have missing : (LoggerManager.new 0).loggers["system"]? = none := by rw [LoggerManager.new_loggers]; rfl
  have completed : ∃ final, run (step 0) (start (LoggerManager.new 0)) atOnce = some final ∧
      final.returned = [("system", 1), ("system", 2)] := by
    simp [atOnce, Lib.run_cons, step, start, missing]
    exact ⟨rfl, rfl⟩
  obtain ⟨final, reached, returned⟩ := completed
  have one := claimed atOnce final reached "system" 1 2 (by simp [returned]) (by simp [returned])
  exact absurd one.1 (by decide)

end Sylar.Log.GetLoggerRace
