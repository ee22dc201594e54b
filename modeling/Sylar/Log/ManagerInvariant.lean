import Sylar.Log.Logger

set_option autoImplicit false

namespace Sylar.Log

open Lib (Heap Address)

namespace LoggerManager

variable {Formatter : Type}

def attached (manager : LoggerManager Formatter) (name : String) : List Address :=
  match manager.loggers[name]?.bind manager.objects.read with
  | none => []
  | some object => object.appenders

-- Every pointer held by the manager is valid and no object has two names.
structure WellFormed (manager : LoggerManager Formatter) : Prop where
  named : ∀ (name : String) (logger : Address), manager.loggers[name]? = some logger →
    ∃ object, manager.objects.read logger = some object
  stored : ∀ name, ∀ appender ∈ manager.attached name, appender < manager.appenders.size
  distinct : ∀ (first second : String) (logger : Address), manager.loggers[first]? = some logger →
    manager.loggers[second]? = some logger → first = second

def current (default : Formatter) (manager : LoggerManager Formatter) (name : String) : Logger Formatter :=
  match manager.loggers[name]?.bind manager.objects.read with
  | none => { Logger.new default name with root := some manager.root }
  | some object => object

-- A step that works on the logger of one name: the other names keep their
-- objects, and only appenders of that logger may change.
structure Sets (before after : LoggerManager Formatter) (name : String) (logger : Address) (object : Logger Formatter) :
    Prop where
  named : after.loggers[name]? = some logger
  kept : ∀ old : Address, before.loggers[name]? = some old → old = logger
  fresh : before.loggers[name]? = none → before.objects.size ≤ logger
  stored : after.objects.read logger = some object
  loggers : ∀ other, other ≠ name → after.loggers[other]? = before.loggers[other]?
  objects : ∀ other < before.objects.size, other ≠ logger → after.objects.read other = before.objects.read other
  appended : ∀ appender ∈ object.appenders, before.appenders.size ≤ appender ∧ appender < after.appenders.size
  grown : before.appenders.size ≤ after.appenders.size
  contents : ∀ appender < before.appenders.size, appender ∉ before.attached name →
    after.appenders.read appender = before.appenders.read appender

-- No appender object is in the lists of two loggers.
def Separate (manager : LoggerManager Formatter) : Prop :=
  ∀ first second, first ≠ second → ∀ appender ∈ manager.attached first, appender ∉ manager.attached second

section Sets

variable (before after : LoggerManager Formatter) (name : String) (logger : Address) (object : Logger Formatter)

theorem attached_stored (manager : LoggerManager Formatter) (named : manager.loggers[name]? = some logger)
    (stored : manager.objects.read logger = some object) : manager.attached name = object.appenders := by
  simp only [attached, named, Option.bind_some, stored]

theorem sets_apart (sets : Sets before after name logger object) (wellFormed : before.WellFormed) (other : String)
    (pointer : Address) (different : other ≠ name) (present : before.loggers[other]? = some pointer) :
    pointer < before.objects.size ∧ pointer ≠ logger := by
  obtain ⟨target, stored⟩ := wellFormed.named other pointer present
  have bound := Heap.read_bound before.objects pointer target stored
  refine ⟨bound, ?_⟩
  rintro rfl
  cases here : before.loggers[name]? with
  | none => exact absurd (sets.fresh here) (Nat.not_le_of_lt bound)
  | some old =>
      rw [sets.kept old here] at here
      exact different (wellFormed.distinct other name pointer present here)

theorem sets_other_object (sets : Sets before after name logger object) (wellFormed : before.WellFormed)
    (other : String) (pointer : Address) (different : other ≠ name) (present : before.loggers[other]? = some pointer) :
    after.objects.read pointer = before.objects.read pointer := by
  obtain ⟨bound, apart⟩ := sets_apart before after name logger object sets wellFormed other pointer different present
  exact sets.objects pointer bound apart

theorem sets_other_attached (sets : Sets before after name logger object) (wellFormed : before.WellFormed)
    (other : String) (different : other ≠ name) : after.attached other = before.attached other := by
  unfold attached
  rw [sets.loggers other different]
  cases present : before.loggers[other]? with
  | none => rfl
  | some pointer =>
      simp only [Option.bind_some, sets_other_object before after name logger object sets wellFormed other pointer
        different present]

theorem sets_well_formed (sets : Sets before after name logger object) (wellFormed : before.WellFormed) :
    after.WellFormed := by
  have own := attached_stored name logger object after sets.named sets.stored
  have elsewhere (other : String) (pointer : Address) (different : other ≠ name)
      (present : after.loggers[other]? = some pointer) : before.loggers[other]? = some pointer := by
    rwa [sets.loggers other different] at present
  refine ⟨?_, ?_, ?_⟩
  · intro other pointer present
    by_cases same : other = name
    · rw [same, sets.named] at present
      cases present
      exact ⟨object, sets.stored⟩
    · have old := elsewhere other pointer same present
      rw [sets_other_object before after name logger object sets wellFormed other pointer same old]
      exact wellFormed.named other pointer old
  · intro other appender member
    by_cases same : other = name
    · rw [same, own] at member
      exact (sets.appended appender member).2
    · rw [sets_other_attached before after name logger object sets wellFormed other same] at member
      exact Nat.lt_of_lt_of_le (wellFormed.stored other appender member) sets.grown
  · intro first second pointer inFirst inSecond
    by_cases firstName : first = name
    · by_cases secondName : second = name
      · rw [firstName, secondName]
      · rw [firstName, sets.named] at inFirst
        cases inFirst
        exact absurd rfl (sets_apart before after name logger object sets wellFormed second logger secondName
          (elsewhere second logger secondName inSecond)).2
    · by_cases secondName : second = name
      · rw [secondName, sets.named] at inSecond
        cases inSecond
        exact absurd rfl (sets_apart before after name logger object sets wellFormed first logger firstName
          (elsewhere first logger firstName inFirst)).2
      · exact wellFormed.distinct first second pointer (elsewhere first pointer firstName inFirst)
          (elsewhere second pointer secondName inSecond)

theorem sets_separate (sets : Sets before after name logger object) (wellFormed : before.WellFormed)
    (separate : before.Separate) : after.Separate := by
  have own := attached_stored name logger object after sets.named sets.stored
  have elsewhere := sets_other_attached before after name logger object sets wellFormed
  have apart (other : String) (different : other ≠ name) (appender : Address) (inOwn : appender ∈ object.appenders) :
      appender ∉ before.attached other :=
    fun member => absurd (sets.appended appender inOwn).1 (Nat.not_le_of_lt (wellFormed.stored other appender member))
  intro first second different appender member
  by_cases firstName : first = name
  · have secondName : second ≠ name := fun same => different (firstName.trans same.symm)
    rw [elsewhere second secondName]
    rw [firstName, own] at member
    exact apart second secondName appender member
  · rw [elsewhere first firstName] at member
    by_cases secondName : second = name
    · rw [secondName, own]
      exact fun inOwn => apart first firstName appender inOwn member
    · rw [elsewhere second secondName]
      exact separate first second different appender member

end Sets

section Initial

variable (default : Formatter)

theorem new_loggers (name : String) : (LoggerManager.new default).loggers[name]? = if name = "root" then some 0 else none := by
  by_cases same : name = "root"
  · subst same
    simp [LoggerManager.new]
  · simp [LoggerManager.new, addAppender, Heap.alloc, Heap.empty, Heap.read, Ne.symm same, same]

theorem new_root : (LoggerManager.new default).objects.read 0 = some { Logger.new default "root" with appenders := [0] } := rfl

theorem new_attached (name : String) : (LoggerManager.new default).attached name = if name = "root" then [0] else [] := by
  by_cases same : name = "root"
  · have named := new_loggers default name
    rw [if_pos same] at named
    rw [if_pos same]
    exact attached_stored name 0 _ _ named (new_root default)
  · simp [attached, new_loggers, same]

theorem new_well_formed : (LoggerManager.new default).WellFormed := by
  refine ⟨?_, ?_, ?_⟩
  · intro name logger present
    rw [new_loggers] at present
    split at present <;> cases present
    exact ⟨_, new_root default⟩
  · intro name appender member
    rw [new_attached] at member
    split at member
    · rw [List.mem_singleton.mp member]
      exact Nat.one_pos
    · cases member
  · intro first second logger inFirst inSecond
    rw [new_loggers] at inFirst inSecond
    split at inFirst <;> cases inFirst
    split at inSecond <;> cases inSecond
    rename_i firstName secondName
    rw [firstName, secondName]

theorem new_separate : (LoggerManager.new default).Separate := by
  intro first second different appender member
  rw [new_attached] at member ⊢
  split at member
  · rename_i firstName
    rw [if_neg fun secondName => different (firstName.trans secondName.symm)]
    exact List.not_mem_nil
  · cases member

end Initial

section Lookup

variable (default : Formatter) (manager : LoggerManager Formatter) (name : String)

theorem current_appenders : (manager.current default name).appenders = manager.attached name := by
  rw [current, attached]
  split <;> rfl

structure Names (after : LoggerManager Formatter) (logger : Address) : Prop where
  named : after.loggers[name]? = some logger
  kept : ∀ old : Address, manager.loggers[name]? = some old → old = logger
  fresh : manager.loggers[name]? = none → manager.objects.size ≤ logger
  stored : after.objects.read logger = some (manager.current default name)
  loggers : ∀ other, other ≠ name → after.loggers[other]? = manager.loggers[other]?
  objects : ∀ other < manager.objects.size, after.objects.read other = manager.objects.read other
  appenders : after.appenders = manager.appenders

theorem get_logger_names (wellFormed : manager.WellFormed) :
    Names default manager name (manager.getLogger default name).1 (manager.getLogger default name).2 := by
  cases present : manager.loggers[name]? with
  | some logger =>
      obtain ⟨object, stored⟩ := wellFormed.named name logger present
      have found : manager.getLogger default name = (manager, logger) := by simp only [getLogger, present]
      have here : manager.current default name = object := by simp only [current, present, Option.bind_some, stored]
      rw [found]
      refine ⟨present, ?_, ?_, ?_, fun _ _ => rfl, fun _ _ => rfl, rfl⟩
      · intro old same
        exact Option.some.inj (same.symm.trans present)
      · intro missing
        rw [present] at missing
        cases missing
      · rw [stored, here]
  | none =>
      have created : manager.getLogger default name =
          ({ manager with
              objects := manager.objects.alloc { Logger.new default name with root := some manager.root }
              loggers := manager.loggers.insert name manager.objects.size }, manager.objects.size) := by
        simp only [getLogger, present]
      have fresh : manager.current default name = { Logger.new default name with root := some manager.root } := by
        simp only [current, present, Option.bind_none]
      rw [created]
      refine ⟨by simp, ?_, fun _ => Nat.le_refl _, ?_, ?_, ?_, rfl⟩
      · intro old same
        rw [present] at same
        cases same
      · rw [fresh]
        exact Heap.read_alloc_fresh _ _
      · intro other different
        simp [Std.TreeMap.getElem?_insert, Ne.symm different]
      · intro other bound
        exact Heap.read_alloc_old _ _ other bound

end Lookup

end LoggerManager

end Sylar.Log
