import Sylar.Lib.Runs
import Sylar.Log.LogFormatter

set_option autoImplicit false

namespace Sylar.Log.InheritedFormatter

open Lib (Heap Address Along Throughout)

-- Formatters are compared as pointers here, so they are objects of a heap too.
structure Pool where
  manager : LoggerManager Address
  formatters : Heap LogFormatter

inductive Call where
  | addAppender (logger appender : Address)
  | delAppender (logger appender : Address)
  | clearAppender (logger : Address)
  | setFormatter (logger : Address) (formatter : Option Address)
  | setFormatterText (logger : Address) (str : String)
  | setAppenderFormatter (appender formatter : Address)
deriving DecidableEq, Repr

-- Logger::setFormatter(const std::string&).
def setFormatterText (pool : Pool) (logger : Address) (str : String) : Pool :=
  let fmt := LogFormatter.new str
  let made := { pool with formatters := pool.formatters.alloc fmt }
  if !fmt.isError then { made with manager := pool.manager.setFormatter logger (some pool.formatters.size) } else made

def step (pool : Pool) (call : Call) : Option Pool :=
  let isLogger := fun logger => (pool.manager.objects.read logger).isSome
  let isAppender := fun appender => (pool.manager.appenders.read appender).isSome
  match call with
  | .addAppender logger appender =>
      if isLogger logger && isAppender appender then some { pool with manager := pool.manager.addAppender logger appender } else none
  | .delAppender logger appender =>
      if isLogger logger && isAppender appender then some { pool with manager := pool.manager.delAppender logger appender } else none
  | .clearAppender logger =>
      if isLogger logger then some { pool with manager := pool.manager.clearAppender logger } else none
  | .setFormatter logger formatter =>
      if isLogger logger then some { pool with manager := pool.manager.setFormatter logger formatter } else none
  | .setFormatterText logger str => if isLogger logger then some (setFormatterText pool logger str) else none
  | .setAppenderFormatter appender formatter =>
      if isAppender appender then
        some { pool with manager :=
          { pool.manager with appenders := pool.manager.appenders.modify appender (·.setFormatter (some formatter)) } }
      else none

section Objects

variable {Formatter : Type} (manager : LoggerManager Formatter)

def Attached (logger appender : Address) : Prop :=
  ∃ object, manager.objects.read logger = some object ∧ appender ∈ object.appenders

def Exclusive : Prop :=
  ∀ first second appender, Attached manager first appender → Attached manager second appender → first = second

-- An attached appender without a formatter of its own has its logger's.
def Inherits : Prop :=
  ∀ logger object appender ap, manager.objects.read logger = some object → appender ∈ object.appenders →
    manager.appenders.read appender = some ap → ap.hasFormatter = false → ap.formatter = object.formatter

variable (logger appender : Address) (object : Logger Formatter)

-- Lists only got shorter, and nothing else changed.
theorem inherits_shrink (after : LoggerManager Formatter) (appenders : after.appenders = manager.appenders)
    (shrinks : ∀ other later, after.objects.read other = some later →
      ∃ earlier, manager.objects.read other = some earlier ∧ later.formatter = earlier.formatter ∧
        later.appenders ⊆ earlier.appenders) (inherits : Inherits manager) : Inherits after := by
  intro other later member ap stored inLater read without
  obtain ⟨earlier, before, same, subset⟩ := shrinks other later stored
  rw [appenders] at read
  rw [same]
  exact inherits other earlier member ap before (subset inLater) read without

theorem exclusive_shrink (after : LoggerManager Formatter)
    (shrinks : ∀ other member, Attached after other member → Attached manager other member)
    (exclusive : Exclusive manager) : Exclusive after :=
  fun first second member inFirst inSecond =>
    exclusive first second member (shrinks first member inFirst) (shrinks second member inSecond)

theorem modify_logger_shrinks (change : Logger Formatter → Logger Formatter)
    (formatter : ∀ current, (change current).formatter = current.formatter)
    (subset : ∀ current, (change current).appenders ⊆ current.appenders) (other : Address) (later : Logger Formatter)
    (stored : (manager.modifyLogger logger change).objects.read other = some later) :
    ∃ earlier, manager.objects.read other = some earlier ∧ later.formatter = earlier.formatter ∧
      later.appenders ⊆ earlier.appenders := by
  by_cases same : other = logger
  · subst same
    rw [LoggerManager.modifyLogger, Heap.read_modify_here, Option.map_eq_some_iff] at stored
    obtain ⟨earlier, before, rfl⟩ := stored
    exact ⟨earlier, before, formatter earlier, subset earlier⟩
  · rw [LoggerManager.modifyLogger, Heap.read_modify_elsewhere _ _ _ _ same] at stored
    exact ⟨later, stored, rfl, List.Subset.refl _⟩

theorem del_appender_shrinks (other : Address) (later : Logger Formatter)
    (stored : (manager.delAppender logger appender).objects.read other = some later) :
    ∃ earlier, manager.objects.read other = some earlier ∧ later.formatter = earlier.formatter ∧
      later.appenders ⊆ earlier.appenders := by
  refine modify_logger_shrinks manager logger _ ?_ ?_ other later stored
  · exact fun _ => rfl
  · exact fun _ => List.erase_subset

theorem clear_appender_shrinks (other : Address) (later : Logger Formatter)
    (stored : (manager.clearAppender logger).objects.read other = some later) :
    ∃ earlier, manager.objects.read other = some earlier ∧ later.formatter = earlier.formatter ∧
      later.appenders ⊆ earlier.appenders := by
  refine modify_logger_shrinks manager logger _ ?_ ?_ other later stored
  · exact fun _ => rfl
  · exact fun _ => List.nil_subset _

theorem shrinks_attached (after : LoggerManager Formatter)
    (shrinks : ∀ other later, after.objects.read other = some later →
      ∃ earlier, manager.objects.read other = some earlier ∧ later.formatter = earlier.formatter ∧
        later.appenders ⊆ earlier.appenders) (other member : Address) (attached : Attached after other member) :
    Attached manager other member := by
  obtain ⟨later, stored, inLater⟩ := attached
  obtain ⟨earlier, before, -, subset⟩ := shrinks other later stored
  exact ⟨earlier, before, subset inLater⟩

theorem set_formatter_objects (formatter : Option Formatter) (other : Address) (later : Logger Formatter)
    (stored : (manager.setFormatter logger formatter).objects.read other = some later) :
    ∃ earlier, manager.objects.read other = some earlier ∧ later.appenders = earlier.appenders ∧
      later.formatter = if other = logger then formatter else earlier.formatter := by
  rw [LoggerManager.setFormatter] at stored
  split at stored
  · rename_i missing
    refine ⟨later, stored, rfl, ?_⟩
    rw [if_neg]
    rintro rfl
    rw [missing] at stored
    cases stored
  · by_cases same : other = logger
    · subst same
      rw [Heap.read_modify_here, Option.map_eq_some_iff] at stored
      obtain ⟨earlier, before, rfl⟩ := stored
      exact ⟨earlier, before, rfl, by rw [if_pos rfl]⟩
    · rw [Heap.read_modify_elsewhere _ _ _ _ same] at stored
      exact ⟨later, stored, rfl, by rw [if_neg same]⟩

theorem set_formatter_attached (formatter : Option Formatter) (other member : Address)
    (attached : Attached (manager.setFormatter logger formatter) other member) : Attached manager other member := by
  obtain ⟨later, stored, inLater⟩ := attached
  obtain ⟨earlier, before, same, -⟩ := set_formatter_objects manager logger formatter other later stored
  exact ⟨earlier, before, same ▸ inLater⟩

theorem inherits_set_formatter (formatter : Option Formatter) (exclusive : Exclusive manager) (inherits : Inherits manager) :
    Inherits (manager.setFormatter logger formatter) := by
  intro other later member ap stored inLater read without
  obtain ⟨earlier, before, sameList, sameFormatter⟩ := set_formatter_objects manager logger formatter other later stored
  rw [sameList] at inLater
  rw [sameFormatter]
  rw [LoggerManager.setFormatter] at read
  cases target : manager.objects.read logger with
  | none =>
      have different : other ≠ logger := by
        rintro rfl
        rw [target] at before
        cases before
      rw [target] at read
      rw [if_neg different]
      exact inherits other earlier member ap before inLater read without
  | some object =>
      rw [target] at read
      by_cases same : other = logger
      · subst same
        rw [target] at before
        cases before
        rw [if_pos rfl]
        obtain ⟨old, present⟩ : ∃ old, manager.appenders.read member = some old := by
          apply Heap.read_of_lt
          have bound := Heap.read_bound _ member ap read
          rwa [Heap.size_modify_all] at bound
        rw [Heap.read_modify_all_listed _ _ member old _ (LogAppender.inherit_idempotent formatter) inLater present] at read
        cases read
        rw [LogAppender.inherit] at without ⊢
        split
        · rename_i own
          rw [if_pos own, own] at without
          cases without
        · rfl
      · have apart : member ∉ object.appenders :=
          fun shared => same (exclusive other logger member ⟨earlier, before, inLater⟩ ⟨object, target, shared⟩)
        rw [Heap.read_modify_all_elsewhere _ _ _ _ apart] at read
        rw [if_neg same]
        exact inherits other earlier member ap before inLater read without

theorem add_appender_objects (other : Address) (later : Logger Formatter) (present : manager.objects.read logger = some object)
    (stored : (manager.addAppender logger appender).objects.read other = some later) :
    ∃ earlier, manager.objects.read other = some earlier ∧ later.formatter = earlier.formatter ∧
      later.appenders = if other = logger then earlier.appenders ++ [appender] else earlier.appenders := by
  simp only [LoggerManager.addAppender, present] at stored
  by_cases same : other = logger
  · subst same
    rw [Heap.read_modify_here, Option.map_eq_some_iff] at stored
    obtain ⟨earlier, before, rfl⟩ := stored
    exact ⟨earlier, before, rfl, by rw [if_pos rfl]⟩
  · rw [Heap.read_modify_elsewhere _ _ _ _ same] at stored
    exact ⟨later, stored, rfl, by rw [if_neg same]⟩

theorem exclusive_add_appender (present : manager.objects.read logger = some object)
    (detached : ∀ other, other ≠ logger → ¬ Attached manager other appender) (exclusive : Exclusive manager) :
    Exclusive (manager.addAppender logger appender) := by
  have earlier (other member : Address) (attached : Attached (manager.addAppender logger appender) other member) :
      Attached manager other member ∨ (other = logger ∧ member = appender) := by
    obtain ⟨later, stored, inLater⟩ := attached
    obtain ⟨before, read, -, list⟩ := add_appender_objects manager logger appender object other later present stored
    rw [list] at inLater
    split at inLater
    · rename_i same
      rcases List.mem_append.mp inLater with old | new
      · exact .inl ⟨before, read, old⟩
      · exact .inr ⟨same, List.mem_singleton.mp new⟩
    · exact .inl ⟨before, read, inLater⟩
  intro first second member inFirst inSecond
  rcases earlier first member inFirst with oldFirst | ⟨rfl, rfl⟩
  · rcases earlier second member inSecond with oldSecond | ⟨rfl, rfl⟩
    · exact exclusive first second member oldFirst oldSecond
    · by_contra different
      exact detached first different oldFirst
  · rcases earlier second member inSecond with oldSecond | ⟨rfl, -⟩
    · by_contra different
      exact detached second (Ne.symm different) oldSecond
    · rfl

-- An appender that took over a formatter earlier keeps it.
theorem adopt_inherits_iff (ap : LogAppender Formatter) (formatter : Option Formatter) :
    ((ap.adopt formatter).hasFormatter = false → (ap.adopt formatter).formatter = formatter) ↔
      ap.formatter = none ∨ ap.hasFormatter = true ∨ ap.formatter = formatter := by
  rw [LogAppender.adopt]
  cases given : ap.formatter with
  | none => simp [LogAppender.setFormatter, LogAppender.setHasFormatter]
  | some earlier => cases own : ap.hasFormatter <;> simp [given, own]

-- The one call that can go wrong.
theorem inherits_add_appender_iff (ap : LogAppender Formatter) (present : manager.objects.read logger = some object)
    (here : manager.appenders.read appender = some ap) (detached : ∀ other, other ≠ logger → ¬ Attached manager other appender)
    (inherits : Inherits manager) :
    Inherits (manager.addAppender logger appender) ↔
      ap.formatter = none ∨ ap.hasFormatter = true ∨ ap.formatter = object.formatter := by
  have adopted : (manager.addAppender logger appender).appenders.read appender = some (ap.adopt object.formatter) := by
    simp only [LoggerManager.addAppender, present, Heap.read_modify_here, here, Option.map_some]
  have others (other : Address) (different : other ≠ appender) :
      (manager.addAppender logger appender).appenders.read other = manager.appenders.read other := by
    simp only [LoggerManager.addAppender, present, Heap.read_modify_elsewhere _ _ _ _ different]
  rw [← adopt_inherits_iff]
  constructor
  · intro after
    have stored : (manager.addAppender logger appender).objects.read logger =
        some { object with appenders := object.appenders ++ [appender] } := by
      simp only [LoggerManager.addAppender, present, Heap.read_modify_here, Option.map_some]
    have takes := after logger _ appender _ stored (by simp) adopted
    exact takes
  · intro takes other later member mp stored inLater read without
    obtain ⟨earlier, before, sameFormatter, list⟩ :=
      add_appender_objects manager logger appender object other later present stored
    rw [sameFormatter]
    by_cases added : member = appender
    · subst added
      rw [adopted] at read
      cases read
      have owner : other = logger := by
        by_contra different
        rw [list, if_neg different] at inLater
        exact detached other different ⟨earlier, before, inLater⟩
      rw [owner, present] at before
      cases before
      exact takes without
    · rw [others member added] at read
      have old : member ∈ earlier.appenders := by
        rw [list] at inLater
        split at inLater
        · exact (List.mem_append.mp inLater).resolve_right (by simpa using added)
        · exact inLater
      exact inherits other earlier member mp before old read without

theorem inherits_own_formatter (formatter : Formatter) (inherits : Inherits manager) :
    Inherits { manager with appenders := manager.appenders.modify appender (·.setFormatter (some formatter)) } := by
  intro other later member ap stored inLater read without
  by_cases same : member = appender
  · subst same
    rw [Heap.read_modify_here, Option.map_eq_some_iff] at read
    obtain ⟨earlier, -, rfl⟩ := read
    cases without
  · rw [Heap.read_modify_elsewhere _ _ _ _ same] at read
    exact inherits other later member ap stored inLater read without

end Objects

-- An appender is taken from one logger before another one gets it.
def Detached (pool : Pool) : Call → Prop
  | .addAppender logger appender => ∀ other, other ≠ logger → ¬ Attached pool.manager other appender
  | _ => True

def TakesFormatter (pool : Pool) : Call → Prop
  | .addAppender logger appender =>
      ∀ object ap, pool.manager.objects.read logger = some object → pool.manager.appenders.read appender = some ap →
        ap.formatter = none ∨ ap.hasFormatter = true ∨ ap.formatter = object.formatter
  | _ => True

section Calls

variable (pool next : Pool) (call : Call)

theorem step_exclusive (exclusive : Exclusive pool.manager) (detached : Detached pool call)
    (stepped : step pool call = some next) : Exclusive next.manager := by
  have same (formatter : Option Address) (logger : Address) : Exclusive (pool.manager.setFormatter logger formatter) :=
    exclusive_shrink pool.manager _ (set_formatter_attached pool.manager logger formatter) exclusive
  cases call with
  | addAppender logger appender =>
      simp only [step, Option.ite_none_right_eq_some, Bool.and_eq_true] at stepped
      obtain ⟨⟨isLogger, -⟩, made⟩ := stepped
      cases made
      obtain ⟨object, present⟩ := Option.isSome_iff_exists.mp isLogger
      exact exclusive_add_appender pool.manager logger appender object present detached exclusive
  | delAppender logger appender =>
      simp only [step, Option.ite_none_right_eq_some] at stepped
      cases stepped.2
      exact exclusive_shrink pool.manager _ (shrinks_attached pool.manager _
        (del_appender_shrinks pool.manager logger appender)) exclusive
  | clearAppender logger =>
      simp only [step, Option.ite_none_right_eq_some] at stepped
      cases stepped.2
      exact exclusive_shrink pool.manager _ (shrinks_attached pool.manager _
        (clear_appender_shrinks pool.manager logger)) exclusive
  | setFormatter logger formatter =>
      simp only [step, Option.ite_none_right_eq_some] at stepped
      cases stepped.2
      exact same formatter logger
  | setFormatterText logger str =>
      simp only [step, Option.ite_none_right_eq_some] at stepped
      cases stepped.2
      rw [setFormatterText]
      dsimp only
      split
      · exact same _ logger
      · exact exclusive
  | setAppenderFormatter appender formatter =>
      simp only [step, Option.ite_none_right_eq_some] at stepped
      cases stepped.2
      exact exclusive

theorem step_inherits_iff (exclusive : Exclusive pool.manager) (inherits : Inherits pool.manager)
    (detached : Detached pool call) (stepped : step pool call = some next) :
    Inherits next.manager ↔ TakesFormatter pool call := by
  cases call with
  | addAppender logger appender =>
      simp only [step, Option.ite_none_right_eq_some, Bool.and_eq_true] at stepped
      obtain ⟨⟨isLogger, isAppender⟩, made⟩ := stepped
      cases made
      obtain ⟨object, present⟩ := Option.isSome_iff_exists.mp isLogger
      obtain ⟨ap, here⟩ := Option.isSome_iff_exists.mp isAppender
      rw [inherits_add_appender_iff pool.manager logger appender object ap present here detached inherits]
      simp [TakesFormatter, present, here]
  | delAppender logger appender =>
      simp only [step, Option.ite_none_right_eq_some] at stepped
      cases stepped.2
      exact iff_of_true (inherits_shrink pool.manager _ rfl (del_appender_shrinks pool.manager logger appender) inherits) trivial
  | clearAppender logger =>
      simp only [step, Option.ite_none_right_eq_some] at stepped
      cases stepped.2
      exact iff_of_true (inherits_shrink pool.manager _ rfl (clear_appender_shrinks pool.manager logger) inherits) trivial
  | setFormatter logger formatter =>
      simp only [step, Option.ite_none_right_eq_some] at stepped
      cases stepped.2
      exact iff_of_true (inherits_set_formatter pool.manager logger formatter exclusive inherits) trivial
  | setFormatterText logger str =>
      simp only [step, Option.ite_none_right_eq_some] at stepped
      cases stepped.2
      rw [setFormatterText]
      dsimp only
      split
      · exact iff_of_true (inherits_set_formatter pool.manager logger _ exclusive inherits) trivial
      · exact iff_of_true inherits trivial
  | setAppenderFormatter appender formatter =>
      simp only [step, Option.ite_none_right_eq_some] at stepped
      cases stepped.2
      exact iff_of_true (inherits_own_formatter pool.manager appender formatter inherits) trivial

theorem refused_takes (refused : step pool call = none) : TakesFormatter pool call := by
  cases call with
  | addAppender logger appender =>
      intro object ap present here
      simp [step, present, here] at refused
  | _ => trivial

theorem inherits_throughout_iff (start : Pool) (calls : List Call) (exclusive : Exclusive start.manager)
    (inherits : Inherits start.manager) (detached : Along step Detached start calls) :
    Throughout step (fun reached => Inherits reached.manager) start calls ↔ Along step TakesFormatter start calls :=
  Lib.throughout_iff_along step (fun reached => Inherits reached.manager) (fun reached => Exclusive reached.manager)
    Detached TakesFormatter
    (fun pool call next exclusive guard stepped => step_exclusive pool next call exclusive guard stepped)
    (fun pool call next exclusive inherits guard stepped => step_inherits_iff pool next call exclusive inherits guard stepped)
    refused_takes calls start exclusive inherits detached

end Calls

def detachedPool : Pool where
  manager := ⟨⟨[.new .stdout]⟩, ⟨[.new 0 "system"]⟩, Std.TreeMap.empty.insert "system" 0, 0⟩
  formatters := ⟨[LogFormatter.new "%m%n", LogFormatter.new "%p%n"]⟩

def changeWhileAttached : List Call := [.addAppender 0 0, .setFormatter 0 (some 1), .delAppender 0 0]

def changeWhileDetached : List Call := [.addAppender 0 0, .delAppender 0 0, .setFormatter 0 (some 1), .addAppender 0 0]

theorem single_logger_detached (manager : LoggerManager Address) (single : manager.objects.size = 1) (appender : Address) :
    ∀ other, other ≠ 0 → ¬ Attached manager other appender := by
  rintro other different ⟨object, stored, -⟩
  have bound := Heap.read_bound manager.objects other object stored
  rw [single] at bound
  exact different (Nat.lt_one_iff.mp bound)

theorem detached_pool_exclusive : Exclusive detachedPool.manager := by
  rintro first second appender ⟨object, stored, member⟩ -
  cases first with
  | zero =>
      cases stored
      cases member
  | succ other => cases stored

theorem detached_pool_inherits : Inherits detachedPool.manager := by
  intro logger object appender ap stored member
  cases logger with
  | zero =>
      cases stored
      cases member
  | succ other => cases stored

theorem inherits_throughout_iff_attached :
    Throughout step (fun reached => Inherits reached.manager) detachedPool changeWhileAttached := by
  refine (inherits_throughout_iff detachedPool changeWhileAttached detached_pool_exclusive detached_pool_inherits
    ⟨single_logger_detached _ rfl 0, trivial, trivial, trivial⟩).mpr ⟨?_, trivial, trivial, trivial⟩
  intro object ap present here
  cases here
  exact .inl rfl

theorem detached_appender_left_behind :
    ¬ ∀ (start : Pool) (calls : List Call), Exclusive start.manager → Inherits start.manager →
      Along step Detached start calls → Throughout step (fun reached => Inherits reached.manager) start calls := by
  intro claimed
  have throughout := claimed detachedPool changeWhileDetached detached_pool_exclusive detached_pool_inherits
    ⟨single_logger_detached _ rfl 0, trivial, trivial, single_logger_detached _ rfl 0, trivial⟩
  have final := Lib.throughout_reached step _ changeWhileDetached [] detachedPool _ throughout rfl
  have same := final 0 _ 0 _ rfl List.mem_cons_self rfl rfl
  exact absurd same (by decide)

end Sylar.Log.InheritedFormatter
