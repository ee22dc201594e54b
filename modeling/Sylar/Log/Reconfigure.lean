import Sylar.Lib.Runs
import Sylar.Log.LogReconcile

set_option autoImplicit false

namespace Sylar.Log.Reconfigure

open Lib (Address Along Heap run)
open LoggerManager LogIniter

-- Logger::log while another thread runs LogIniter's listener on that logger.
-- The callback holds the logger's lock once for each of these steps.
inductive LockedStep where
  | setLevel (level : Level)
  | setFormatter (formatter : LogFormatter)
  | clearAppender
  | addAppender (appender : LogAppender LogFormatter)
deriving DecidableEq, Repr

def LockedStep.apply (logger : Address) (manager : Manager) : LockedStep → Manager
  | .setLevel level => manager.setLevel logger level
  | .setFormatter formatter => manager.setFormatter logger (some formatter)
  | .clearAppender => manager.clearAppender logger
  | .addAppender appender =>
      { manager with appenders := manager.appenders.alloc appender }.addAppender logger manager.appenders.size

def formatterSteps (i : LogDefine) : List LockedStep :=
  match ownFormatter i.formatter with
  | none => []
  | some formatter => [.setFormatter formatter]

def addSteps (list : List LogAppenderDefine) : List LockedStep := (list.filterMap newAppender).map .addAppender

def lockedSteps (i : LogDefine) : List LockedStep :=
  .setLevel i.level :: (formatterSteps i ++ .clearAppender :: addSteps i.appenders)

-- Where an event goes: to the appenders that log it, with the formatter each of
-- them uses, or on to the root logger.
inductive Delivery where
  | filtered
  | appenders (list : List (Address × Option LogFormatter))
  | root (logger : Address)
  | dropped
deriving DecidableEq, Repr

def passes (level threshold : Level) : Bool := threshold.toNat ≤ level.toNat

def admits (manager : Manager) (logger : Address) (level : Level) : Bool :=
  match manager.objects.read logger with
  | none => false
  | some object => passes level object.level

def renders (manager : Manager) (level : Level) (appender : Address) : Option (Address × Option LogFormatter) :=
  (manager.appenders.read appender).bind fun ap => if passes level ap.level then some (appender, ap.formatter) else none

-- What Logger::log does under the lock.
def dispatch (manager : Manager) (logger : Address) (level : Level) : Delivery :=
  match manager.objects.read logger with
  | none => .dropped
  | some object =>
      if !object.appenders.isEmpty then .appenders (object.appenders.filterMap (renders manager level))
      else
        match object.root with
        | some root => .root root
        | none => .dropped

-- Logger::log with nothing in between: the logger whose appenders get the
-- event, with what they use. The depth bounds the way from root to root.
def log (manager : Manager) (level : Level) : Nat → Address → Option (Address × List (Address × Option LogFormatter))
  | 0, _ => none
  | depth + 1, logger =>
      if !admits manager logger level then none
      else
        match dispatch manager logger level with
        | .appenders list => some (logger, list)
        | .root root => log manager level depth root
        | _ => none

inductive Phase where
  | waiting
  | admitted
  | done (delivery : Delivery)
deriving DecidableEq, Repr

structure Shared where
  manager : Manager
  pending : List LockedStep
  phase : Phase

inductive Action where
  | log
  | callback
deriving DecidableEq, Repr

def step (logger : Address) (level : Level) (state : Shared) : Action → Option Shared
  | .callback =>
      match state.pending with
      | [] => none
      | first :: rest => some { state with manager := first.apply logger state.manager, pending := rest }
  | .log =>
      match state.phase with
      | .waiting =>
          some { state with phase := if admits state.manager logger level then .admitted else .done .filtered }
      | .admitted => some { state with phase := .done (dispatch state.manager logger level) }
      | .done _ => none

def rendering (manager : Manager) (logger : Address) : List (Address × Option LogFormatter) :=
  match manager.objects.read logger with
  | none => []
  | some object => object.appenders.map fun appender =>
      (appender, (manager.appenders.read appender).bind LogAppender.formatter)

section Steps

theorem add_steps_run (logger : Address) (list : List LogAppenderDefine) (manager : Manager)
    (known : ∀ a ∈ list, a.type = 1 ∨ a.type = 2) :
    list.foldlM (addDefined logger) manager = some ((addSteps list).foldl (LockedStep.apply logger) manager) := by
  induction list generalizing manager with
  | nil => rfl
  | cons a rest ih =>
      have made := new_appender_adopts none a (known a List.mem_cons_self)
      cases object : newAppender a with
      | none =>
          rw [object] at made
          cases made
      | some ap =>
          have later := fun next => ih next fun other member => known other (List.mem_cons_of_mem _ member)
          simp only [List.foldlM_cons, addDefined, object, Option.map_some, addSteps, List.filterMap_cons, List.map_cons,
            List.foldl_cons]
          exact later _

theorem prepare_steps (logger : Address) (manager : Manager) (i : LogDefine) :
    prepare manager logger i =
      (formatterSteps i ++ [LockedStep.clearAppender]).foldl (LockedStep.apply logger) (manager.setLevel logger i.level) := by
  rw [prepare_formats, formatterSteps]
  cases ownFormatter i.formatter <;> rfl

theorem apply_define_steps (manager : Manager) (i : LogDefine) (logger : Address)
    (present : manager.loggers[i.name]? = some logger) (known : ∀ a ∈ i.appenders, a.type = 1 ∨ a.type = 2) :
    applyDefine manager i = some ((lockedSteps i).foldl (LockedStep.apply logger) manager) := by
  have found : manager.getLogger defaultFormatter i.name = (manager, logger) := by simp only [getLogger, present]
  rw [applyDefine, found]
  simp only [add_steps_run logger i.appenders _ known, prepare_steps, lockedSteps, List.foldl_cons, List.foldl_append,
    List.foldl_nil]
  rfl

end Steps

section Interleaving

variable (start : Manager) (logger : Address) (object : Logger LogFormatter) (i : LogDefine) (level : Level)

inductive Stage : Manager → List LockedStep → Prop
  | begun : Stage start (lockedSteps i)
  | leveled : Stage (start.setLevel logger i.level) (formatterSteps i ++ .clearAppender :: addSteps i.appenders)
  | formatted (formatter : LogFormatter) (own : ownFormatter i.formatter = some formatter) :
      Stage ((start.setLevel logger i.level).setFormatter logger (some formatter))
        (.clearAppender :: addSteps i.appenders)
  | building (count : Nat) (manager : Manager)
      (added : (i.appenders.take count).foldlM (addDefined logger) (prepare start logger i) = some manager) :
      Stage manager (addSteps (i.appenders.drop count))

theorem stage_step (known : ∀ a ∈ i.appenders, a.type = 1 ∨ a.type = 2) (manager : Manager) (first : LockedStep)
    (rest : List LockedStep) (stage : Stage start logger i manager (first :: rest)) :
    Stage start logger i (first.apply logger manager) rest := by
  generalize pending : first :: rest = steps at stage
  cases stage with
  | begun =>
      cases pending
      exact .leveled
  | leveled =>
      have prepared := prepare_formats start logger i
      cases own : ownFormatter i.formatter with
      | none =>
          rw [own] at prepared
          rw [formatterSteps, own] at pending
          cases pending
          exact .building 0 _ (by rw [prepared]; rfl)
      | some formatter =>
          rw [formatterSteps, own] at pending
          cases pending
          exact .formatted formatter own
  | formatted formatter own =>
      have prepared := prepare_formats start logger i
      rw [own] at prepared
      cases pending
      exact .building 0 _ (by rw [prepared]; rfl)
  | building count manager added =>
      cases remaining : i.appenders.drop count with
      | nil =>
          rw [remaining] at pending
          cases pending
      | cons a others =>
          have bound : count < i.appenders.length := by
            apply Nat.lt_of_not_le
            intro beyond
            rw [List.drop_eq_nil_of_le beyond] at remaining
            cases remaining
          rw [List.drop_eq_getElem_cons bound] at remaining
          obtain ⟨here, behind⟩ := List.cons.inj remaining
          have made := new_appender_adopts none a (known a (here ▸ List.getElem_mem bound))
          cases created : newAppender a with
          | none =>
              rw [created] at made
              cases made
          | some ap =>
              rw [List.drop_eq_getElem_cons bound, here, addSteps, List.filterMap_cons, created] at pending
              cases pending
              refine .building (count + 1) _ ?_
              rw [List.take_add_one, List.getElem?_eq_getElem bound, here, List.foldlM_append, added]
              simp [addDefined, created, LockedStep.apply]

-- An appender of the old list without a formatter of its own takes over the
-- definition's, which is another than the one it used.
def Repaints : Prop :=
  ∃ formatter, ownFormatter i.formatter = some formatter ∧ ∃ appender ∈ object.appenders, ∃ ap,
    start.appenders.read appender = some ap ∧ ap.hasFormatter = false ∧ ap.formatter ≠ some formatter

def Delivery.targets : Delivery → List Address
  | .appenders list => list.map Prod.fst
  | _ => []

theorem dispatch_rendering (manager : Manager) (current : Logger LogFormatter)
    (stored : manager.objects.read logger = some current) (nonempty : current.appenders ≠ [])
    (passing : ∀ appender ∈ current.appenders, ∃ ap, manager.appenders.read appender = some ap ∧ passes level ap.level) :
    dispatch manager logger level = .appenders (rendering manager logger) := by
  have listed : current.appenders.filterMap (renders manager level) =
      current.appenders.map fun appender => (appender, (manager.appenders.read appender).bind LogAppender.formatter) := by
    rw [List.filterMap_eq_map_iff_forall_eq_some]
    intro appender member
    obtain ⟨ap, read, pass⟩ := passing appender member
    simp only [renders, read, Option.bind_some, pass, if_true]
  have notEmpty : current.appenders.isEmpty = false := by simpa using nonempty
  simp only [dispatch, rendering, stored, notEmpty, Bool.not_false, if_true, listed]

theorem rendering_targets (manager : Manager) (current : Logger LogFormatter)
    (stored : manager.objects.read logger = some current) :
    (rendering manager logger).map Prod.fst = current.appenders := by
  simp only [rendering, stored, List.map_map]
  exact List.map_id' _

theorem dispatch_targets (manager : Manager) (current : Logger LogFormatter)
    (stored : manager.objects.read logger = some current)
    (passing : ∀ appender ∈ current.appenders, ∃ ap, manager.appenders.read appender = some ap ∧ passes level ap.level) :
    (dispatch manager logger level).targets = current.appenders := by
  by_cases empty : current.appenders = []
  · simp only [dispatch, stored, empty, List.isEmpty_nil, Bool.not_true, Bool.false_eq_true, if_false]
    cases current.root <;> rfl
  · rw [dispatch_rendering logger level manager current stored empty passing, Delivery.targets,
      rendering_targets logger manager current stored]

theorem inherit_level (formatter : Option LogFormatter) (ap : LogAppender LogFormatter) :
    (LogAppender.inherit formatter ap).level = ap.level := by
  rw [LogAppender.inherit]
  split <;> rfl

theorem leveled_stored (stored : start.objects.read logger = some object) :
    (start.setLevel logger i.level).objects.read logger = some { object with level := i.level } := by
  simp only [LoggerManager.setLevel, modifyLogger, Heap.read_modify_here, stored, Option.map_some]

theorem formatted_appenders (formatter : LogFormatter) (stored : start.objects.read logger = some object) :
    ((start.setLevel logger i.level).setFormatter logger (some formatter)).appenders =
      start.appenders.modifyAll object.appenders (LogAppender.inherit (some formatter)) := by
  simp only [LoggerManager.setFormatter, leveled_stored start logger object i stored]
  rfl

theorem rendering_formatted_iff (formatter : LogFormatter) (own : ownFormatter i.formatter = some formatter)
    (stored : start.objects.read logger = some object)
    (valid : ∀ appender ∈ object.appenders, ∃ ap, start.appenders.read appender = some ap) :
    rendering ((start.setLevel logger i.level).setFormatter logger (some formatter)) logger = rendering start logger ↔
      ¬ Repaints start object i := by
  have leveled := leveled_stored start logger object i stored
  have written := formatted_appenders start logger object i formatter stored
  obtain ⟨-, here, -⟩ := set_formatter_spec _ logger _ (some formatter) leveled
  simp only [rendering, here, stored, written, List.map_inj_left, Prod.mk.injEq, true_and]
  have inherited (ap : LogAppender LogFormatter) : (LogAppender.inherit (some formatter) ap).formatter = ap.formatter ↔
      ¬ (ap.hasFormatter = false ∧ ap.formatter ≠ some formatter) := by
    rw [LogAppender.inherit]
    by_cases kept : ap.hasFormatter
    · simp [kept]
    · simp [kept, LogAppender.setFormatter, LogAppender.setHasFormatter, eq_comm]
  have each (appender : Address) (member : appender ∈ object.appenders) (ap : LogAppender LogFormatter)
      (read : start.appenders.read appender = some ap) :
      (start.appenders.modifyAll object.appenders (LogAppender.inherit (some formatter))).read appender =
        some (LogAppender.inherit (some formatter) ap) :=
    Heap.read_modify_all_listed _ _ appender ap _ (LogAppender.inherit_idempotent _) member read
  refine ⟨?_, ?_⟩
  · rintro same ⟨other, ownOther, appender, member, ap, read, inherits, different⟩
    obtain rfl : formatter = other := Option.some.inj (own.symm.trans ownOther)
    have unchanged := same appender member
    rw [each appender member ap read, read, Option.bind_some, Option.bind_some, inherited] at unchanged
    exact unchanged ⟨inherits, different⟩
  · intro calm appender member
    obtain ⟨ap, read⟩ := valid appender member
    rw [each appender member ap read, read, Option.bind_some, Option.bind_some, inherited]
    exact fun takes => calm ⟨formatter, own, appender, member, ap, read, takes⟩

theorem building_state (list : List LogAppenderDefine) (manager : Manager)
    (stored : start.objects.read logger = some object) (known : ∀ a ∈ list, a.type = 1 ∨ a.type = 2)
    (passing : ∀ a ∈ list, passes level a.level)
    (added : list.foldlM (addDefined logger) (prepare start logger i) = some manager) :
    ∃ current, manager.objects.read logger = some current ∧ current.level = i.level ∧ current.root = object.root ∧
      current.appenders = List.range' start.appenders.size list.length ∧
      ∀ appender ∈ current.appenders, ∃ ap, manager.appenders.read appender = some ap ∧ passes level ap.level := by
  obtain ⟨-, prepared, -, size, -⟩ := prepare_spec start logger object i stored
  obtain ⟨after, completed, adds⟩ := add_defined_run list (prepare start logger i) logger _ prepared known
  obtain rfl : after = manager := Option.some.inj (completed.symm.trans added)
  have fresh := adds.added
  rw [size] at fresh
  refine ⟨_, adds.stored, rfl, rfl, by rw [size]; rfl, ?_⟩
  intro appender member
  have range : appender ∈ List.range' start.appenders.size list.length := by
    rw [← size]
    exact member
  have read : after.appenders.read appender ∈ list.map fun a => some (definedAppender _ a) :=
    fresh ▸ List.mem_map_of_mem range
  obtain ⟨a, inList, same⟩ := List.mem_map.mp read
  exact ⟨definedAppender _ a, same.symm, passing a inList⟩

-- The logger has appenders under both definitions, and the event passes its
-- level and the level of each of them.
structure Scenario : Prop where
  present : start.loggers[i.name]? = some logger
  stored : start.objects.read logger = some object
  nonempty : object.appenders ≠ []
  passing : ∀ appender ∈ object.appenders, ∃ ap, start.appenders.read appender = some ap ∧ passes level ap.level
  oldLevel : passes level object.level
  listed : i.appenders ≠ []
  known : ∀ a ∈ i.appenders, a.type = 1 ∨ a.type = 2
  newPassing : ∀ a ∈ i.appenders, passes level a.level
  newLevel : passes level i.level

def finished : Manager := (lockedSteps i).foldl (LockedStep.apply logger) start

def Whole (delivery : Delivery) : Prop :=
  delivery.targets = (rendering start logger).map Prod.fst ∨
    delivery.targets = (rendering (finished start logger i) logger).map Prod.fst

def Rendered (delivery : Delivery) : Prop :=
  delivery = .appenders (rendering start logger) ∨ delivery = .appenders (rendering (finished start logger i) logger)

def Rebuilt (pending : List LockedStep) : Prop := LockedStep.clearAppender ∈ pending ∨ pending = []

def Unpainted (pending : List LockedStep) : Prop :=
  (LockedStep.clearAppender ∈ pending ∧ (Repaints start object i → ∃ formatter, LockedStep.setFormatter formatter ∈ pending)) ∨
    pending = []

theorem clear_not_added (list : List LogAppenderDefine) : LockedStep.clearAppender ∉ addSteps list := by
  simp [addSteps]

theorem formatter_not_added (list : List LogAppenderDefine) (formatter : LogFormatter) :
    LockedStep.setFormatter formatter ∉ addSteps list := by
  simp [addSteps]

theorem add_steps_nil_iff (list : List LogAppenderDefine) (known : ∀ a ∈ list, a.type = 1 ∨ a.type = 2) :
    addSteps list = [] ↔ list = [] := by
  cases list with
  | nil => simp [addSteps]
  | cons a rest =>
      have made := new_appender_adopts none a (known a List.mem_cons_self)
      cases created : newAppender a with
      | none =>
          rw [created] at made
          cases made
      | some ap => simp [addSteps, created]

theorem finished_added (known : ∀ a ∈ i.appenders, a.type = 1 ∨ a.type = 2) :
    i.appenders.foldlM (addDefined logger) (prepare start logger i) = some (finished start logger i) := by
  rw [add_steps_run logger i.appenders _ known, prepare_steps]
  simp only [finished, lockedSteps, List.foldl_cons, List.foldl_append, List.foldl_nil]
  rfl

theorem old_not_fresh (scenario : Scenario start logger object i level) (count : Nat) :
    object.appenders ≠ List.range' start.appenders.size count := by
  intro same
  obtain ⟨appender, rest, split⟩ := List.exists_cons_of_ne_nil scenario.nonempty
  obtain ⟨ap, read, -⟩ := scenario.passing appender (by simp [split])
  have member : appender ∈ List.range' start.appenders.size count := by simp [← same, split]
  exact absurd (List.mem_range'_1.mp member).1 (Nat.not_le_of_lt (Heap.read_bound _ _ _ read))

theorem new_targets (scenario : Scenario start logger object i level) :
    (rendering (finished start logger i) logger).map Prod.fst =
      List.range' start.appenders.size i.appenders.length := by
  obtain ⟨current, stored, -, -, appenders, -⟩ := building_state start logger object i level i.appenders _ scenario.stored
    scenario.known scenario.newPassing (finished_added start logger i scenario.known)
  rw [rendering_targets logger _ current stored, appenders]

theorem old_whole (scenario : Scenario start logger object i level) (manager : Manager) (current : Logger LogFormatter)
    (stored : manager.objects.read logger = some current) (same : current.appenders = object.appenders)
    (passing : ∀ appender ∈ current.appenders, ∃ ap, manager.appenders.read appender = some ap ∧ passes level ap.level) :
    dispatch manager logger level = .appenders (rendering manager logger) ∧
      Whole start logger i (dispatch manager logger level) ∧
      (Rendered start logger i (dispatch manager logger level) ↔ rendering manager logger = rendering start logger) := by
  have nonempty : current.appenders ≠ [] := by
    rw [same]
    exact scenario.nonempty
  have sent := dispatch_rendering logger level manager current stored nonempty passing
  have targets : (rendering manager logger).map Prod.fst = object.appenders := by
    rw [rendering_targets logger manager current stored, same]
  have other : rendering manager logger ≠ rendering (finished start logger i) logger := by
    intro equal
    rw [equal, new_targets start logger object i level scenario] at targets
    exact old_not_fresh start logger object i level scenario _ targets.symm
  refine ⟨sent, .inl ?_, ?_⟩
  · rw [sent, Delivery.targets, targets, rendering_targets logger start object scenario.stored]
  · rw [sent, Rendered, Delivery.appenders.injEq, Delivery.appenders.injEq, or_iff_left other]

-- While the list is rebuilt the event goes to as many of the new appenders as
-- there are, or on to the root logger.
theorem building_whole (scenario : Scenario start logger object i level) (count : Nat) (manager : Manager)
    (added : (i.appenders.take count).foldlM (addDefined logger) (prepare start logger i) = some manager) :
    (Whole start logger i (dispatch manager logger level) ↔ i.appenders.drop count = []) ∧
      (Rendered start logger i (dispatch manager logger level) ↔ i.appenders.drop count = []) := by
  obtain ⟨current, stored, -, root, appenders, passing⟩ := building_state start logger object i level
    (i.appenders.take count) manager scenario.stored (fun a member => scenario.known a (List.mem_of_mem_take member))
    (fun a member => scenario.newPassing a (List.mem_of_mem_take member)) added
  have old := rendering_targets logger start object scenario.stored
  have new := new_targets start logger object i level scenario
  by_cases complete : i.appenders.drop count = []
  · have all : i.appenders.take count = i.appenders := List.take_of_length_le (List.drop_eq_nil_iff.mp complete)
    rw [all] at added appenders
    obtain rfl : manager = finished start logger i :=
      Option.some.inj (added.symm.trans (finished_added start logger i scenario.known))
    have nonempty : current.appenders ≠ [] := by
      rw [appenders]
      simpa using scenario.listed
    have sent := dispatch_rendering logger level _ current stored nonempty passing
    refine ⟨iff_of_true (.inr ?_) complete, iff_of_true (.inr sent) complete⟩
    rw [sent, Delivery.targets]
  · have short : (i.appenders.take count).length < i.appenders.length := by
      rw [List.length_take]
      exact Nat.lt_of_le_of_lt (Nat.min_le_left _ _) (Nat.lt_of_not_le fun beyond => complete (List.drop_eq_nil_iff.mpr beyond))
    have targets := dispatch_targets logger level manager current stored passing
    have notWhole : ¬ Whole start logger i (dispatch manager logger level) := by
      rintro (same | same)
      · rw [targets, appenders, old] at same
        exact old_not_fresh start logger object i level scenario _ same.symm
      · rw [targets, appenders, new] at same
        have lengths := congrArg List.length same
        rw [List.length_range', List.length_range'] at lengths
        omega
    refine ⟨iff_of_false notWhole complete, iff_of_false ?_ complete⟩
    rintro (same | same)
    · exact notWhole (.inl (by rw [same, Delivery.targets]))
    · exact notWhole (.inr (by rw [same, Delivery.targets]))

theorem verdict (scenario : Scenario start logger object i level) (manager : Manager) (pending : List LockedStep)
    (stage : Stage start logger i manager pending) :
    (Whole start logger i (dispatch manager logger level) ↔ Rebuilt pending) ∧
      (Rendered start logger i (dispatch manager logger level) ↔ Unpainted start object i pending) := by
  have clearing : Rebuilt (formatterSteps i ++ .clearAppender :: addSteps i.appenders) := .inl (by simp)
  have painting : Repaints start object i → ∃ formatter, LockedStep.setFormatter formatter ∈ formatterSteps i := by
    rintro ⟨formatter, own, -⟩
    exact ⟨formatter, by simp [formatterSteps, own]⟩
  cases stage with
  | begun =>
      obtain ⟨-, whole, rendered⟩ := old_whole start logger object i level scenario start object scenario.stored rfl
        scenario.passing
      have unpainted : Unpainted start object i (lockedSteps i) := by
        refine .inl ⟨by simp [lockedSteps], fun repaints => ?_⟩
        obtain ⟨formatter, member⟩ := painting repaints
        exact ⟨formatter, by simp [lockedSteps, member]⟩
      exact ⟨iff_of_true whole (.inl (by simp [lockedSteps])), iff_of_true (rendered.mpr rfl) unpainted⟩
  | leveled =>
      have leveled := leveled_stored start logger object i scenario.stored
      obtain ⟨-, whole, rendered⟩ := old_whole start logger object i level scenario _ _ leveled rfl scenario.passing
      have same : rendering (start.setLevel logger i.level) logger = rendering start logger := by
        simp only [rendering, leveled, scenario.stored]
        rfl
      have unpainted : Unpainted start object i (formatterSteps i ++ .clearAppender :: addSteps i.appenders) := by
        refine .inl ⟨by simp, fun repaints => ?_⟩
        obtain ⟨formatter, member⟩ := painting repaints
        exact ⟨formatter, List.mem_append_left _ member⟩
      exact ⟨iff_of_true whole (.inl (by simp)), iff_of_true (rendered.mpr same) unpainted⟩
  | formatted formatter own =>
      have leveled := leveled_stored start logger object i scenario.stored
      obtain ⟨-, formatted, -⟩ := set_formatter_spec _ logger _ (some formatter) leveled
      have written := formatted_appenders start logger object i formatter scenario.stored
      have passing : ∀ appender ∈ object.appenders, ∃ ap,
          ((start.setLevel logger i.level).setFormatter logger (some formatter)).appenders.read appender = some ap ∧
            passes level ap.level := by
        intro appender member
        obtain ⟨ap, read, pass⟩ := scenario.passing appender member
        refine ⟨LogAppender.inherit (some formatter) ap, ?_, by rw [inherit_level]; exact pass⟩
        rw [written]
        exact Heap.read_modify_all_listed _ _ appender ap _ (LogAppender.inherit_idempotent _) member read
      obtain ⟨-, whole, rendered⟩ := old_whole start logger object i level scenario _ _ formatted rfl passing
      have painted := rendering_formatted_iff start logger object i formatter own scenario.stored fun appender member =>
        (scenario.passing appender member).imp fun ap both => both.1
      refine ⟨iff_of_true whole (.inl (by simp)), rendered.trans (painted.trans ?_)⟩
      simp [Unpainted, formatter_not_added]
  | building count manager added =>
      obtain ⟨whole, rendered⟩ := building_whole start logger object i level scenario count manager added
      rw [whole, rendered, Rebuilt, Unpainted, add_steps_nil_iff _ fun a member => scenario.known a (List.mem_of_mem_drop member)]
      simp [clear_not_added]

theorem stage_admits (scenario : Scenario start logger object i level) (manager : Manager) (pending : List LockedStep)
    (stage : Stage start logger i manager pending) : admits manager logger level = true := by
  cases stage with
  | begun => simp only [admits, scenario.stored, scenario.oldLevel]
  | leveled => simp only [admits, leveled_stored start logger object i scenario.stored, scenario.newLevel]
  | formatted formatter own =>
      obtain ⟨-, formatted, -⟩ := set_formatter_spec _ logger _ (some formatter)
        (leveled_stored start logger object i scenario.stored)
      simp only [admits, formatted, scenario.newLevel]
  | building count manager added =>
      obtain ⟨current, stored, currentLevel, -⟩ := building_state start logger object i level (i.appenders.take count)
        manager scenario.stored (fun a member => scenario.known a (List.mem_of_mem_take member))
        (fun a member => scenario.newPassing a (List.mem_of_mem_take member)) added
      simp only [admits, stored, currentLevel, scenario.newLevel]

-- A condition on the steps still to come, asked where the log thread takes the lock.
def AtDispatch (condition : List LockedStep → Prop) (state : Shared) (action : Action) : Prop :=
  action = .log → state.phase = .admitted → condition state.pending

-- After its dispatch the log thread takes no step; the callback may go on.
theorem done_run (condition : List LockedStep → Prop) (schedule : List Action) (state final : Shared)
    (delivery : Delivery) (done : state.phase = .done delivery) (completed : run (step logger level) state schedule = some final) :
    final.phase = .done delivery ∧ Along (step logger level) (AtDispatch condition) state schedule := by
  induction schedule generalizing state with
  | nil =>
      cases completed
      exact ⟨done, trivial⟩
  | cons action rest ih =>
      obtain ⟨next, stepped, remaining⟩ := Lib.run_cons_some _ state final action rest completed
      cases action with
      | log => simp [step, done] at stepped
      | callback =>
          obtain ⟨manager, pending, phase⟩ := state
          cases pending with
          | nil => cases stepped
          | cons first others =>
              cases stepped
              obtain ⟨finalDone, along⟩ := ih ⟨first.apply logger manager, others, phase⟩ done remaining
              refine ⟨finalDone, ?_, along⟩
              intro absurdity
              cases absurdity

theorem dispatch_run (scenario : Scenario start logger object i level) (property : Delivery → Prop)
    (condition : List LockedStep → Prop)
    (decides : ∀ manager pending, Stage start logger i manager pending →
      (property (dispatch manager logger level) ↔ condition pending))
    (schedule : List Action) (state final : Shared) (delivery : Delivery)
    (stage : Stage start logger i state.manager state.pending)
    (unfinished : state.phase = .waiting ∨ state.phase = .admitted)
    (completed : run (step logger level) state schedule = some final) (done : final.phase = .done delivery) :
    property delivery ↔ Along (step logger level) (AtDispatch condition) state schedule := by
  induction schedule generalizing state with
  | nil =>
      cases completed
      rcases unfinished with waiting | admitted
      · rw [waiting] at done
        cases done
      · rw [admitted] at done
        cases done
  | cons action rest ih =>
      obtain ⟨next, stepped, remaining⟩ := Lib.run_cons_some _ state final action rest completed
      have along (guard : AtDispatch condition state action) :
          Along (step logger level) (AtDispatch condition) state (action :: rest) ↔
            Along (step logger level) (AtDispatch condition) next rest := by
        simp only [Along, stepped, guard, true_and]
      cases action with
      | callback =>
          rw [along (by intro absurdity; cases absurdity)]
          obtain ⟨manager, pending, phase⟩ := state
          cases pending with
          | nil => cases stepped
          | cons first others =>
              cases stepped
              exact ih _ (stage_step start logger i scenario.known manager first others stage) unfinished remaining
      | log =>
          rcases unfinished with waiting | admitted
          · have admission := stage_admits start logger object i level scenario state.manager state.pending stage
            simp only [step, waiting, admission, if_true, Option.some.injEq] at stepped
            rw [along (by intro _ phase; rw [waiting] at phase; cases phase)]
            subst stepped
            exact ih _ stage (.inr rfl) remaining
          · simp only [step, admitted, Option.some.injEq] at stepped
            have same : next.phase = .done (dispatch state.manager logger level) := by rw [← stepped]
            obtain ⟨finalDone, later⟩ := done_run logger level condition rest next final _ same remaining
            rw [finalDone] at done
            cases done
            rw [decides state.manager state.pending stage]
            refine ⟨fun holds => ⟨fun _ _ => holds, ?_⟩, fun holds => holds.1 rfl admitted⟩
            simp only [step, admitted, stepped, later]

-- The event is caught between two lists exactly when the lock is taken after
-- clearAppender and before the last addAppender.
theorem log_whole_iff (scenario : Scenario start logger object i level) (schedule : List Action) (final : Shared)
    (delivery : Delivery)
    (completed : run (step logger level) ⟨start, lockedSteps i, .waiting⟩ schedule = some final)
    (done : final.phase = .done delivery) :
    (Whole start logger i delivery ↔
      Along (step logger level) (AtDispatch Rebuilt) ⟨start, lockedSteps i, .waiting⟩ schedule) ∧
    (Rendered start logger i delivery ↔
      Along (step logger level) (AtDispatch (Unpainted start object i)) ⟨start, lockedSteps i, .waiting⟩ schedule) :=
  ⟨dispatch_run start logger object i level scenario _ _
      (fun manager pending stage => (verdict start logger object i level scenario manager pending stage).1)
      schedule _ final delivery .begun (.inl rfl) completed done,
    dispatch_run start logger object i level scenario _ _
      (fun manager pending stage => (verdict start logger object i level scenario manager pending stage).2)
      schedule _ final delivery .begun (.inl rfl) completed done⟩

end Interleaving

section System

instance decidableRebuilt : DecidablePred Rebuilt := fun pending =>
  inferInstanceAs (Decidable (LockedStep.clearAppender ∈ pending ∨ pending = []))

instance decidableAtDispatch (condition : List LockedStep → Prop) [DecidablePred condition] (state : Shared)
    (action : Action) : Decidable (AtDispatch condition state action) :=
  inferInstanceAs (Decidable (action = .log → state.phase = .admitted → condition state.pending))

def systemLogger : Logger LogFormatter := ⟨"system", .info, [1], some defaultFormatter, some 0⟩

def systemManager : Manager where
  appenders := ⟨[⟨.stdout, .debug, some defaultFormatter, false, false⟩, ⟨.stdout, .debug, some defaultFormatter, false, true⟩]⟩
  objects := ⟨[⟨"root", .debug, [0], some defaultFormatter, none⟩, systemLogger]⟩
  loggers := (Std.TreeMap.empty.insert "root" 0).insert "system" 1
  root := 0

def systemDefine : LogDefine := ⟨"system", .info, "", [⟨2, .debug, "", ""⟩, ⟨1, .debug, "", "system.txt"⟩]⟩

def systemStart : Shared := ⟨systemManager, lockedSteps systemDefine, .waiting⟩

theorem system_scenario : Scenario systemManager 1 systemLogger systemDefine .error where
  present := by decide
  stored := rfl
  nonempty := by decide
  passing := by
    intro appender member
    rw [List.mem_singleton.mp member]
    exact ⟨_, rfl, rfl⟩
  oldLevel := rfl
  listed := by decide
  known := by decide
  newPassing := by decide
  newLevel := rfl

theorem log_whole_iff_after :
    ∃ final delivery, run (step 1 .error) systemStart [.log, .callback, .callback, .callback, .callback, .log] = some final ∧
      final.phase = .done delivery ∧ Whole systemManager 1 systemDefine delivery :=
  ⟨_, _, rfl, rfl, (log_whole_iff systemManager 1 systemLogger systemDefine .error system_scenario
    [.log, .callback, .callback, .callback, .callback, .log] _ _ rfl rfl).1.mpr (by decide)⟩

theorem event_caught_in_between :
    (∃ final, run (step 1 .error) systemStart [.log, .callback, .callback, .log] = some final ∧
        final.phase = .done (.root 0)) ∧
      (∃ final, run (step 1 .error) systemStart [.log, .callback, .callback, .callback, .log] = some final ∧
        final.phase = .done (.appenders [(2, some defaultFormatter)])) ∧
      ¬ Whole systemManager 1 systemDefine (.root 0) ∧
      ¬ Whole systemManager 1 systemDefine (.appenders [(2, some defaultFormatter)]) := by
  have old : (rendering systemManager 1).map Prod.fst = [1] := rfl
  have new : (rendering (finished systemManager 1 systemDefine) 1).map Prod.fst = [2, 3] := rfl
  refine ⟨⟨_, rfl, rfl⟩, ⟨_, rfl, rfl⟩, ?_, ?_⟩ <;>
    simp [Whole, old, new, Delivery.targets]

end System

end Sylar.Log.Reconfigure
