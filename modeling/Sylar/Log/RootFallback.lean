import Sylar.Log.Reconfigure

set_option autoImplicit false

namespace Sylar.Log.RootFallback

open Lib (Address Along Heap Throughout)
open LoggerManager LogIniter Reconfigure

-- The loggers that getLogger has handed out stay in the program's hands, also
-- after an eraseLogger.
structure State where
  manager : Manager
  returned : List Address

def start : State := ⟨LoggerManager.new defaultFormatter, []⟩

inductive Call where
  | newLogger (name : String)
  | newAppender (kind : AppenderKind)
  | getLogger (name : String)
  | pushLogger (str : String) (logger : Address)
  | eraseLogger (str : String)
  | addAppender (logger appender : Address)
  | delAppender (logger appender : Address)
  | clearAppender (logger : Address)
  | setLevel (logger : Address) (level : Level)
deriving DecidableEq, Repr

def step (state : State) (call : Call) : Option State :=
  let manager := state.manager
  let isLogger := fun logger => (manager.objects.read logger).isSome
  let isAppender := fun appender => (manager.appenders.read appender).isSome
  match call with
  | .newLogger name =>
      some { state with manager := { manager with objects := manager.objects.alloc (Logger.new defaultFormatter name) } }
  | .newAppender kind =>
      some { state with manager := { manager with appenders := manager.appenders.alloc (LogAppender.new kind) } }
  | .getLogger name =>
      let result := manager.getLogger defaultFormatter name
      some ⟨result.1, result.2 :: state.returned⟩
  | .pushLogger str logger =>
      if isLogger logger then some { state with manager := manager.pushLogger str logger } else none
  | .eraseLogger str => some { state with manager := manager.eraseLogger str }
  | .addAppender logger appender =>
      if isLogger logger && isAppender appender then some { state with manager := manager.addAppender logger appender }
      else none
  | .delAppender logger appender =>
      if isLogger logger then some { state with manager := manager.delAppender logger appender } else none
  | .clearAppender logger =>
      if isLogger logger then some { state with manager := manager.clearAppender logger } else none
  | .setLevel logger level =>
      if isLogger logger then some { state with manager := manager.setLevel logger level } else none

-- The appender is among those that log an event of the level sent to the logger.
def Reaches (manager : Manager) (level : Level) (logger appender : Address) : Prop :=
  ∃ target list formatter, log manager level (manager.objects.size + 1) logger = some (target, list) ∧
    (appender, formatter) ∈ list

def Delivers (state : State) : Prop :=
  ∀ logger ∈ state.returned, logger ≠ state.manager.root →
    ∀ object root, state.manager.objects.read logger = some object →
      state.manager.objects.read state.manager.root = some root → object.appenders = [] →
        ∀ level, passes level object.level → passes level root.level →
          ∀ appender ∈ root.appenders, ∀ ap, state.manager.appenders.read appender = some ap → passes level ap.level →
            Reaches state.manager level logger appender

-- Every logger falls back on the one root logger or on nothing, and nothing is
-- behind the root logger.
structure Anchored (manager : Manager) : Prop where
  top : ∃ root, manager.objects.read manager.root = some root ∧ root.root = none
  fallback : ∀ (logger : Address) (object : Logger LogFormatter), manager.objects.read logger = some object →
    object.root = none ∨ object.root = some manager.root
  attached : ∀ (logger : Address) (object : Logger LogFormatter), manager.objects.read logger = some object →
    ∀ appender ∈ object.appenders, appender < manager.appenders.size

def Silent (manager : Manager) : Prop := ∀ root, manager.objects.read manager.root = some root → root.appenders = []

-- A logger other than root that would have nowhere to log to with that list.
def StrandedWith (manager : Manager) (logger : Address) (list : Logger LogFormatter → List Address) : Prop :=
  logger ≠ manager.root ∧ ∃ object, manager.objects.read logger = some object ∧ object.root = none ∧ list object = []

def Stranded (manager : Manager) (logger : Address) : Prop := StrandedWith manager logger Logger.appenders

-- While the root logger has appenders, no logger that has been handed out is
-- left without appenders and without the fallback.
def Condition (state : State) : Call → Prop
  | .getLogger name =>
      ∀ logger, state.manager.loggers[name]? = some logger → Stranded state.manager logger → Silent state.manager
  | .addAppender logger appender =>
      ∀ object ap, state.manager.objects.read logger = some object → state.manager.appenders.read appender = some ap →
        logger = state.manager.root → ∀ other ∈ state.returned, ¬ Stranded state.manager other
  | .delAppender logger appender =>
      logger ∈ state.returned → StrandedWith state.manager logger (fun object => object.appenders.erase appender) →
        Silent state.manager
  | .clearAppender logger =>
      logger ∈ state.returned → StrandedWith state.manager logger (fun _ => []) → Silent state.manager
  | _ => True

-- All that matters about a logger here: what it falls back on and its list.
def links (manager : Manager) (logger : Address) : Option (Option Address × List Address) :=
  (manager.objects.read logger).map fun object => (object.root, object.appenders)

structure Valid (state : State) : Prop where
  anchored : Anchored state.manager
  returned : ∀ logger ∈ state.returned, logger < state.manager.objects.size
  named : ∀ (name : String) (logger : Address), state.manager.loggers[name]? = some logger →
    logger < state.manager.objects.size

def Good (state : State) : Prop :=
  Silent state.manager ∨ ∀ logger ∈ state.returned, ¬ Stranded state.manager logger

section Dispatch

variable (manager : Manager) (logger : Address) (object root : Logger LogFormatter) (level : Level)

theorem log_own (depth : Nat) (stored : manager.objects.read logger = some object) (passed : passes level object.level)
    (listed : object.appenders ≠ []) :
    log manager level (depth + 1) logger = some (logger, object.appenders.filterMap (renders manager level)) := by
  simp [log, admits, dispatch, stored, passed, listed]

theorem log_dropped (depth : Nat) (stored : manager.objects.read logger = some object) (empty : object.appenders = [])
    (bare : object.root = none) : log manager level (depth + 1) logger = none := by
  simp [log, dispatch, stored, empty, bare]

theorem log_filtered (depth : Nat) (stored : manager.objects.read logger = some object)
    (filtered : ¬ passes level object.level) : log manager level (depth + 1) logger = none := by
  simp [log, admits, stored, filtered]

theorem log_falls_back (depth : Nat) (target : Address) (stored : manager.objects.read logger = some object)
    (passed : passes level object.level) (empty : object.appenders = []) (fallback : object.root = some target) :
    log manager level (depth + 1) logger = log manager level depth target := by
  simp [log, admits, dispatch, stored, passed, empty, fallback]

theorem fatal_passes (threshold : Level) : passes .fatal threshold := by
  cases threshold <;> rfl

end Dispatch

section Links

variable (manager : Manager) (logger : Address)

theorem stranded_iff_links : Stranded manager logger ↔ logger ≠ manager.root ∧ links manager logger = some (none, []) := by
  simp [Stranded, StrandedWith, links, Option.map_eq_some_iff]

theorem silent_iff_links (anchored : Anchored manager) : Silent manager ↔ links manager manager.root = some (none, []) := by
  obtain ⟨root, stored, top⟩ := anchored.top
  simp [Silent, links, stored, top]

theorem delivers_iff_good (state : State) (anchored : Anchored state.manager) : Delivers state ↔ Good state := by
  obtain ⟨root, rootStored, top⟩ := anchored.top
  constructor
  · intro delivers
    by_contra bad
    obtain ⟨loud, missed⟩ := not_or.mp bad
    simp only [Silent, not_forall] at loud
    obtain ⟨_, same, listed⟩ := loud
    obtain rfl := Option.some.inj (rootStored.symm.trans same)
    obtain ⟨appender, member⟩ := List.exists_mem_of_ne_nil root.appenders listed
    obtain ⟨ap, read⟩ := Heap.read_of_lt _ appender (anchored.attached _ root rootStored appender member)
    simp only [not_forall, not_not] at missed
    obtain ⟨logger, handed, different, object, stored, bare, empty⟩ := missed
    obtain ⟨target, list, formatter, logged, -⟩ := delivers logger handed different object root stored rootStored empty
      .fatal (fatal_passes _) (fatal_passes _) appender member ap read (fatal_passes _)
    rw [log_dropped state.manager logger object .fatal _ stored empty bare] at logged
    cases logged
  · intro good logger handed different object other stored otherStored empty level passed rootPassed appender member ap
      read apPassed
    obtain rfl := Option.some.inj (rootStored.symm.trans otherStored)
    have listed : root.appenders ≠ [] := List.ne_nil_of_mem member
    have fallback : object.root = some state.manager.root := by
      rcases good with silent | found
      · exact absurd (silent root rootStored) listed
      · exact (anchored.fallback logger object stored).resolve_left fun bare =>
          found logger handed ⟨different, object, stored, bare, empty⟩
    have bound := Heap.read_bound state.manager.objects logger object stored
    obtain ⟨depth, enough⟩ := Nat.exists_eq_add_one_of_ne_zero (Nat.ne_of_gt (Nat.zero_lt_of_lt bound))
    refine ⟨state.manager.root, root.appenders.filterMap (renders state.manager level), ap.formatter, ?_,
      List.mem_filterMap.mpr ⟨appender, member, ?_⟩⟩
    · rw [log_falls_back state.manager logger object level _ _ stored passed empty fallback, enough,
        log_own state.manager _ root level depth rootStored rootPassed listed]
    · simp [renders, read, apPassed]

end Links

section Steps

variable (before after : Manager)

-- An operation that leaves what every present logger is linked to.
structure KeepsLinks : Prop where
  root : after.root = before.root
  kept : ∀ logger < before.objects.size, links after logger = links before logger

-- An operation on the list of one logger.
structure Relists (target : Address) (list : Logger LogFormatter → List Address) : Prop where
  root : after.root = before.root
  size : after.objects.size = before.objects.size
  loggers : after.loggers = before.loggers
  listed : links after target = (before.objects.read target).map fun object => (object.root, list object)
  kept : ∀ logger, logger ≠ target → links after logger = links before logger

theorem modify_logger_relists (target : Address) (change : Logger LogFormatter → Logger LogFormatter)
    (root : ∀ object, (change object).root = object.root) :
    Relists before (before.modifyLogger target change) target fun object => (change object).appenders := by
  refine ⟨rfl, Heap.size_modify _ _ _, rfl, ?_, ?_⟩
  · simp only [links, modifyLogger, Heap.read_modify_here, Option.map_map]
    congr 1
    funext object
    exact congrArg (·, (change object).appenders) (root object)
  · intro logger different
    simp only [links, modifyLogger, Heap.read_modify_elsewhere _ _ _ _ different]

theorem add_appender_relists (target appender : Address) :
    Relists before (before.addAppender target appender) target fun object => object.appenders ++ [appender] := by
  rw [addAppender]
  split
  · rename_i absent
    exact ⟨rfl, rfl, rfl, by simp [links, absent], fun _ _ => rfl⟩
  · refine ⟨rfl, Heap.size_modify _ _ _, rfl, ?_, ?_⟩
    · simp only [links, Heap.read_modify_here, Option.map_map]
      rfl
    · intro logger different
      simp only [links, Heap.read_modify_elsewhere _ _ _ _ different]

theorem links_alloc (object : Logger LogFormatter) (logger : Address) (bound : logger < before.objects.size) :
    links { before with objects := before.objects.alloc object } logger = links before logger := by
  simp only [links, Heap.read_alloc_old _ _ _ bound]

theorem get_logger_links (name : String) :
    KeepsLinks before (before.getLogger defaultFormatter name).1 := by
  rw [getLogger]
  split
  · exact ⟨rfl, fun _ _ => rfl⟩
  · exact ⟨rfl, fun logger bound => links_alloc before _ logger bound⟩

theorem push_logger_links (str : String) (pushed : Address) : KeepsLinks before (before.pushLogger str pushed) := by
  rw [pushLogger]
  split <;> exact ⟨rfl, fun _ _ => rfl⟩

theorem anchored_iff_links (manager : Manager) :
    Anchored manager ↔ (∃ list, links manager manager.root = some (none, list)) ∧
      ∀ logger fallback list, links manager logger = some (fallback, list) →
        (fallback = none ∨ fallback = some manager.root) ∧ ∀ appender ∈ list, appender < manager.appenders.size := by
  constructor
  · intro anchored
    obtain ⟨root, stored, top⟩ := anchored.top
    refine ⟨⟨root.appenders, by simp [links, stored, top]⟩, ?_⟩
    intro logger fallback list linked
    obtain ⟨object, read, same⟩ := Option.map_eq_some_iff.mp linked
    cases same
    exact ⟨anchored.fallback logger object read, anchored.attached logger object read⟩
  · intro linking
    obtain ⟨⟨list, linked⟩, each⟩ := linking
    obtain ⟨root, stored, same⟩ := Option.map_eq_some_iff.mp linked
    have linkedTo (logger : Address) (object : Logger LogFormatter) (read : manager.objects.read logger = some object) :
        links manager logger = some (object.root, object.appenders) := by
      simp [links, read]
    exact ⟨⟨root, stored, congrArg Prod.fst same⟩, fun logger object read => (each logger _ _ (linkedTo logger object read)).1,
      fun logger object read => (each logger _ _ (linkedTo logger object read)).2⟩

theorem relists_anchored (anchored : Anchored before) (target : Address) (list : Logger LogFormatter → List Address)
    (relists : Relists before after target list) (grown : before.appenders.size ≤ after.appenders.size)
    (known : ∀ object, before.objects.read target = some object → ∀ appender ∈ list object, appender < after.appenders.size) :
    Anchored after := by
  obtain ⟨⟨rootList, top⟩, each⟩ := (anchored_iff_links before).mp anchored
  rw [anchored_iff_links, relists.root]
  constructor
  · by_cases same : before.root = target
    · subst same
      obtain ⟨root, stored, same⟩ := Option.map_eq_some_iff.mp top
      have bare : root.root = none := congrArg Prod.fst same
      exact ⟨list root, by rw [relists.listed, stored, Option.map_some, bare]⟩
    · exact ⟨rootList, (relists.kept before.root same).trans top⟩
  · intro logger fallback linked present
    by_cases same : logger = target
    · subst same
      rw [relists.listed] at present
      obtain ⟨object, stored, equal⟩ := Option.map_eq_some_iff.mp present
      cases equal
      exact ⟨anchored.fallback logger object stored, known object stored⟩
    · rw [relists.kept logger same] at present
      obtain ⟨falls, bounded⟩ := each logger fallback linked present
      exact ⟨falls, fun appender member => Nat.lt_of_lt_of_le (bounded appender member) grown⟩

theorem same_links_anchored (anchored : Anchored before) (root : after.root = before.root)
    (kept : ∀ logger, links after logger = links before logger) (grown : before.appenders.size ≤ after.appenders.size) :
    Anchored after := by
  rw [anchored_iff_links] at anchored ⊢
  simp only [kept, root]
  refine ⟨anchored.1, fun logger fallback list present => ?_⟩
  obtain ⟨falls, bounded⟩ := anchored.2 logger fallback list present
  exact ⟨falls, fun appender member => Nat.lt_of_lt_of_le (bounded appender member) grown⟩

theorem alloc_anchored (anchored : Anchored before) (object : Logger LogFormatter) (empty : object.appenders = [])
    (falls : object.root = none ∨ object.root = some before.root) :
    Anchored { before with objects := before.objects.alloc object } := by
  have old := links_alloc before object
  obtain ⟨⟨rootList, top⟩, each⟩ := (anchored_iff_links before).mp anchored
  rw [anchored_iff_links]
  constructor
  · obtain ⟨root, stored, -⟩ := Option.map_eq_some_iff.mp top
    exact ⟨rootList, (old before.root (Heap.read_bound _ _ _ stored)).trans top⟩
  · intro logger fallback list present
    by_cases known : logger < before.objects.size
    · rw [old logger known] at present
      exact each logger fallback list present
    · obtain ⟨found, read, same⟩ := Option.map_eq_some_iff.mp present
      have bound := Heap.read_bound _ _ _ read
      rw [Heap.size_alloc] at bound
      have fresh : logger = before.objects.size := Nat.le_antisymm (Nat.le_of_lt_succ bound) (Nat.le_of_not_lt known)
      subst fresh
      rw [Heap.read_alloc_fresh] at read
      cases read
      cases same
      rw [empty]
      exact ⟨falls, by simp⟩

theorem get_logger_anchored (anchored : Anchored before) (name : String) :
    Anchored (before.getLogger defaultFormatter name).1 := by
  rw [getLogger]
  split
  · exact anchored
  · have made := alloc_anchored before anchored { Logger.new defaultFormatter name with root := some before.root } rfl
      (.inr rfl)
    exact same_links_anchored _ _ made rfl (fun _ => rfl) (Nat.le_refl _)

theorem new_appender_anchored (anchored : Anchored before) (appender : LogAppender LogFormatter) :
    Anchored { before with appenders := before.appenders.alloc appender } := by
  refine same_links_anchored before _ anchored rfl (fun _ => rfl) ?_
  rw [Heap.size_alloc]
  exact Nat.le_succ _

-- An operation that at most takes appenders out of one logger's list.
theorem modify_logger_anchored (anchored : Anchored before) (target : Address)
    (change : Logger LogFormatter → Logger LogFormatter) (root : ∀ object, (change object).root = object.root)
    (subset : ∀ object, (change object).appenders ⊆ object.appenders) : Anchored (before.modifyLogger target change) :=
  relists_anchored before _ anchored target _ (modify_logger_relists before target change root) (Nat.le_refl _)
    fun object stored _ member => anchored.attached target object stored _ (subset object member)

theorem add_appender_anchored (anchored : Anchored before) (target appender : Address)
    (bound : appender < before.appenders.size) : Anchored (before.addAppender target appender) := by
  have size : (before.addAppender target appender).appenders.size = before.appenders.size := by
    rw [addAppender]
    split
    · rfl
    · exact Heap.size_modify _ _ _
  apply relists_anchored before _ anchored target _ (add_appender_relists before target appender) (Nat.le_of_eq size.symm)
  intro object stored member listed
  rw [size]
  rcases List.mem_append.mp listed with old | new
  · exact anchored.attached target object stored member old
  · rw [List.mem_singleton.mp new]
    exact bound

end Steps

section Configuration

variable (manager : Manager)

theorem set_formatter_anchored (anchored : Anchored manager) (logger : Address) (formatter : Option LogFormatter) :
    Anchored (manager.setFormatter logger formatter) := by
  rw [LoggerManager.setFormatter]
  split
  · exact anchored
  · have relisted := modify_logger_anchored manager anchored logger (fun object => { object with formatter := formatter })
      (fun _ => rfl) fun _ => List.Subset.refl _
    refine same_links_anchored _ _ relisted rfl (fun _ => rfl) ?_
    rw [Heap.size_modify_all]
    exact Nat.le_refl _

theorem prepare_anchored (anchored : Anchored manager) (logger : Address) (i : LogDefine) :
    Anchored (prepare manager logger i) := by
  have leveled : Anchored (manager.setLevel logger i.level) :=
    modify_logger_anchored manager anchored logger _ (fun _ => rfl) fun _ => List.Subset.refl _
  have formatted : Anchored (setFormatterText (manager.setLevel logger i.level) logger i.formatter) := by
    rw [setFormatterText]
    split
    · exact set_formatter_anchored _ leveled logger _
    · exact leveled
  rw [prepare]
  split
  · exact modify_logger_anchored _ formatted logger _ (fun _ => rfl) fun _ => List.nil_subset _
  · exact modify_logger_anchored _ leveled logger _ (fun _ => rfl) fun _ => List.nil_subset _

theorem add_defined_anchored (anchored : Anchored manager) (logger : Address) (a : LogAppenderDefine) (next : Manager)
    (added : addDefined logger manager a = some next) : Anchored next := by
  obtain ⟨ap, _, rfl⟩ := Option.map_eq_some_iff.mp added
  apply add_appender_anchored _ (new_appender_anchored manager anchored ap)
  rw [Heap.size_alloc]
  exact Nat.lt_succ_self _

theorem apply_define_anchored (anchored : Anchored manager) (i : LogDefine) (next : Manager)
    (applied : applyDefine manager i = some next) : Anchored next :=
  Lib.run_invariant (addDefined (manager.getLogger defaultFormatter i.name).2) (fun _ _ => True) Anchored
    (fun current a following kept _ added =>
      add_defined_anchored current kept (manager.getLogger defaultFormatter i.name).2 a following added)
    i.appenders _ next (prepare_anchored _ (get_logger_anchored manager anchored i.name) _ i) (Lib.along_true _ _ _) applied

theorem apply_new_anchored (old : LogDefineSet) (anchored : Anchored manager) (i : LogDefine) (next : Manager)
    (applied : applyNew old manager i = some next) : Anchored next := by
  rw [applyNew] at applied
  split at applied
  · exact apply_define_anchored manager anchored i next applied
  · split at applied
    · exact apply_define_anchored manager anchored i next applied
    · cases applied
      exact anchored

theorem remove_old_anchored (new : LogDefineSet) (anchored : Anchored manager) (i : LogDefine) :
    Anchored (removeOld new manager i) := by
  rw [removeOld]
  split
  · exact anchored
  · have named := get_logger_anchored manager anchored i.name
    have leveled := modify_logger_anchored _ named (manager.getLogger defaultFormatter i.name).2
      (fun object => { object with level := .unknow }) (fun _ => rfl) fun _ => List.Subset.refl _
    exact modify_logger_anchored _ leveled _ _ (fun _ => rfl) fun _ => List.nil_subset _

-- A configuration that goes through leaves the manager in such a state, too.
theorem on_logs_changed_anchored (old new : LogDefineSet) (anchored : Anchored manager) (next : Manager)
    (changed : onLogsChanged old new manager = some next) : Anchored next := by
  obtain ⟨applied, applying, rfl⟩ := Option.map_eq_some_iff.mp changed
  have kept : Anchored applied := Lib.run_invariant (applyNew old) (fun _ _ => True) Anchored
    (fun current i following kept _ stepped => apply_new_anchored current old kept i following stepped)
    new.defines manager applied anchored (Lib.along_true _ _ _) applying
  have removed (defines : List LogDefine) (current : Manager) (start : Anchored current) :
      Anchored (defines.foldl (removeOld new) current) := by
    induction defines generalizing current with
    | nil => exact start
    | cons i rest ih => exact ih _ (remove_old_anchored current new start i)
  exact removed old.defines applied kept

end Configuration

section Goodness

variable (state next : State)

theorem keeps_links_good (valid : Valid state) (anchored : Anchored next.manager)
    (keeps : KeepsLinks state.manager next.manager) (returned : next.returned = state.returned) (good : Good state) :
    Good next := by
  obtain ⟨root, stored, -⟩ := valid.anchored.top
  have atRoot := keeps.kept state.manager.root (Heap.read_bound _ _ _ stored)
  rcases good with silent | found
  · left
    rw [silent_iff_links _ anchored, keeps.root, atRoot, ← silent_iff_links _ valid.anchored]
    exact silent
  · right
    intro logger handed
    rw [returned] at handed
    rw [stranded_iff_links, keeps.root, keeps.kept logger (valid.returned logger handed), ← stranded_iff_links]
    exact found logger handed

-- What the new list of one logger does to all loggers handed out.
theorem relists_good_iff (valid : Valid state) (anchored : Anchored next.manager) (target : Address)
    (list : Logger LogFormatter → List Address) (relists : Relists state.manager next.manager target list)
    (returned : next.returned = state.returned) (object : Logger LogFormatter)
    (stored : state.manager.objects.read target = some object) (good : Good state) :
    Good next ↔
      (target = state.manager.root → list object = [] ∨ ∀ other ∈ state.returned, ¬ Stranded state.manager other) ∧
        (target ∈ state.returned → StrandedWith state.manager target list → Silent state.manager) := by
  have listed : links next.manager target = some (object.root, list object) := by
    rw [relists.listed, stored, Option.map_some]
  have elsewhere (other : Address) (different : other ≠ target) :
      Stranded next.manager other ↔ Stranded state.manager other := by
    rw [stranded_iff_links, stranded_iff_links, relists.root, relists.kept other different]
  rw [Good, returned, silent_iff_links _ anchored, relists.root]
  by_cases top : target = state.manager.root
  · have bare : object.root = none := by
      obtain ⟨root, rootStored, none⟩ := valid.anchored.top
      rw [← top, stored] at rootStored
      rw [Option.some.inj rootStored, none]
    have others : (∀ other ∈ state.returned, ¬ Stranded next.manager other) ↔
        ∀ other ∈ state.returned, ¬ Stranded state.manager other := by
      refine forall₂_congr fun other _ => not_congr ?_
      by_cases same : other = target
      · subst same
        exact iff_of_false (fun stranded => stranded.1 (top.trans relists.root.symm)) (fun stranded => stranded.1 top)
      · exact elsewhere other same
    have apart : ¬ StrandedWith state.manager target list := fun stranded => stranded.1 top
    rw [← top, listed, bare, others]
    simp [apart]
  · have silent : links next.manager state.manager.root = some (none, []) ↔ Silent state.manager := by
      rw [relists.kept _ (Ne.symm top), silent_iff_links _ valid.anchored]
    have here : Stranded next.manager target ↔ StrandedWith state.manager target list := by
      rw [stranded_iff_links, listed, relists.root]
      simp [StrandedWith, stored]
    rw [silent]
    constructor
    · intro settled
      refine ⟨fun same => absurd same top, fun handed stranded => ?_⟩
      exact settled.resolve_right fun found => found target handed (here.mpr stranded)
    · intro conditions
      obtain ⟨-, quiet⟩ := conditions
      by_cases hushed : Silent state.manager
      · exact .inl hushed
      · refine .inr fun other handed stranded => ?_
        by_cases same : other = target
        · subst same
          exact hushed (quiet handed (here.mp stranded))
        · exact good.resolve_left hushed other handed ((elsewhere other same).mp stranded)

theorem relists_valid (valid : Valid state) (target : Address) (list : Logger LogFormatter → List Address)
    (relists : Relists state.manager next.manager target list) (returned : next.returned = state.returned)
    (anchored : Anchored next.manager) : Valid next := by
  refine ⟨anchored, ?_, ?_⟩
  · intro logger handed
    rw [returned] at handed
    rw [relists.size]
    exact valid.returned logger handed
  · intro name logger present
    rw [relists.loggers] at present
    rw [relists.size]
    exact valid.named name logger present

theorem get_logger_valid (valid : Valid state) (name : String) :
    Valid ⟨(state.manager.getLogger defaultFormatter name).1,
      (state.manager.getLogger defaultFormatter name).2 :: state.returned⟩ := by
  have made := get_logger_anchored _ valid.anchored name
  rw [getLogger] at made ⊢
  split
  · rename_i logger present
    refine ⟨valid.anchored, fun other handed => ?_, valid.named⟩
    rcases List.mem_cons.mp handed with same | old
    · rw [same]
      exact valid.named name logger present
    · exact valid.returned other old
  · rename_i absent
    rw [absent] at made
    refine ⟨made, ?_, ?_⟩
    · intro other handed
      rw [Heap.size_alloc]
      rcases List.mem_cons.mp handed with same | old
      · rw [same]
        exact Nat.lt_succ_self _
      · exact Nat.lt_succ_of_lt (valid.returned other old)
    · intro other logger present
      rw [Heap.size_alloc]
      rw [Std.TreeMap.getElem?_insert] at present
      split at present
      · rw [← Option.some.inj present]
        exact Nat.lt_succ_self _
      · exact Nat.lt_succ_of_lt (valid.named other logger present)

theorem push_logger_valid (valid : Valid state) (str : String) (pushed : Address)
    (bound : pushed < state.manager.objects.size) : Valid { state with manager := state.manager.pushLogger str pushed } := by
  rw [pushLogger]
  split
  · refine ⟨same_links_anchored _ _ valid.anchored rfl (fun _ => rfl) (Nat.le_refl _), valid.returned, ?_⟩
    intro other logger present
    rw [Std.TreeMap.getElem?_insert] at present
    split at present
    · rw [← Option.some.inj present]
      exact bound
    · exact valid.named other logger present
  · exact valid

theorem erase_logger_valid (valid : Valid state) (str : String) :
    Valid { state with manager := state.manager.eraseLogger str } := by
  refine ⟨same_links_anchored _ _ valid.anchored rfl (fun _ => rfl) (Nat.le_refl _), valid.returned, ?_⟩
  intro other logger present
  rw [eraseLogger, Std.TreeMap.getElem?_erase] at present
  split at present
  · cases present
  · exact valid.named other logger present

theorem step_valid (call : Call) (valid : Valid state) (stepped : step state call = some next) : Valid next := by
  have anchored := valid.anchored
  cases call with
  | newLogger name =>
      cases stepped
      refine ⟨alloc_anchored _ anchored _ rfl (.inl rfl), ?_, ?_⟩
      · intro logger handed
        rw [Heap.size_alloc]
        exact Nat.lt_succ_of_lt (valid.returned logger handed)
      · intro name logger present
        rw [Heap.size_alloc]
        exact Nat.lt_succ_of_lt (valid.named name logger present)
  | newAppender kind =>
      cases stepped
      exact ⟨new_appender_anchored _ anchored _, valid.returned, valid.named⟩
  | getLogger name =>
      cases stepped
      exact get_logger_valid state valid name
  | pushLogger str pushed =>
      simp only [step] at stepped
      split at stepped
      · rename_i isLogger
        cases stepped
        obtain ⟨object, stored⟩ := Option.isSome_iff_exists.mp isLogger
        exact push_logger_valid state valid str pushed (Heap.read_bound _ _ _ stored)
      · cases stepped
  | eraseLogger str =>
      cases stepped
      exact erase_logger_valid state valid str
  | addAppender target appender =>
      simp only [step] at stepped
      split at stepped
      · rename_i both
        cases stepped
        simp only [Bool.and_eq_true, Option.isSome_iff_exists] at both
        obtain ⟨-, ap, read⟩ := both
        exact relists_valid state _ valid target _ (add_appender_relists _ target appender) rfl
          (add_appender_anchored _ anchored target appender (Heap.read_bound _ _ _ read))
      · cases stepped
  | delAppender target appender =>
      simp only [step] at stepped
      split at stepped
      · cases stepped
        exact relists_valid state _ valid target _ (modify_logger_relists _ target _ fun _ => rfl) rfl
          (modify_logger_anchored _ anchored target _ (fun _ => rfl) fun _ => List.erase_subset)
      · cases stepped
  | clearAppender target =>
      simp only [step] at stepped
      split at stepped
      · cases stepped
        exact relists_valid state _ valid target _ (modify_logger_relists _ target _ fun _ => rfl) rfl
          (modify_logger_anchored _ anchored target _ (fun _ => rfl) fun _ => List.nil_subset _)
      · cases stepped
  | setLevel target level =>
      simp only [step] at stepped
      split at stepped
      · cases stepped
        exact relists_valid state _ valid target _ (modify_logger_relists _ target _ fun _ => rfl) rfl
          (modify_logger_anchored _ anchored target _ (fun _ => rfl) fun _ => List.Subset.refl _)
      · cases stepped

theorem get_logger_stranded (name : String) :
    Stranded (state.manager.getLogger defaultFormatter name).1 (state.manager.getLogger defaultFormatter name).2 ↔
      ∃ logger, state.manager.loggers[name]? = some logger ∧ Stranded state.manager logger := by
  rw [getLogger]
  split
  · rename_i logger present
    simp [present]
  · rename_i absent
    simp only [absent, reduceCtorEq, false_and, exists_false, iff_false, stranded_iff_links]
    intro stranded
    obtain ⟨-, linked⟩ := stranded
    simp [links] at linked

-- The logger handed out is stranded only if the map held it so.
theorem get_logger_good_iff (valid : Valid state) (good : Good state) (name : String) :
    Good ⟨(state.manager.getLogger defaultFormatter name).1,
      (state.manager.getLogger defaultFormatter name).2 :: state.returned⟩ ↔ Condition state (.getLogger name) := by
  have kept := get_logger_links state.manager name
  have anchored := get_logger_anchored _ valid.anchored name
  have before := keeps_links_good state ⟨(state.manager.getLogger defaultFormatter name).1, state.returned⟩ valid anchored
    kept rfl good
  obtain ⟨root, stored, -⟩ := valid.anchored.top
  have silent : Silent (state.manager.getLogger defaultFormatter name).1 ↔ Silent state.manager := by
    rw [silent_iff_links _ valid.anchored, silent_iff_links _ anchored, kept.root, kept.kept _ (Heap.read_bound _ _ _ stored)]
  simp only [Good, List.forall_mem_cons, Condition] at before ⊢
  rw [get_logger_stranded state name]
  constructor
  · intro settled logger present stranded
    rcases settled with hushed | ⟨found, -⟩
    · exact silent.mp hushed
    · exact absurd ⟨logger, present, stranded⟩ found
  · intro condition
    by_cases hushed : Silent state.manager
    · exact .inl (silent.mpr hushed)
    · refine .inr ⟨?_, before.resolve_left fun quiet => hushed (silent.mp quiet)⟩
      intro taken
      obtain ⟨logger, present, stranded⟩ := taken
      exact hushed (condition logger present stranded)

theorem step_good_iff (call : Call) (valid : Valid state) (good : Good state) (stepped : step state call = some next) :
    Good next ↔ Condition state call := by
  have validNext := step_valid state next call valid stepped
  cases call with
  | newLogger name =>
      cases stepped
      exact iff_of_true (keeps_links_good state _ valid validNext.anchored ⟨rfl, links_alloc _ _⟩ rfl good) trivial
  | newAppender kind =>
      cases stepped
      exact iff_of_true (keeps_links_good state _ valid validNext.anchored ⟨rfl, fun _ _ => rfl⟩ rfl good) trivial
  | getLogger name =>
      cases stepped
      exact get_logger_good_iff state valid good name
  | pushLogger str pushed =>
      simp only [step] at stepped
      split at stepped
      · cases stepped
        exact iff_of_true (keeps_links_good state _ valid validNext.anchored (push_logger_links _ str pushed) rfl good)
          trivial
      · cases stepped
  | eraseLogger str =>
      cases stepped
      exact iff_of_true (keeps_links_good state _ valid validNext.anchored ⟨rfl, fun _ _ => rfl⟩ rfl good) trivial
  | addAppender target appender =>
      simp only [step] at stepped
      split at stepped
      · rename_i both
        cases stepped
        simp only [Bool.and_eq_true, Option.isSome_iff_exists] at both
        obtain ⟨⟨object, stored⟩, ap, read⟩ := both
        rw [relists_good_iff state _ valid validNext.anchored target _ (add_appender_relists _ target appender) rfl object
          stored good]
        simp [Condition, StrandedWith, stored, read]
      · cases stepped
  | delAppender target appender =>
      simp only [step] at stepped
      split at stepped
      · rename_i present
        cases stepped
        obtain ⟨object, stored⟩ := Option.isSome_iff_exists.mp present
        rw [relists_good_iff state _ valid validNext.anchored target _
          (modify_logger_relists _ target _ fun _ => rfl) rfl object stored good]
        refine and_iff_right fun top => ?_
        rcases good with silent | found
        · rw [top] at stored
          exact .inl (by simp [silent object stored])
        · exact .inr found
      · cases stepped
  | clearAppender target =>
      simp only [step] at stepped
      split at stepped
      · rename_i present
        cases stepped
        obtain ⟨object, stored⟩ := Option.isSome_iff_exists.mp present
        rw [relists_good_iff state _ valid validNext.anchored target _
          (modify_logger_relists _ target _ fun _ => rfl) rfl object stored good]
        exact and_iff_right fun _ => .inl rfl
      · cases stepped
  | setLevel target level =>
      simp only [step] at stepped
      split at stepped
      · rename_i present
        cases stepped
        obtain ⟨object, stored⟩ := Option.isSome_iff_exists.mp present
        rw [relists_good_iff state _ valid validNext.anchored target _
          (modify_logger_relists _ target _ fun _ => rfl) rfl object stored good]
        refine iff_of_true ⟨fun top => ?_, fun handed stranded => ?_⟩ trivial
        · rcases good with silent | found
          · rw [top] at stored
            exact .inl (silent object stored)
          · exact .inr found
        · exact good.resolve_right fun found => found target handed stranded
      · cases stepped

end Goodness

section Runs

theorem start_valid : Valid start := by
  refine ⟨⟨⟨_, new_root defaultFormatter, rfl⟩, ?_, ?_⟩, by simp [start], ?_⟩
  · intro logger object stored
    have bound := Heap.read_bound _ _ _ stored
    obtain rfl := Nat.lt_one_iff.mp bound
    cases stored
    exact .inl rfl
  · intro logger object stored appender member
    have bound := Heap.read_bound _ _ _ stored
    obtain rfl := Nat.lt_one_iff.mp bound
    cases stored
    rw [List.mem_singleton.mp member]
    exact Nat.one_pos
  · intro name logger present
    obtain ⟨object, stored⟩ := (new_well_formed defaultFormatter).named name logger present
    exact Heap.read_bound _ _ _ stored

theorem refused_condition (state : State) (call : Call) (refused : step state call = none) : Condition state call := by
  cases call with
  | addAppender logger appender =>
      intro object ap stored read
      simp [step, stored, read] at refused
  | delAppender logger appender =>
      intro _ stranded
      obtain ⟨-, object, stored, -⟩ := stranded
      simp [step, stored] at refused
  | clearAppender logger =>
      intro _ stranded
      obtain ⟨-, object, stored, -⟩ := stranded
      simp [step, stored] at refused
  | getLogger name => cases refused
  | _ => trivial

theorem delivers_throughout_iff (calls : List Call) :
    Throughout step Delivers start calls ↔ Along step Condition start calls := by
  refine Lib.throughout_iff_along step Delivers Valid (fun _ _ => True) Condition
    (fun state call next valid _ stepped => step_valid state next call valid stepped) ?_ refused_condition calls start
    start_valid ?_ (Lib.along_true step start calls)
  · intro state call next valid delivers _ stepped
    rw [delivers_iff_good next (step_valid state next call valid stepped).anchored]
    exact step_good_iff state next call valid ((delivers_iff_good state valid.anchored).mp delivers) stepped
  · exact fun logger handed => absurd handed List.not_mem_nil

def pushedCalls : List Call := [.newLogger "root", .pushLogger "file_fatal" 1, .getLogger "file_fatal"]

-- The program's own logger knows no root logger, and pushLogger does not tell it.
theorem pushed_logger_drops : ¬ ∀ calls, Throughout step Delivers start calls := by
  intro claimed
  let manager := LoggerManager.new defaultFormatter
  let final : State :=
    ⟨{ manager with
        objects := manager.objects.alloc (Logger.new defaultFormatter "root")
        loggers := manager.loggers.insert "file_fatal" 1 }, [1]⟩
  have completed : Lib.run step start pushedCalls = some final := rfl
  have delivers : Delivers final := Lib.throughout_reached step Delivers pushedCalls [] start final (claimed _) completed
  obtain ⟨target, list, formatter, logged, -⟩ := delivers 1 List.mem_cons_self (by decide) _ _ rfl rfl rfl .fatal rfl rfl 0
    List.mem_cons_self _ rfl rfl
  rw [log_dropped final.manager 1 (Logger.new defaultFormatter "root") .fatal _ rfl rfl rfl] at logged
  cases logged

end Runs

-- Every format item that an event is put through when it is logged through its
-- logger, with what the item prints. Logger::log hands itself to its appenders,
-- so behind the fallback that is the root logger. Each run of format has buffers
-- of its own.
def rendered (strftime : String → Nat → String) (bufs : Nat → Nat → String) (manager : Manager) (level : Level)
    (event : LogEvent) : List (FormatItem × String) :=
  match log manager level (manager.objects.size + 1) event.logger with
  | none => []
  | some (self, list) =>
      match manager.objects.read self with
      | none => []
      | some logger => (list.mapIdx fun run entry =>
          match entry.2 with
          | none => []
          | some formatter => formatter.items.mapIdx fun place item =>
              (item, item.format strftime (bufs run place) logger level event)).flatten

-- LogEventWrap::~LogEventWrap logs at the event's own level.
def wrapRendered (strftime : String → Nat → String) (bufs : Nat → Nat → String) (manager : Manager) (event : LogEvent) :
    List (FormatItem × String) :=
  rendered strftime bufs manager event.level event

def NamesIssuer (manager : Manager) (event : LogEvent) (items : List (FormatItem × String)) : Prop :=
  ∀ issuer, manager.objects.read event.logger = some issuer →
    ∀ text, (FormatItem.loggerName, text) ∈ items → text = issuer.name

-- The event goes over the fallback to an appender of root that prints a name.
def PrintsRootName (manager : Manager) (level : Level) (issuer root : Logger LogFormatter) : Prop :=
  issuer.appenders = [] ∧ issuer.root = some manager.root ∧ passes level issuer.level ∧ passes level root.level ∧
    ∃ appender ∈ root.appenders, ∃ ap formatter, manager.appenders.read appender = some ap ∧ passes level ap.level ∧
      ap.formatter = some formatter ∧ FormatItem.loggerName ∈ formatter.items

def NamesAgree (manager : Manager) (level : Level) (event : LogEvent) : Prop :=
  ∀ issuer root, manager.objects.read event.logger = some issuer → manager.objects.read manager.root = some root →
    PrintsRootName manager level issuer root → root.name = issuer.name

section Issuers

variable (strftime : String → Nat → String) (bufs : Nat → Nat → String) (manager : Manager) (level : Level) (event : LogEvent)

theorem rendered_logged (self : Address) (logger : Logger LogFormatter)
    (logged : log manager level (manager.objects.size + 1) event.logger =
      some (self, logger.appenders.filterMap (renders manager level)))
    (stored : manager.objects.read self = some logger) (text : String) :
    (FormatItem.loggerName, text) ∈ rendered strftime bufs manager level event ↔
      text = logger.name ∧ ∃ appender ∈ logger.appenders, ∃ ap formatter,
        manager.appenders.read appender = some ap ∧ passes level ap.level ∧ ap.formatter = some formatter ∧
          FormatItem.loggerName ∈ formatter.items := by
  simp only [rendered, logged, stored]
  constructor
  · intro rendering
    obtain ⟨printed, inRuns, inPrinted⟩ := List.mem_flatten.mp rendering
    obtain ⟨run, bound, rfl⟩ := List.mem_mapIdx.mp inRuns
    obtain ⟨appender, member, taken⟩ := List.mem_filterMap.mp (List.getElem_mem bound)
    simp only [renders, Option.bind_eq_some_iff] at taken
    obtain ⟨ap, read, admitted⟩ := taken
    split at admitted
    · rename_i passed
      have entry := Option.some.inj admitted
      simp only [← entry] at inPrinted
      cases formats : ap.formatter with
      | none => simp [formats] at inPrinted
      | some formatter =>
          simp only [formats] at inPrinted
          obtain ⟨place, within, same⟩ := List.mem_mapIdx.mp inPrinted
          have item : formatter.items[place] = .loggerName := congrArg Prod.fst same
          have name := congrArg Prod.snd same
          rw [item] at name
          exact ⟨name.symm, appender, member, ap, formatter, read, passed, formats, item ▸ List.getElem_mem within⟩
    · cases admitted
  · intro prints
    obtain ⟨rfl, appender, member, ap, formatter, read, passed, formats, inItems⟩ := prints
    have inList : (appender, ap.formatter) ∈ logger.appenders.filterMap (renders manager level) :=
      List.mem_filterMap.mpr ⟨appender, member, by simp [renders, read, passed]⟩
    obtain ⟨run, bound, entry⟩ := List.getElem_of_mem inList
    obtain ⟨place, within, item⟩ := List.getElem_of_mem inItems
    refine List.mem_flatten.mpr ⟨_, List.mem_mapIdx.mpr ⟨run, bound, rfl⟩, ?_⟩
    simp only [entry, formats]
    exact List.mem_mapIdx.mpr ⟨place, within, by rw [item]; rfl⟩

theorem rendered_nowhere (nowhere : log manager level (manager.objects.size + 1) event.logger = none) :
    rendered strftime bufs manager level event = [] := by
  simp only [rendered, nowhere]

-- One logger's list decides which names are printed: its own, root's or none.
theorem issuer_printed_iff (anchored : Anchored manager) (issuer root : Logger LogFormatter)
    (stored : manager.objects.read event.logger = some issuer) (rootStored : manager.objects.read manager.root = some root)
    (top : root.root = none) :
    (∀ text, (FormatItem.loggerName, text) ∈ rendered strftime bufs manager level event → text = issuer.name) ↔
      (PrintsRootName manager level issuer root → root.name = issuer.name) := by
  have bound := Heap.read_bound _ _ _ stored
  obtain ⟨depth, enough⟩ := Nat.exists_eq_add_one_of_ne_zero (Nat.ne_of_gt (Nat.zero_lt_of_lt bound))
  by_cases passed : passes level issuer.level
  · by_cases own : issuer.appenders ≠ []
    · have logged := log_own manager event.logger issuer level manager.objects.size stored passed own
      have printed := rendered_logged strftime bufs manager level event event.logger issuer logged stored
      exact iff_of_true (fun text inItems => ((printed text).mp inItems).1) fun prints => absurd prints.1 own
    · obtain empty : issuer.appenders = [] := not_not.mp own
      rcases anchored.fallback event.logger issuer stored with bare | fallback
      · have nowhere := log_dropped manager event.logger issuer level manager.objects.size stored empty bare
        rw [rendered_nowhere strftime bufs manager level event nowhere]
        simp [PrintsRootName, bare]
      · have forwarded := log_falls_back manager event.logger issuer level manager.objects.size manager.root stored
          passed empty fallback
        rw [enough] at forwarded
        by_cases rootPassed : passes level root.level
        · by_cases listed : root.appenders ≠ []
          · have logged := forwarded.trans (log_own manager manager.root root level depth rootStored rootPassed listed)
            rw [← enough] at logged
            have printed := rendered_logged strftime bufs manager level event manager.root root logged rootStored
            constructor
            · intro named rootPrints
              obtain ⟨-, -, -, -, prints⟩ := rootPrints
              exact named root.name ((printed root.name).mpr ⟨rfl, prints⟩)
            · intro same text inItems
              obtain ⟨rfl, prints⟩ := (printed text).mp inItems
              exact same ⟨empty, fallback, passed, rootPassed, prints⟩
          · obtain silent : root.appenders = [] := not_not.mp listed
            have nowhere := forwarded.trans (log_dropped manager manager.root root level depth rootStored silent top)
            rw [← enough] at nowhere
            rw [rendered_nowhere strftime bufs manager level event nowhere]
            simp [PrintsRootName, silent]
        · have nowhere := forwarded.trans (log_filtered manager manager.root root level depth rootStored rootPassed)
          rw [← enough] at nowhere
          rw [rendered_nowhere strftime bufs manager level event nowhere]
          simp [PrintsRootName, rootPassed]
  · have nowhere := log_filtered manager event.logger issuer level manager.objects.size stored passed
    rw [rendered_nowhere strftime bufs manager level event nowhere]
    simp [PrintsRootName, passed]

theorem rendered_names_issuer_iff (anchored : Anchored manager) :
    NamesIssuer manager event (rendered strftime bufs manager level event) ↔ NamesAgree manager level event := by
  obtain ⟨root, rootStored, top⟩ := anchored.top
  cases stored : manager.objects.read event.logger with
  | none => simp [NamesIssuer, NamesAgree, stored]
  | some issuer =>
      have same := issuer_printed_iff strftime bufs manager level event anchored issuer root stored rootStored top
      constructor
      · intro named found other foundStored otherStored
        cases stored.symm.trans foundStored
        cases rootStored.symm.trans otherStored
        exact same.mp (named issuer stored)
      · intro condition found foundStored
        cases stored.symm.trans foundStored
        exact same.mpr (condition issuer root stored rootStored)

theorem names_issuer_iff (anchored : Anchored manager) :
    (NamesIssuer manager event (rendered strftime bufs manager level event) ↔ NamesAgree manager level event) ∧
      (NamesIssuer manager event (wrapRendered strftime bufs manager event) ↔ NamesAgree manager event.level event) :=
  ⟨rendered_names_issuer_iff strftime bufs manager level event anchored,
    rendered_names_issuer_iff strftime bufs manager event.level event anchored⟩

-- The manager after LoggerManager's constructor, setFormatter("%c") on root and
-- getLogger("system").
def systemManager : Manager :=
  (((LoggerManager.new defaultFormatter).setFormatter 0 (some (LogFormatter.new "%c"))).getLogger defaultFormatter "system").1

def systemEvent : LogEvent := ⟨"main.cc", 1, 0, 0, 0, 0, 1, .info, "started"⟩

theorem system_manager_anchored : Anchored systemManager := by
  have objects : systemManager.objects.cells =
      [{ Logger.new defaultFormatter "root" with appenders := [0], formatter := some (LogFormatter.new "%c") },
        { Logger.new defaultFormatter "system" with root := some 0 }] := rfl
  refine ⟨⟨_, rfl, rfl⟩, ?_, ?_⟩
  · intro logger object stored
    have member : object ∈ systemManager.objects.cells := List.mem_of_getElem? stored
    rw [objects] at member
    rcases List.mem_cons.mp member with rfl | second
    · exact .inl rfl
    · rw [List.mem_singleton.mp second]
      exact .inr rfl
  · intro logger object stored appender inList
    have member : object ∈ systemManager.objects.cells := List.mem_of_getElem? stored
    rw [objects] at member
    rcases List.mem_cons.mp member with rfl | second
    · rw [List.mem_singleton.mp inList]
      exact Nat.one_pos
    · rw [List.mem_singleton.mp second] at inList
      cases inList

theorem names_issuer_iff_system :
    (NamesIssuer systemManager systemEvent (rendered (fun _ _ => "") (fun _ _ => "") systemManager .fatal systemEvent) ↔
        NamesAgree systemManager .fatal systemEvent) ∧
      (NamesIssuer systemManager systemEvent (wrapRendered (fun _ _ => "") (fun _ _ => "") systemManager systemEvent) ↔
        NamesAgree systemManager .info systemEvent) :=
  names_issuer_iff (fun _ _ => "") (fun _ _ => "") systemManager .fatal systemEvent system_manager_anchored

theorem root_name_printed :
    ¬ ∀ strftime bufs manager event, Anchored manager → NamesIssuer manager event (wrapRendered strftime bufs manager event) := by
  intro claimed
  have printed : wrapRendered (fun _ _ => "") (fun _ _ => "") systemManager systemEvent = [(.loggerName, "root")] := rfl
  have named := claimed (fun _ _ => "") (fun _ _ => "") systemManager systemEvent system_manager_anchored _ rfl "root"
  rw [printed] at named
  exact absurd (named List.mem_cons_self) (by decide)

end Issuers

end Sylar.Log.RootFallback
