import Sylar.Log.LogIniter
import Sylar.Log.ManagerInvariant

set_option autoImplicit false

namespace Sylar.Log

open Lib (Heap Address)

namespace LogIniter

open LoggerManager

def ownFormatter (text : String) : Option LogFormatter :=
  if text ≠ "" ∧ !(LogFormatter.new text).isError then some (LogFormatter.new text) else none

def definedAppender (formatter : Option LogFormatter) (a : LogAppenderDefine) : LogAppender LogFormatter where
  kind := if a.type = 1 then .file a.file else .stdout
  level := a.level
  formatter := (ownFormatter a.formatter).or formatter
  hasFormatter := (ownFormatter a.formatter).isSome
  hasLevel := true

section Steps

theorem new_appender_adopts (formatter : Option LogFormatter) (a : LogAppenderDefine) (known : a.type = 1 ∨ a.type = 2) :
    (newAppender a).map (LogAppender.adopt formatter) = some (definedAppender formatter a) := by
  by_cases empty : a.formatter = ""
  · rcases known with file | stdout <;>
      simp [newAppender, definedAppender, ownFormatter, LogAppender.adopt, LogAppender.setLevel, LogAppender.new,
        LogAppender.setFormatter, LogAppender.setHasFormatter, *]
  · by_cases invalid : (LogFormatter.new a.formatter).isError
    · rcases known with file | stdout <;>
        simp [newAppender, definedAppender, ownFormatter, LogAppender.adopt, LogAppender.setLevel, LogAppender.new,
          LogAppender.setFormatter, LogAppender.setHasFormatter, *]
    · rcases known with file | stdout <;>
        simp [newAppender, definedAppender, ownFormatter, LogAppender.adopt, LogAppender.setLevel, LogAppender.new,
          LogAppender.setFormatter, *]

-- The loop over the appenders hands out the next addresses, one for each.
structure Adds (before after : Manager) (logger : Address) (object : Logger LogFormatter)
    (list : List LogAppenderDefine) : Prop where
  loggers : after.loggers = before.loggers
  stored : after.objects.read logger =
    some { object with appenders := object.appenders ++ List.range' before.appenders.size list.length }
  others : ∀ other, other ≠ logger → after.objects.read other = before.objects.read other
  size : after.appenders.size = before.appenders.size + list.length
  contents : ∀ appender < before.appenders.size, after.appenders.read appender = before.appenders.read appender
  added : (List.range' before.appenders.size list.length).map after.appenders.read =
    list.map fun a => some (definedAppender object.formatter a)

theorem add_defined_state (manager : Manager) (logger : Address) (object : Logger LogFormatter) (a : LogAppenderDefine)
    (here : manager.objects.read logger = some object) (known : a.type = 1 ∨ a.type = 2) :
    addDefined logger manager a = some { manager with
      appenders := manager.appenders.alloc (definedAppender object.formatter a)
      objects := manager.objects.modify logger fun current =>
        { current with appenders := current.appenders ++ [manager.appenders.size] } } := by
  have adopted := new_appender_adopts object.formatter a known
  cases made : newAppender a with
  | none =>
      rw [made] at adopted
      cases adopted
  | some ap =>
      rw [made, Option.map_some] at adopted
      simp only [addDefined, made, Option.map_some, addAppender, here, Heap.modify_alloc, Option.some.inj adopted]

theorem add_defined_run (list : List LogAppenderDefine) (manager : Manager) (logger : Address)
    (object : Logger LogFormatter) (here : manager.objects.read logger = some object)
    (known : ∀ a ∈ list, a.type = 1 ∨ a.type = 2) :
    ∃ after, list.foldlM (addDefined logger) manager = some after ∧ Adds manager after logger object list := by
  induction list generalizing manager object with
  | nil =>
      refine ⟨manager, rfl, rfl, ?_, fun _ _ => rfl, rfl, fun _ _ => rfl, rfl⟩
      simpa using here
  | cons a rest ih =>
      have first := add_defined_state manager logger object a here (known a List.mem_cons_self)
      generalize made : LoggerManager.mk (manager.appenders.alloc (definedAppender object.formatter a)) _ _ _ = next at first
      have stored : next.objects.read logger =
          some { object with appenders := object.appenders ++ [manager.appenders.size] } := by
        rw [← made]
        simp [here]
      have appenders : next.appenders = manager.appenders.alloc (definedAppender object.formatter a) := by rw [← made]
      have size : next.appenders.size = manager.appenders.size + 1 := by rw [appenders, Heap.size_alloc]
      obtain ⟨after, completed, adds⟩ := ih next _ stored fun other member => known other (List.mem_cons_of_mem _ member)
      refine ⟨after, by simp only [List.foldlM_cons, first]; exact completed, ?_, ?_, ?_, ?_, ?_, ?_⟩
      · rw [adds.loggers, ← made]
      · rw [adds.stored, size, List.length_cons, List.range'_succ, List.append_assoc]
        rfl
      · intro other different
        rw [adds.others other different, ← made]
        exact Heap.read_modify_elsewhere _ _ _ _ different
      · rw [adds.size, size, List.length_cons]
        omega
      · intro appender bound
        rw [adds.contents appender (by omega), appenders]
        exact Heap.read_alloc_old _ _ _ bound
      · have own : after.appenders.read manager.appenders.size = some (definedAppender object.formatter a) := by
          rw [adds.contents _ (by omega), appenders]
          exact Heap.read_alloc_fresh _ _
        have others := adds.added
        rw [size] at others
        rw [List.length_cons, List.range'_succ, List.map_cons, List.map_cons, own, others]

theorem set_formatter_spec (manager : Manager) (logger : Address) (object : Logger LogFormatter)
    (formatter : Option LogFormatter) (here : manager.objects.read logger = some object) :
    (manager.setFormatter logger formatter).loggers = manager.loggers ∧
      (manager.setFormatter logger formatter).objects.read logger = some { object with formatter := formatter } ∧
      (∀ other, other ≠ logger → (manager.setFormatter logger formatter).objects.read other = manager.objects.read other) ∧
      (manager.setFormatter logger formatter).appenders.size = manager.appenders.size ∧
      ∀ appender ∉ object.appenders,
        (manager.setFormatter logger formatter).appenders.read appender = manager.appenders.read appender := by
  have written : manager.setFormatter logger formatter = { manager with
      objects := manager.objects.modify logger fun current => { current with formatter := formatter }
      appenders := manager.appenders.modifyAll object.appenders (LogAppender.inherit formatter) } := by
    simp only [setFormatter, here]
  rw [written]
  refine ⟨rfl, ?_, fun other different => Heap.read_modify_elsewhere _ _ _ _ different,
    Heap.size_modify_all _ _ _, fun appender absent => Heap.read_modify_all_elsewhere _ _ _ _ absent⟩
  rw [Heap.read_modify_here, here, Option.map_some]

theorem set_formatter_text (manager : Manager) (logger : Address) (str : String) (nonempty : str ≠ "") :
    setFormatterText manager logger str =
      match ownFormatter str with
      | none => manager
      | some formatter => manager.setFormatter logger (some formatter) := by
  by_cases invalid : (LogFormatter.new str).isError <;> simp [setFormatterText, ownFormatter, nonempty, invalid]

theorem prepare_formats (manager : Manager) (logger : Address) (i : LogDefine) :
    prepare manager logger i =
      (match ownFormatter i.formatter with
        | none => manager.setLevel logger i.level
        | some formatter => (manager.setLevel logger i.level).setFormatter logger (some formatter)).clearAppender logger := by
  rw [prepare]
  by_cases empty : i.formatter = ""
  · simp [empty, ownFormatter]
  · simp only [empty, ne_eq, not_false_eq_true, if_true, set_formatter_text _ _ _ empty]

theorem prepare_spec (manager : Manager) (logger : Address) (object : Logger LogFormatter) (i : LogDefine)
    (here : manager.objects.read logger = some object) :
    (prepare manager logger i).loggers = manager.loggers ∧
      (prepare manager logger i).objects.read logger = some { object with
        level := i.level
        formatter := (ownFormatter i.formatter).or object.formatter
        appenders := [] } ∧
      (∀ other, other ≠ logger → (prepare manager logger i).objects.read other = manager.objects.read other) ∧
      (prepare manager logger i).appenders.size = manager.appenders.size ∧
      ∀ appender ∉ object.appenders, (prepare manager logger i).appenders.read appender = manager.appenders.read appender := by
  have leveled : (manager.setLevel logger i.level).objects.read logger = some { object with level := i.level } := by
    simp only [setLevel, modifyLogger, Heap.read_modify_here, here, Option.map_some]
  have apart (other : Address) (different : other ≠ logger) :
      (manager.setLevel logger i.level).objects.read other = manager.objects.read other :=
    Heap.read_modify_elsewhere _ _ _ _ different
  rw [prepare_formats]
  cases own : ownFormatter i.formatter with
  | none =>
      refine ⟨rfl, ?_, ?_, rfl, fun _ _ => rfl⟩
      · simp only [clearAppender, modifyLogger, Heap.read_modify_here, leveled, Option.map_some, Option.none_or]
      · intro other different
        exact (Heap.read_modify_elsewhere _ _ _ _ different).trans (apart other different)
  | some formatter =>
      obtain ⟨loggers, stored, others, size, contents⟩ := set_formatter_spec _ logger _ (some formatter) leveled
      refine ⟨loggers, ?_, ?_, size, contents⟩
      · simp only [clearAppender, modifyLogger, Heap.read_modify_here, stored, Option.map_some, Option.some_or]
      · intro other different
        exact (Heap.read_modify_elsewhere _ _ _ _ different).trans ((others other different).trans (apart other different))

def configured (manager : Manager) (i : LogDefine) : Logger LogFormatter :=
  { manager.current defaultFormatter i.name with
    level := i.level
    formatter := (ownFormatter i.formatter).or (manager.current defaultFormatter i.name).formatter
    appenders := List.range' manager.appenders.size i.appenders.length }

theorem apply_define_sets (manager : Manager) (i : LogDefine) (wellFormed : manager.WellFormed)
    (known : ∀ a ∈ i.appenders, a.type = 1 ∨ a.type = 2) :
    ∃ after logger, applyDefine manager i = some after ∧ Sets manager after i.name logger (configured manager i) ∧
      (configured manager i).appenders.map after.appenders.read =
        i.appenders.map fun a => some (definedAppender (configured manager i).formatter a) := by
  have names := get_logger_names defaultFormatter manager i.name wellFormed
  rw [applyDefine]
  generalize manager.getLogger defaultFormatter i.name = result at names
  obtain ⟨named, logger⟩ := result
  obtain ⟨loggers, stored, others, size, contents⟩ := prepare_spec named logger _ i names.stored
  obtain ⟨after, completed, adds⟩ := add_defined_run i.appenders (prepare named logger i) logger _ stored known
  have start : (prepare named logger i).appenders.size = manager.appenders.size := by rw [size, names.appenders]
  refine ⟨after, logger, completed, ⟨?_, names.kept, names.fresh, ?_, ?_, ?_, ?_, ?_, ?_⟩, ?_⟩
  · rw [adds.loggers, loggers]
    exact names.named
  · rw [adds.stored, start]
    rfl
  · intro other different
    rw [adds.loggers, loggers]
    exact names.loggers other different
  · intro other bound different
    rw [adds.others other different, others other different]
    exact names.objects other bound
  · intro appender member
    have range : appender ∈ List.range' manager.appenders.size i.appenders.length := member
    rw [List.mem_range'_1] at range
    rw [adds.size, start]
    exact range
  · rw [adds.size, start]
    exact Nat.le_add_right _ _
  · intro appender bound absent
    rw [← current_appenders defaultFormatter manager i.name] at absent
    rw [adds.contents appender (start ▸ bound), contents appender absent, names.appenders]
  · have added := adds.added
    rw [start] at added
    exact added

-- A definition with another appender type has no outcome.
theorem apply_define_known (manager after : Manager) (i : LogDefine) (applied : applyDefine manager i = some after) :
    ∀ a ∈ i.appenders, a.type = 1 ∨ a.type = 2 := by
  rw [applyDefine] at applied
  generalize manager.getLogger defaultFormatter i.name = result at applied
  obtain ⟨named, logger⟩ := result
  replace applied : i.appenders.foldlM (addDefined logger) (prepare named logger i) = some after := applied
  generalize prepare named logger i = start, i.appenders = list at applied
  induction list generalizing start with
  | nil => exact fun a member => absurd member List.not_mem_nil
  | cons first rest ih =>
      rw [List.foldlM_cons] at applied
      obtain ⟨next, added, later⟩ := Option.bind_eq_some_iff.mp applied
      intro a member
      rcases List.mem_cons.mp member with rfl | old
      · by_contra unknown
        rw [not_or] at unknown
        simp [addDefined, newAppender, unknown] at added
      · exact ih next later a old

theorem apply_define_applied (manager after : Manager) (i : LogDefine) (wellFormed : manager.WellFormed)
    (applied : applyDefine manager i = some after) :
    ∃ logger, Sets manager after i.name logger (configured manager i) ∧
      (configured manager i).appenders.map after.appenders.read =
        i.appenders.map fun a => some (definedAppender (configured manager i).formatter a) := by
  obtain ⟨next, logger, completed, outcome⟩ :=
    apply_define_sets manager i wellFormed (apply_define_known manager after i applied)
  rw [applied, Option.some.injEq] at completed
  rw [completed]
  exact ⟨logger, outcome⟩

end Steps

-- What a definition asks of its logger, with the formatter it falls back on.
structure Settled (start now : Manager) (i : LogDefine) (logger : Address) (object : Logger LogFormatter) : Prop where
  named : now.loggers[i.name]? = some logger
  kept : ∀ old : Address, start.loggers[i.name]? = some old → old = logger
  stored : now.objects.read logger = some object
  level : object.level = i.level
  formatter : object.formatter = (ownFormatter i.formatter).or (start.current defaultFormatter i.name).formatter
  fresh : ∀ appender ∈ object.appenders, start.appenders.size ≤ appender
  single : object.appenders.Nodup
  appenders : object.appenders.map now.appenders.read = i.appenders.map fun a => some (definedAppender object.formatter a)

-- Between two rounds: the names that were not worked on are as at the start.
structure Reached (start : Manager) (touched : String → Prop) (now : Manager) : Prop where
  wellFormed : now.WellFormed
  grown : start.appenders.size ≤ now.appenders.size
  loggers : ∀ name, ¬ touched name → now.loggers[name]? = start.loggers[name]?
  objects : ∀ (name : String) (logger : Address), ¬ touched name → start.loggers[name]? = some logger →
    now.objects.read logger = start.objects.read logger
  contents : ∀ appender < start.appenders.size, (∀ name, touched name → appender ∉ start.attached name) →
    now.appenders.read appender = start.appenders.read appender

section Rounds

variable (start now after : Manager) (touched : String → Prop)

theorem reached_attached (reached : Reached start touched now) (name : String) (untouched : ¬ touched name) :
    now.attached name = start.attached name := by
  unfold attached
  rw [reached.loggers name untouched]
  cases present : start.loggers[name]? with
  | none => rfl
  | some logger => simp only [Option.bind_some, reached.objects name logger untouched present]

theorem reached_formatter (reached : Reached start touched now) (name : String) (untouched : ¬ touched name) :
    (now.current defaultFormatter name).formatter = (start.current defaultFormatter name).formatter := by
  unfold current
  rw [reached.loggers name untouched]
  cases present : start.loggers[name]? with
  | none => rfl
  | some logger =>
      simp only [Option.bind_some, reached.objects name logger untouched present]
      cases start.objects.read logger <;> rfl

theorem reached_step (reached : Reached start touched now) (name : String) (logger : Address)
    (object : Logger LogFormatter) (untouched : ¬ touched name) (sets : Sets now after name logger object) :
    Reached start (fun other => touched other ∨ other = name) after := by
  refine ⟨sets_well_formed now after name logger object sets reached.wellFormed, Nat.le_trans reached.grown sets.grown,
    ?_, ?_, ?_⟩
  · intro other free
    rw [not_or] at free
    rw [sets.loggers other free.2, reached.loggers other free.1]
  · intro other pointer free present
    rw [not_or] at free
    have here : now.loggers[other]? = some pointer := by rw [reached.loggers other free.1, present]
    rw [sets_other_object now after name logger object sets reached.wellFormed other pointer free.2 here,
      reached.objects other pointer free.1 present]
  · intro appender bound absent
    have apart : appender ∉ now.attached name := by
      rw [reached_attached start now touched reached name untouched]
      exact absent name (.inr rfl)
    rw [sets.contents appender (Nat.lt_of_lt_of_le bound reached.grown) apart]
    exact reached.contents appender bound fun other member => absent other (.inl member)

theorem settled_step (startWellFormed : start.WellFormed) (reached : Reached start touched now) (name : String)
    (pointer : Address) (target : Logger LogFormatter) (untouched : ¬ touched name)
    (sets : Sets now after name pointer target) (i : LogDefine) (logger : Address) (object : Logger LogFormatter)
    (different : i.name ≠ name) (settled : Settled start now i logger object) : Settled start after i logger object := by
  have own := attached_stored i.name logger object now settled.named settled.stored
  have unchanged : ∀ appender ∈ object.appenders, after.appenders.read appender = now.appenders.read appender := by
    intro appender member
    apply sets.contents appender (reached.wellFormed.stored i.name appender (own ▸ member))
    intro shared
    rw [reached_attached start now touched reached name untouched] at shared
    exact absurd (settled.fresh appender member) (Nat.not_le_of_lt (startWellFormed.stored name appender shared))
  refine ⟨?_, settled.kept, ?_, settled.level, settled.formatter, settled.fresh, settled.single, ?_⟩
  · rw [sets.loggers i.name different]
    exact settled.named
  · rw [sets_other_object now after name pointer target sets reached.wellFormed i.name logger different settled.named]
    exact settled.stored
  · rw [List.map_congr_left unchanged]
    exact settled.appenders

theorem apply_define_settles (reached : Reached start touched now) (i : LogDefine) (untouched : ¬ touched i.name)
    (known : ∀ a ∈ i.appenders, a.type = 1 ∨ a.type = 2) :
    ∃ after logger object, applyDefine now i = some after ∧ Sets now after i.name logger object ∧
      Settled start after i logger object := by
  obtain ⟨after, logger, completed, sets, added⟩ := apply_define_sets now i reached.wellFormed known
  refine ⟨after, logger, configured now i, completed, sets, sets.named, ?_, sets.stored, rfl, ?_, ?_, ?_, added⟩
  · intro old present
    rw [← reached.loggers i.name untouched] at present
    exact sets.kept old present
  · rw [← reached_formatter start now touched reached i.name untouched]
    rfl
  · intro appender member
    exact Nat.le_trans reached.grown (sets.appended appender member).1
  · exact @List.nodup_range' _ _ 1 Nat.one_pos

end Rounds

theorem apply_defines_run (start : Manager) (startWellFormed : start.WellFormed) (list : List LogDefine) (now : Manager)
    (touched : String → Prop) (reached : Reached start touched now)
    (distinct : list.Pairwise fun first second => first.name ≠ second.name) (untouched : ∀ i ∈ list, ¬ touched i.name)
    (known : ∀ i ∈ list, ∀ a ∈ i.appenders, a.type = 1 ∨ a.type = 2) :
    ∃ after, list.foldlM applyDefine now = some after ∧
      Reached start (fun name => touched name ∨ ∃ i ∈ list, name = i.name) after ∧
      (∀ i ∈ list, ∃ logger object, Settled start after i logger object) ∧
      ∀ i logger object, touched i.name → Settled start now i logger object → Settled start after i logger object := by
  induction list generalizing now touched with
  | nil =>
      refine ⟨now, rfl, ?_, by simp, fun _ _ _ _ settled => settled⟩
      simpa using reached
  | cons i rest ih =>
      have fresh := untouched i List.mem_cons_self
      obtain ⟨next, logger, object, applied, sets, settled⟩ :=
        apply_define_settles start now touched reached i fresh (known i List.mem_cons_self)
      rw [List.pairwise_cons] at distinct
      have reachedNext := reached_step start now next touched reached i.name logger object fresh sets
      have restUntouched : ∀ other ∈ rest, ¬ (touched other.name ∨ other.name = i.name) := by
        intro other member
        rw [not_or]
        exact ⟨untouched other (List.mem_cons_of_mem _ member), Ne.symm (distinct.1 other member)⟩
      obtain ⟨after, completed, reachedAfter, all, persists⟩ := ih next _ reachedNext distinct.2 restUntouched
        fun other member => known other (List.mem_cons_of_mem _ member)
      refine ⟨after, by rw [List.foldlM_cons, applied]; exact completed, ?_, ?_, ?_⟩
      · convert reachedAfter using 2 with name
        simp [or_assoc]
      · intro other member
        rcases List.mem_cons.mp member with same | later
        · subst same
          exact ⟨logger, object, persists other logger object (.inr rfl) settled⟩
        · exact all other later
      · intro other pointer target already before
        have different : other.name ≠ i.name := by
          intro same
          rw [same] at already
          exact fresh already
        exact persists other pointer target (.inl already)
          (settled_step start now next touched startWellFormed reached i.name logger object fresh sets other pointer target
            different before)

section Callback

variable (old new : LogDefineSet)

-- A removal is the definition that sets level 0 and lists nothing.
def cleared (name : String) : LogDefine := ⟨name, .unknow, "", []⟩

-- The work of the callback: the definitions that are new or different, then
-- the ones that are gone.
def changes : List LogDefine :=
  (new.defines.filter fun i => old.find i ≠ some i) ++
    (old.defines.filter fun i => new.find i = none).map fun i => cleared i.name

theorem apply_new_changes (manager : Manager) (i : LogDefine) :
    applyNew old manager i = if old.find i ≠ some i then applyDefine manager i else some manager := by
  rw [applyNew]
  cases found : old.find i with
  | none => simp
  | some it => simp [eq_comm]

theorem remove_old_cleared (manager : Manager) (i : LogDefine) :
    some (removeOld new manager i) = if new.find i = none then applyDefine manager (cleared i.name) else some manager := by
  rw [removeOld]
  cases new.find i with
  | none => simp [applyDefine, cleared, prepare]
  | some it => simp

theorem apply_new_filter (manager : Manager) (list : List LogDefine) :
    list.foldlM (applyNew old) manager = (list.filter fun i => old.find i ≠ some i).foldlM applyDefine manager := by
  induction list generalizing manager with
  | nil => rfl
  | cons i rest ih =>
      rw [List.foldlM_cons, apply_new_changes]
      by_cases changed : old.find i ≠ some i
      · rw [if_pos changed, List.filter_cons_of_pos (by simpa using changed), List.foldlM_cons]
        exact bind_congr ih
      · rw [if_neg changed, List.filter_cons_of_neg (by simpa using changed)]
        exact ih manager

theorem remove_old_filter (manager : Manager) (list : List LogDefine) :
    some (list.foldl (removeOld new) manager) =
      ((list.filter fun i => new.find i = none).map fun i => cleared i.name).foldlM applyDefine manager := by
  induction list generalizing manager with
  | nil => rfl
  | cons i rest ih =>
      have first := remove_old_cleared new manager i
      rw [List.foldl_cons, ih]
      by_cases gone : new.find i = none
      · rw [if_pos gone] at first
        rw [List.filter_cons_of_pos (by simpa using gone), List.map_cons, List.foldlM_cons, ← first]
        rfl
      · rw [if_neg gone, Option.some.injEq] at first
        rw [List.filter_cons_of_neg (by simpa using gone), first]

theorem on_logs_changed_changes (manager : Manager) :
    onLogsChanged old new manager = (changes old new).foldlM applyDefine manager := by
  rw [onLogsChanged, apply_new_filter, changes, List.foldlM_append]
  cases (new.defines.filter fun i => old.find i ≠ some i).foldlM applyDefine manager with
  | none => rfl
  | some applied => exact remove_old_filter new applied old.defines

theorem mem_changes (i : LogDefine) :
    i ∈ changes old new ↔
      (i ∈ new.defines ∧ old.find i ≠ some i) ∨ ∃ gone ∈ old.defines, new.find gone = none ∧ cleared gone.name = i := by
  simp [changes, and_assoc]

theorem changes_distinct : (changes old new).Pairwise fun first second => first.name ≠ second.name := by
  rw [changes, List.pairwise_append]
  refine ⟨new.names_distinct.filter _, List.pairwise_map.mpr (old.names_distinct.filter _), ?_⟩
  intro first inNew second inOld
  rw [List.mem_filter] at inNew
  obtain ⟨gone, member, rfl⟩ := List.mem_map.mp inOld
  rw [List.mem_filter, decide_eq_true_eq, LogDefineSet.find_none_iff] at member
  exact member.2 first inNew.1

theorem changes_known (known : ∀ i ∈ new.defines, ∀ a ∈ i.appenders, a.type = 1 ∨ a.type = 2) :
    ∀ i ∈ changes old new, ∀ a ∈ i.appenders, a.type = 1 ∨ a.type = 2 := by
  intro i member
  rcases (mem_changes old new i).mp member with ⟨inNew, -⟩ | ⟨gone, -, -, rfl⟩
  · exact known i inNew
  · simp [cleared]

theorem on_logs_changed_run (manager : Manager) (wellFormed : manager.WellFormed)
    (known : ∀ i ∈ new.defines, ∀ a ∈ i.appenders, a.type = 1 ∨ a.type = 2) :
    ∃ after, onLogsChanged old new manager = some after ∧
      Reached manager (fun name => ∃ i ∈ changes old new, name = i.name) after ∧
      ∀ i ∈ changes old new, ∃ logger object, Settled manager after i logger object := by
  have start : Reached manager (fun _ => False) manager :=
    ⟨wellFormed, Nat.le_refl _, fun _ _ => rfl, fun _ _ _ _ => rfl, fun _ _ _ => rfl⟩
  obtain ⟨after, completed, reached, settled, -⟩ := apply_defines_run manager wellFormed (changes old new) manager
    (fun _ => False) start (changes_distinct old new) (fun _ _ => id) (changes_known old new known)
  rw [on_logs_changed_changes]
  refine ⟨after, completed, ?_, settled⟩
  simpa using reached

theorem on_logs_changed_keeps (invariant : Manager → Prop)
    (kept : ∀ manager after i, manager.WellFormed → manager.Separate → invariant manager →
      applyDefine manager i = some after → invariant after)
    (manager after : Manager) (wellFormed : manager.WellFormed) (separate : manager.Separate) (holds : invariant manager)
    (completed : onLogsChanged old new manager = some after) : invariant after := by
  rw [on_logs_changed_changes] at completed
  generalize changes old new = list at completed
  induction list generalizing manager with
  | nil =>
      cases completed
      exact holds
  | cons i rest ih =>
      rw [List.foldlM_cons] at completed
      obtain ⟨next, applied, later⟩ := Option.bind_eq_some_iff.mp completed
      obtain ⟨logger, sets, -⟩ := apply_define_applied manager next i wellFormed applied
      exact ih next (sets_well_formed manager next i.name logger _ sets wellFormed)
        (sets_separate manager next i.name logger _ sets wellFormed separate)
        (kept manager next i wellFormed separate holds applied) later

theorem on_logs_changed_separate (manager after : Manager) (wellFormed : manager.WellFormed)
    (separate : manager.Separate) (completed : onLogsChanged old new manager = some after) : after.Separate := by
  refine on_logs_changed_keeps old new Separate (fun before next i wellFormed separate _ applied => ?_) manager after
    wellFormed separate separate completed
  obtain ⟨logger, sets, -⟩ := apply_define_applied before next i wellFormed applied
  exact sets_separate before next i.name logger _ sets wellFormed separate

theorem unchanged_untouched (i : LogDefine) (inNew : i ∈ new.defines) (unchanged : old.find i = some i) :
    ¬ ∃ change ∈ changes old new, i.name = change.name := by
  rintro ⟨change, member, same⟩
  rcases (mem_changes old new change).mp member with ⟨inNewToo, changed⟩ | ⟨gone, -, missing, rfl⟩
  · rw [← new.name_unique i change inNew inNewToo same] at changed
    exact changed unchanged
  · exact (new.find_none_iff gone).mp missing i inNew same

-- The logger after the callback has what its definition asks for, with its own
-- formatter before the callback where the definition has none that compiles.
def Holds (manager after : Manager) (i : LogDefine) : Prop :=
  ∃ logger object, after.loggers[i.name]? = some logger ∧ after.objects.read logger = some object ∧
    object.level = i.level ∧
    object.formatter = (ownFormatter i.formatter).or (manager.current defaultFormatter i.name).formatter ∧
    object.appenders.Nodup ∧
    object.appenders.map after.appenders.read = i.appenders.map fun a => some (definedAppender object.formatter a)

theorem settled_holds (manager after : Manager) (i : LogDefine) (logger : Address) (object : Logger LogFormatter)
    (settled : Settled manager after i logger object) : Holds manager after i :=
  ⟨logger, object, settled.named, settled.stored, settled.level, settled.formatter, settled.single, settled.appenders⟩

theorem on_logs_changed_exact (manager : Manager) (wellFormed : manager.WellFormed)
    (known : ∀ i ∈ new.defines, ∀ a ∈ i.appenders, a.type = 1 ∨ a.type = 2) :
    ∃ after, onLogsChanged old new manager = some after ∧
      (∀ i ∈ new.defines, old.find i ≠ some i → Holds manager after i) ∧
      (∀ i ∈ old.defines, new.find i = none → ∃ logger object, after.loggers[i.name]? = some logger ∧
        after.objects.read logger = some object ∧ object.level = .unknow ∧ object.appenders = []) ∧
      (∀ (name : String) (logger : Address) (object : Logger LogFormatter), manager.loggers[name]? = some logger →
        manager.objects.read logger = some object → (∀ i ∈ new.defines, i.name = name → old.find i = some i) →
        (∀ i ∈ old.defines, i.name = name → new.find i ≠ none) →
          after.loggers[name]? = some logger ∧ after.objects.read logger = some object) := by
  obtain ⟨after, completed, reached, settled⟩ := on_logs_changed_run old new manager wellFormed known
  refine ⟨after, completed, ?_, ?_, ?_⟩
  · intro i member changed
    obtain ⟨logger, object, holds⟩ := settled i ((mem_changes old new i).mpr (.inl ⟨member, changed⟩))
    exact settled_holds manager after i logger object holds
  · intro i member gone
    obtain ⟨logger, object, holds⟩ := settled (cleared i.name) ((mem_changes old new _).mpr (.inr ⟨i, member, gone, rfl⟩))
    have empty : object.appenders.map after.appenders.read = [] := holds.appenders
    exact ⟨logger, object, holds.named, holds.stored, holds.level, List.map_eq_nil_iff.mp empty⟩
  · intro name logger object present stored unchanged kept
    have untouched : ¬ ∃ i ∈ changes old new, name = i.name := by
      rintro ⟨i, member, rfl⟩
      rcases (mem_changes old new i).mp member with ⟨inNew, changed⟩ | ⟨gone, inOld, missing, rfl⟩
      · exact changed (unchanged i inNew rfl)
      · exact kept gone inOld rfl missing
    rw [reached.loggers name untouched, reached.objects name logger untouched present]
    exact ⟨present, stored⟩

def consoleDefine : LogDefine := ⟨"system", .info, "%m%n", [⟨2, .debug, "", ""⟩]⟩

def consoleSet : LogDefineSet := ⟨[consoleDefine], List.pairwise_singleton _ _⟩

theorem on_logs_changed_exact_console :
    ∃ after, onLogsChanged .empty consoleSet (LoggerManager.new defaultFormatter) = some after ∧
      Holds (LoggerManager.new defaultFormatter) after consoleDefine := by
  obtain ⟨after, completed, changed, -, -⟩ := on_logs_changed_exact .empty consoleSet
    (LoggerManager.new defaultFormatter) (new_well_formed defaultFormatter) (by simp [consoleSet, consoleDefine])
  exact ⟨after, completed, changed _ List.mem_cons_self (by simp [LogDefineSet.empty, LogDefineSet.find])⟩

end Callback

end LogIniter

end Sylar.Log
