import Sylar.Log.LogHistory
import Sylar.Log.Reconfigure

set_option autoImplicit false

namespace Sylar.Log.LogRemoval

open Lib (Address Heap)
open LoggerManager LogHistory LogIniter Reconfigure

-- What an event sent to a logger reaches, by the kinds of the appenders.
inductive Sinks where
  | nowhere
  | own (list : List AppenderView)
  | root (list : List AppenderView)
deriving DecidableEq, Repr

def sinkViews (manager : Manager) (list : List (Address × Option LogFormatter)) : List AppenderView :=
  (list.filterMap fun entry => manager.appenders.read entry.1).map viewAppender

-- SYLAR_LOG_NAME(name)->log(level, event).
def deliver (manager : Manager) (name : String) (level : Level) : Sinks :=
  let (named, logger) := manager.getLogger defaultFormatter name
  match log named level (named.objects.size + 1) logger with
  | none => .nowhere
  | some (target, list) => if target = logger then .own (sinkViews named list) else .root (sinkViews named list)

def deliveredAfter (values : List LogDefineSet) (name : String) (level : Level) : Option Sinks :=
  (history values).2.map fun manager => deliver manager name level

def without (name : String) (value : LogDefineSet) : LogDefineSet :=
  ⟨value.defines.filter fun i => i.name ≠ name, value.sorted.filter _⟩

def Mentioned (values : List LogDefineSet) (name : String) : Prop :=
  ∃ value ∈ values, ∃ i ∈ value.defines, i.name = name

-- Every logger falls back on the one root logger, which falls back on nothing.
structure Rooted (manager : Manager) : Prop where
  named : manager.loggers["root"]? = some manager.root
  top : ∀ object, manager.objects.read manager.root = some object → object.root = none
  others : ∀ (name : String) (logger : Address) (object : Logger LogFormatter), name ≠ "root" →
    manager.loggers[name]? = some logger → manager.objects.read logger = some object → object.root = some manager.root

-- What is left of a name that the current value does not define.
def Gone (values : List LogDefineSet) (val : LogDefineSet) (manager : Manager) : Prop :=
  ∀ name, (∀ i ∈ val.defines, i.name ≠ name) →
    (Mentioned values name → view manager name = some ⟨.unknow, some (stickyPattern values name), []⟩) ∧
      (¬ Mentioned values name → view manager name = view (LoggerManager.new defaultFormatter) name)

section Roots

variable (manager after : Manager)

theorem add_defined_root (logger : Address) (a : LogAppenderDefine) (added : addDefined logger manager a = some after) :
    after.root = manager.root := by
  obtain ⟨ap, -, rfl⟩ := Option.map_eq_some_iff.mp added
  rw [LoggerManager.addAppender]
  split <;> rfl

theorem prepare_root (logger : Address) (i : LogDefine) : (prepare manager logger i).root = manager.root := by
  rw [prepare_formats]
  cases ownFormatter i.formatter with
  | none => rfl
  | some formatter =>
      simp only [clearAppender, modifyLogger, LoggerManager.setFormatter]
      split <;> rfl

theorem get_logger_root (name : String) : (manager.getLogger defaultFormatter name).1.root = manager.root := by
  rw [getLogger]
  split <;> rfl

theorem add_all_root (logger : Address) (list : List LogAppenderDefine) (start : Manager)
    (added : list.foldlM (addDefined logger) start = some after) : after.root = start.root := by
  induction list generalizing start with
  | nil =>
      cases added
      rfl
  | cons a rest ih =>
      rw [List.foldlM_cons] at added
      obtain ⟨next, first, later⟩ := Option.bind_eq_some_iff.mp added
      rw [ih next later, add_defined_root start next logger a first]

theorem apply_define_root (i : LogDefine) (applied : applyDefine manager i = some after) : after.root = manager.root := by
  have root := get_logger_root manager i.name
  rw [applyDefine] at applied
  generalize manager.getLogger defaultFormatter i.name = result at root applied
  obtain ⟨named, logger⟩ := result
  rw [add_all_root after logger i.appenders _ applied, prepare_root, root]

theorem rooted_current (rooted : Rooted manager) (name : String) (different : name ≠ "root") :
    (manager.current defaultFormatter name).root = some manager.root := by
  rw [current]
  split
  · rfl
  · rename_i object found
    obtain ⟨logger, present, stored⟩ := Option.bind_eq_some_iff.mp found
    exact rooted.others name logger object different present stored

theorem rooted_current_root (wellFormed : manager.WellFormed) (rooted : Rooted manager) :
    (manager.current defaultFormatter "root").root = none := by
  obtain ⟨object, stored⟩ := wellFormed.named "root" manager.root rooted.named
  simp only [current, rooted.named, Option.bind_some, stored]
  exact rooted.top object stored

theorem apply_define_rooted (i : LogDefine) (wellFormed : manager.WellFormed) (rooted : Rooted manager)
    (applied : applyDefine manager i = some after) : Rooted after := by
  obtain ⟨logger, sets, -⟩ := apply_define_applied manager after i wellFormed applied
  have sameRoot := apply_define_root manager after i applied
  have configuredRoot : (configured manager i).root = (manager.current defaultFormatter i.name).root := rfl
  refine ⟨?_, fun object stored => ?_, fun name pointer object different present stored => ?_⟩
  · rw [sameRoot]
    by_cases here : i.name = "root"
    · have own := sets.kept manager.root (by rw [here]; exact rooted.named)
      rw [← here, sets.named, own]
    · rw [sets.loggers "root" (Ne.symm here)]
      exact rooted.named
  · rw [sameRoot] at stored
    by_cases here : i.name = "root"
    · rw [sets.kept manager.root (by rw [here]; exact rooted.named), sets.stored] at stored
      cases stored
      rw [configuredRoot, here]
      exact rooted_current_root manager wellFormed rooted
    · rw [sets_other_object manager after i.name logger _ sets wellFormed "root" manager.root (Ne.symm here)
        rooted.named] at stored
      exact rooted.top object stored
  · rw [sameRoot]
    by_cases here : name = i.name
    · rw [here, sets.named] at present
      cases present
      rw [sets.stored] at stored
      cases stored
      rw [configuredRoot, ← here]
      exact rooted_current manager rooted name different
    · rw [sets.loggers name here] at present
      rw [sets_other_object manager after i.name logger _ sets wellFormed name pointer here present] at stored
      exact rooted.others name pointer object different present stored

theorem new_rooted : Rooted (LoggerManager.new defaultFormatter) := by
  have named (name : String) := new_loggers defaultFormatter name
  refine ⟨by rw [named]; rfl, fun object stored => ?_, fun name logger object different present _ => ?_⟩
  · cases (new_root defaultFormatter).symm.trans stored
    rfl
  · rw [named, if_neg different] at present
    cases present

end Roots

section History

variable (values : List LogDefineSet) (value : LogDefineSet) (name : String)

theorem mentioned_append (absent : ∀ i ∈ value.defines, i.name ≠ name) :
    Mentioned (values ++ [value]) name ↔ Mentioned values name := by
  constructor
  · rintro ⟨other, member, i, inOther, same⟩
    rcases List.mem_append.mp member with old | last
    · exact ⟨other, old, i, inOther, same⟩
    · rw [List.mem_singleton.mp last] at inOther
      exact absurd same (absent i inOther)
  · rintro ⟨other, member, named⟩
    exact ⟨other, List.mem_append_left _ member, named⟩

theorem mentioned_last (i : LogDefine) (member : i ∈ (values.getLast?.getD .empty).defines) : Mentioned values i.name := by
  cases last : values.getLast? with
  | none =>
      rw [last] at member
      cases member
  | some value =>
      rw [last] at member
      exact ⟨value, List.mem_of_getLast? last, i, member, rfl⟩

theorem gone_initial : Gone [] .empty (LoggerManager.new defaultFormatter) := by
  refine fun name _ => ⟨?_, fun _ => rfl⟩
  rintro ⟨value, member, -⟩
  cases member

theorem gone_same (manager : Manager) (gone : Gone values value manager) : Gone (values ++ [value]) value manager := by
  intro name absent
  rw [mentioned_append values value name absent, sticky_pattern_absent values value name absent]
  exact gone name absent

theorem gone_changed (val : LogDefineSet) (manager after : Manager) (known : KnownTypes value)
    (current : val = values.getLast?.getD .empty) (consistent : Consistent values val manager)
    (gone : Gone values val manager) (completed : onLogsChanged val value manager = some after) :
    Gone (values ++ [value]) value after := by
  obtain ⟨next, applied, reached, settled⟩ := on_logs_changed_run val value manager consistent.wellFormed known
  obtain rfl : next = after := Option.some.inj (applied.symm.trans completed)
  intro name absent
  by_cases defined : ∃ i ∈ val.defines, i.name = name
  · -- The name has just been taken out: the removal clears it.
    obtain ⟨i, member, rfl⟩ := defined
    have missing := (value.find_none_iff i).mpr absent
    have change := (mem_changes val value (cleared i.name)).mpr (.inr ⟨i, member, missing, rfl⟩)
    obtain ⟨logger, object, holds⟩ := settled (cleared i.name) change
    have pattern := settled_pattern values val value manager next consistent (cleared i.name) change logger object holds
    refine ⟨fun _ => settled_view manager next (cleared i.name) logger object holds _ pattern, fun never => ?_⟩
    rw [mentioned_append values value i.name absent] at never
    exact absurd (mentioned_last values i (current ▸ member)) never
  · have undefined : ∀ i ∈ val.defines, i.name ≠ name := fun i member same => defined ⟨i, member, same⟩
    have untouched : ¬ ∃ i ∈ changes val value, name = i.name := by
      rintro ⟨i, member, rfl⟩
      rcases (mem_changes val value i).mp member with ⟨inValue, -⟩ | ⟨old, inVal, -, rfl⟩
      · exact absent i inValue rfl
      · exact undefined old inVal rfl
    rw [untouched_view manager next _ consistent.wellFormed consistent.separate reached name untouched,
      mentioned_append values value name absent, sticky_pattern_absent values value name absent]
    exact gone name undefined

theorem history_gone (known : ∀ value ∈ values, KnownTypes value) :
    ∃ manager, (history values).2 = some manager ∧ Gone values (values.getLast?.getD .empty) manager := by
  induction values using List.reverseRecOn with
  | nil => exact ⟨_, rfl, gone_initial⟩
  | append_singleton earlier value ih =>
      have knownEarlier : ∀ other ∈ earlier, KnownTypes other :=
        fun other member => known other (List.mem_append_left _ member)
      have knownValue : KnownTypes value := known value (by simp)
      obtain ⟨manager, reached, gone⟩ := ih knownEarlier
      obtain ⟨callbacks, current, consistent⟩ := history_reached earlier knownEarlier manager reached
      rw [history_append, List.getLast?_concat, Option.getD_some]
      by_cases unchanged : (history earlier).1.val = value
      · rw [apply_value_same (history earlier) value unchanged]
        rw [← current, unchanged] at gone
        exact ⟨manager, reached, gone_same earlier value manager gone⟩
      · obtain ⟨after, completed, -⟩ :=
          consistent_changed earlier (history earlier).1.val value manager knownValue consistent
        rw [apply_value_changed (history earlier) value unchanged callbacks]
        rw [← current] at gone
        exact ⟨after, by rw [reached]; exact completed,
          gone_changed earlier value _ manager after knownValue current consistent gone completed⟩

theorem history_rooted (known : ∀ value ∈ values, KnownTypes value) (manager : Manager)
    (reached : (history values).2 = some manager) : manager.WellFormed ∧ Rooted manager := by
  obtain ⟨-, -, consistent⟩ := history_reached values known manager reached
  refine ⟨consistent.wellFormed, history_keeps Rooted new_rooted ?_ values known manager reached⟩
  intro before after i wellFormed _ rooted applied
  exact apply_define_rooted before after i wellFormed rooted applied

theorem without_named (other : String) (different : other ≠ name) :
    named (without name value) other = named value other := by
  simp only [named, without, List.find?_filter]
  congr 1
  funext i
  by_cases same : i.name = other
  · simp [same, different]
  · simp [same]

theorem without_sticky (other : String) (different : other ≠ name) :
    stickyPattern (values.map (without name)) other = stickyPattern values other := by
  have same : lastPattern (values.map (without name)) other = lastPattern values other := by
    simp only [lastPattern, List.foldl_map, without_named _ name other different]
  rw [stickyPattern, same, stickyPattern]

theorem without_mentioned (other : String) (different : other ≠ name) :
    Mentioned (values.map (without name)) other ↔ Mentioned values other := by
  simp only [Mentioned, List.mem_map, exists_exists_and_eq_and, without, List.mem_filter, decide_eq_true_eq]
  constructor
  · rintro ⟨value, member, i, ⟨inValue, -⟩, same⟩
    exact ⟨value, member, i, inValue, same⟩
  · rintro ⟨value, member, i, inValue, rfl⟩
    exact ⟨value, member, i, ⟨inValue, different⟩, rfl⟩

theorem without_never_mentioned : ¬ Mentioned (values.map (without name)) name := by
  simp [Mentioned, without]

theorem without_known (known : ∀ value ∈ values, KnownTypes value) :
    ∀ value ∈ values.map (without name), KnownTypes value := by
  intro value member
  obtain ⟨original, inValues, rfl⟩ := List.mem_map.mp member
  exact fun i inFiltered => known original inValues i (List.mem_filter.mp inFiltered).1

theorem without_absent (absent : ∀ i ∈ value.defines, i.name ≠ name) : without name value = value := by
  obtain ⟨defines, sorted⟩ := value
  simp only [without, LogDefineSet.mk.injEq]
  exact List.filter_eq_self.mpr fun i member => by simpa using absent i member

theorem without_unmentioned (never : ¬ Mentioned values name) : values.map (without name) = values := by
  conv_rhs => rw [← List.map_id values]
  apply List.map_congr_left
  exact fun value member => without_absent value name fun i inValue same => never ⟨value, member, i, inValue, same⟩

end History

section Delivery

def unseen : LoggerView := ⟨.debug, some defaultPattern, []⟩

def admitted (level : Level) (list : List AppenderView) : List AppenderView := list.filter fun ap => passes level ap.level

-- Where an event goes, read off what the logger and the root logger show.
def deliverShown (level : Level) (own : LoggerView) (root : Option LoggerView) : Sinks :=
  if !passes level own.level then .nowhere
  else if !own.appenders.isEmpty then .own (admitted level own.appenders)
  else
    match root with
    | none => .nowhere
    | some top =>
        if !passes level top.level then .nowhere
        else if !top.appenders.isEmpty then .root (admitted level top.appenders)
        else .nowhere

variable (manager : Manager) (name : String) (level : Level)

def viewObject (object : Logger LogFormatter) : LoggerView :=
  ⟨object.level, object.formatter.map LogFormatter.pattern,
    (object.appenders.filterMap manager.appenders.read).map viewAppender⟩

theorem view_current : viewObject manager (manager.current defaultFormatter name) = (view manager name).getD unseen := by
  rw [view, current]
  cases manager.loggers[name]?.bind manager.objects.read <;> rfl

theorem sink_views_renders (list : List Address) :
    sinkViews manager (list.filterMap (renders manager level)) =
      admitted level ((list.filterMap manager.appenders.read).map viewAppender) := by
  induction list with
  | nil => rfl
  | cons appender rest ih =>
      simp only [sinkViews, admitted, List.filterMap_cons, renders] at ih ⊢
      cases read : manager.appenders.read appender with
      | none => simpa only [Option.bind_none] using ih
      | some ap =>
          by_cases pass : passes level ap.level
          · simpa [pass, read, viewAppender] using ih
          · simpa [pass, viewAppender] using ih

theorem view_object_empty (object : Logger LogFormatter)
    (valid : ∀ appender ∈ object.appenders, appender < manager.appenders.size) :
    (viewObject manager object).appenders.isEmpty = object.appenders.isEmpty := by
  cases listed : object.appenders with
  | nil => simp [viewObject, listed]
  | cons appender rest =>
      rw [listed] at valid
      obtain ⟨ap, read⟩ := Heap.read_of_lt manager.appenders appender (valid appender List.mem_cons_self)
      simp [viewObject, listed, read]

theorem log_object (depth : Nat) (logger : Address) (object : Logger LogFormatter)
    (stored : manager.objects.read logger = some object)
    (valid : ∀ appender ∈ object.appenders, appender < manager.appenders.size) :
    log manager level (depth + 1) logger =
      if !passes level object.level then none
      else if !(viewObject manager object).appenders.isEmpty then
        some (logger, object.appenders.filterMap (renders manager level))
      else object.root.bind (log manager level depth) := by
  rw [log, view_object_empty manager object valid]
  simp only [admits, dispatch, stored]
  by_cases pass : passes level object.level
  · cases empty : object.appenders.isEmpty with
    | false => simp [pass]
    | true => cases object.root <;> simp [pass]
  · simp [pass]

theorem root_apart (wellFormed : manager.WellFormed) (rooted : Rooted manager) (different : name ≠ "root") :
    manager.root ≠ (manager.getLogger defaultFormatter name).2 := by
  have names := get_logger_names defaultFormatter manager name wellFormed
  rintro same
  cases present : manager.loggers[name]? with
  | some old =>
      rw [names.kept old present, ← same] at present
      exact different (wellFormed.distinct name "root" manager.root present rooted.named)
  | none =>
      obtain ⟨object, stored⟩ := wellFormed.named "root" manager.root rooted.named
      exact absurd (names.fresh present) (same ▸ Nat.not_le_of_lt (Heap.read_bound _ _ _ stored))

theorem deliver_shown (wellFormed : manager.WellFormed) (rooted : Rooted manager) :
    deliver manager name level =
      deliverShown level ((view manager name).getD unseen) (if name = "root" then none else view manager "root") := by
  have names := get_logger_names defaultFormatter manager name wellFormed
  have apart := root_apart manager name wellFormed rooted
  obtain ⟨rootObject, rootStored⟩ := wellFormed.named "root" manager.root rooted.named
  have rootBound := Heap.read_bound _ _ _ rootStored
  have rootView : view manager "root" = some (viewObject manager rootObject) := by
    rw [view, rooted.named, Option.bind_some, rootStored]
    rfl
  rw [← view_current]
  unfold deliver
  generalize manager.getLogger defaultFormatter name = result at names apart
  obtain ⟨named, logger⟩ := result
  have sameViews (object : Logger LogFormatter) : viewObject named object = viewObject manager object := by
    rw [viewObject, names.appenders, viewObject]
  have ownValid : ∀ appender ∈ (manager.current defaultFormatter name).appenders, appender < named.appenders.size := by
    rw [current_appenders, names.appenders]
    exact wellFormed.stored name
  have rendered (object : Logger LogFormatter) : sinkViews named (object.appenders.filterMap (renders named level)) =
      admitted level (viewObject manager object).appenders := by
    rw [sink_views_renders, ← sameViews]
    rfl
  have first := log_object named level named.objects.size logger _ names.stored ownValid
  rw [sameViews] at first
  simp only [first, deliverShown]
  have threshold : (viewObject manager (manager.current defaultFormatter name)).level =
      (manager.current defaultFormatter name).level := rfl
  rw [threshold]
  by_cases pass : passes level (manager.current defaultFormatter name).level
  · cases empty : (viewObject manager (manager.current defaultFormatter name)).appenders.isEmpty with
    | false => simp [pass, rendered]
    | true =>
        by_cases here : name = "root"
        · subst here
          simp [pass, rooted_current_root manager wellFormed rooted]
        · have rootHere : named.objects.read manager.root = some rootObject := by
            rw [names.objects manager.root rootBound, rootStored]
          have rootValid : ∀ appender ∈ rootObject.appenders, appender < named.appenders.size := by
            rw [← attached_stored "root" manager.root rootObject manager rooted.named rootStored, names.appenders]
            exact wellFormed.stored "root"
          obtain ⟨depth, deep⟩ := Nat.exists_eq_add_one_of_ne_zero
            (Nat.ne_of_gt (Nat.lt_of_le_of_lt (Nat.zero_le _) (Heap.read_bound _ _ _ rootHere)))
          have second := log_object named level depth manager.root rootObject rootHere rootValid
          have top : rootObject.root = none := rooted.top rootObject rootStored
          rw [sameViews, top, Option.bind_none, ← deep] at second
          have topThreshold : (viewObject manager rootObject).level = rootObject.level := rfl
          simp only [pass, Bool.not_true, Bool.false_eq_true, if_false, if_neg here, rootView, topThreshold,
            rooted_current manager rooted name here, Option.bind_some, second]
          by_cases passTop : passes level rootObject.level
          · cases emptyTop : (viewObject manager rootObject).appenders.isEmpty with
            | false => simp [passTop, rendered, apart here]
            | true => simp [passTop]
          · simp [passTop]
  · simp [pass]

-- Level 0 and the level of a new logger let through the same events from DEBUG on.
theorem deliver_shown_cleared (pattern : Option String) (root : Option LoggerView) (debug : passes level .debug) :
    deliverShown level ⟨.unknow, pattern, []⟩ root = deliverShown level unseen root := by
  have lowest : passes level .unknow := by simp [passes, Level.toNat]
  simp [deliverShown, unseen, lowest, debug]

theorem delivered_after_shown (values : List LogDefineSet) (known : ∀ value ∈ values, KnownTypes value) :
    ∃ manager, (history values).2 = some manager ∧ Gone values (values.getLast?.getD .empty) manager ∧
      ∀ level, deliveredAfter values name level = some (deliverShown level ((view manager name).getD unseen)
        (if name = "root" then none else view manager "root")) := by
  obtain ⟨manager, reached, gone⟩ := history_gone values known
  obtain ⟨wellFormed, rooted⟩ := history_rooted values known manager reached
  refine ⟨manager, reached, gone, fun level => ?_⟩
  rw [deliveredAfter, reached, Option.map_some, deliver_shown manager name level wellFormed rooted]

theorem new_root_view : view (LoggerManager.new defaultFormatter) "root" =
    some ⟨.debug, some defaultPattern, [⟨.stdout, .debug, some defaultPattern⟩]⟩ := by
  rw [view, new_loggers]
  rfl

end Delivery

section Removal

variable (earlier : List LogDefineSet) (last : LogDefineSet) (name : String)

theorem root_view_without (known : ∀ value ∈ earlier ++ [last], KnownTypes value) (different : name ≠ "root")
    (absent : ∀ i ∈ last.defines, i.name ≠ name) (after other : Manager)
    (reached : (history (earlier ++ [last])).2 = some after)
    (reachedOther : (history ((earlier ++ [last]).map (without name))).2 = some other)
    (gone : Gone (earlier ++ [last]) last after) (goneOther : Gone ((earlier ++ [last]).map (without name)) last other) :
    view after "root" = view other "root" := by
  have sticky := without_sticky (earlier ++ [last]) name "root" (Ne.symm different)
  have mentioned := without_mentioned (earlier ++ [last]) name "root" (Ne.symm different)
  by_cases defined : ∃ i ∈ last.defines, i.name = "root"
  · obtain ⟨i, member, here⟩ := defined
    have long := history_shows earlier last known i member
    have whole : (earlier ++ [last]).map (without name) = earlier.map (without name) ++ [last] := by
      rw [List.map_append, List.map_singleton, without_absent last name absent]
    have knownOther := without_known (earlier ++ [last]) name known
    rw [whole] at knownOther sticky reachedOther
    have short := history_shows (earlier.map (without name)) last knownOther i member
    rw [viewAfter, reached, Option.bind_some, here] at long
    rw [viewAfter, reachedOther, Option.bind_some, here] at short
    rw [long, short, sticky]
  · have undefined : ∀ i ∈ last.defines, i.name ≠ "root" := fun i member same => defined ⟨i, member, same⟩
    by_cases ever : Mentioned (earlier ++ [last]) "root"
    · rw [(gone "root" undefined).1 ever, (goneOther "root" undefined).1 (mentioned.mpr ever), sticky]
    · rw [(gone "root" undefined).2 ever, (goneOther "root" undefined).2 (mt mentioned.mp ever)]

-- A logger without a definition sends everything on to the root logger, which
-- a removed definition leaves without its appender.
theorem removed_delivers_iff (known : ∀ value ∈ earlier ++ [last], KnownTypes value)
    (absent : ∀ i ∈ last.defines, i.name ≠ name) :
    (∀ level, passes level .debug → deliveredAfter (earlier ++ [last]) name level =
        deliveredAfter ((earlier ++ [last]).map (without name)) name level) ↔
      name ≠ "root" ∨ ¬ Mentioned earlier name := by
  have mentioned := mentioned_append earlier last name absent
  by_cases ever : Mentioned earlier name
  · have lastOther : ((earlier ++ [last]).map (without name)).getLast?.getD .empty = last := by
      rw [List.map_append, List.map_singleton, without_absent last name absent, List.getLast?_concat, Option.getD_some]
    obtain ⟨after, reached, gone, delivered⟩ := delivered_after_shown name (earlier ++ [last]) known
    obtain ⟨other, reachedOther, goneOther, deliveredOther⟩ := delivered_after_shown name
      ((earlier ++ [last]).map (without name)) (without_known (earlier ++ [last]) name known)
    rw [List.getLast?_concat, Option.getD_some] at gone
    rw [lastOther] at goneOther
    have here := (gone name absent).1 (mentioned.mpr ever)
    have never := (goneOther name absent).2 (without_never_mentioned (earlier ++ [last]) name)
    simp only [delivered, deliveredOther, Option.some.injEq, here, never, Option.getD_some]
    by_cases root : name = "root"
    · subst root
      simp only [ever, ne_eq, not_true_eq_false, or_self, iff_false, not_forall, if_true]
      refine ⟨.debug, rfl, ?_⟩
      rw [deliver_shown_cleared .debug _ _ rfl, new_root_view]
      decide
    · have same := root_view_without earlier last name known root absent after other reached reachedOther gone goneOther
      have fresh : view (LoggerManager.new defaultFormatter) name = none := by simp [view, new_loggers, root]
      refine iff_of_true (fun level debug => ?_) (.inl root)
      rw [deliver_shown_cleared level _ _ debug, fresh, Option.getD_none, if_neg root, if_neg root, same]
  · rw [without_unmentioned (earlier ++ [last]) name (mt mentioned.mp ever)]
    exact iff_of_true (fun _ _ => rfl) (.inr ever)

theorem removed_delivers_iff_console :
    deliveredAfter ([consoleValue "%m%n"] ++ [LogDefineSet.empty]) "system" .warn =
      deliveredAfter (([consoleValue "%m%n"] ++ [LogDefineSet.empty]).map (without "system")) "system" .warn :=
  (removed_delivers_iff [consoleValue "%m%n"] .empty "system" (by simp [KnownTypes, consoleValue, LogDefineSet.empty])
    (by simp [LogDefineSet.empty])).mpr (.inl (by decide)) .warn (by decide)

def rootValue : LogDefineSet := ⟨[⟨"root", .info, "", [⟨2, .info, "", ""⟩]⟩], List.pairwise_singleton _ _⟩

theorem root_stays_silent :
    deliveredAfter [rootValue, .empty] "root" .debug = some .nowhere ∧
      deliveredAfter ([rootValue, .empty].map (without "root")) "root" .debug =
        some (.own [⟨.stdout, .debug, some defaultPattern⟩]) := by
  have known : ∀ value ∈ [rootValue, .empty], KnownTypes value := by simp [KnownTypes, rootValue, LogDefineSet.empty]
  obtain ⟨after, -, gone, delivered⟩ := delivered_after_shown "root" [rootValue, .empty] known
  obtain ⟨other, -, goneOther, deliveredOther⟩ := delivered_after_shown "root" ([rootValue, .empty].map (without "root"))
    (without_known [rootValue, .empty] "root" known)
  have here := (gone "root" (by simp [LogDefineSet.empty])).1 (by simp [Mentioned, rootValue])
  have never := (goneOther "root" (by simp [LogDefineSet.empty, without])).2 (without_never_mentioned _ "root")
  rw [delivered, deliveredOther, here, never, new_root_view]
  decide

end Removal

end Sylar.Log.LogRemoval
