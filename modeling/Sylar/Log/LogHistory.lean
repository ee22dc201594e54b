import Mathlib.Data.List.Induction
import Sylar.Config.ConfigVar
import Sylar.Log.LogReconcile

set_option autoImplicit false

namespace Sylar.Log.LogHistory

open Config (ConfigVar OnChange)
open Lib (Heap Address)
open LoggerManager LogIniter

-- LogIniter's listener as a callback of the variable; a world of none is a
-- program that went through a null pointer.
def listener : OnChange LogDefineSet (Option Manager) := fun old new world => (world.bind (onLogsChanged old new), none)

abbrev State := ConfigVar LogDefineSet (Option Manager) × Option Manager

-- g_log_defines with its listener, and the manager, before any value is set.
def start : State :=
  (((ConfigVar.new "logs" .empty "logs config").addListener 0 listener).1, some (LoggerManager.new defaultFormatter))

def applyValue (state : State) (value : LogDefineSet) : State :=
  let result := state.1.setValue value state.2
  (result.1, result.2.1)

def history (values : List LogDefineSet) : State := values.foldl applyValue start

structure AppenderView where
  kind : AppenderKind
  level : Level
  pattern : Option String
deriving DecidableEq, Repr

structure LoggerView where
  level : Level
  pattern : Option String
  appenders : List AppenderView
deriving DecidableEq, Repr

def viewAppender (ap : LogAppender LogFormatter) : AppenderView :=
  ⟨ap.kind, ap.level, ap.formatter.map LogFormatter.pattern⟩

def view (manager : Manager) (name : String) : Option LoggerView :=
  (manager.loggers[name]?.bind manager.objects.read).map fun object =>
    ⟨object.level, object.formatter.map LogFormatter.pattern,
      (object.appenders.filterMap manager.appenders.read).map viewAppender⟩

def viewAfter (values : List LogDefineSet) (name : String) : Option LoggerView :=
  (history values).2.bind fun manager => view manager name

def validPattern (text : String) : Option String :=
  if text ≠ "" ∧ !(LogFormatter.new text).isError then some text else none

def named (set : LogDefineSet) (name : String) : Option LogDefine := set.defines.find? fun other => other.name == name

-- The last pattern that the values gave a name and that compiles.
def lastPattern (values : List LogDefineSet) (name : String) : Option String :=
  values.foldl (fun last value =>
    match named value name with
    | none => last
    | some i => (validPattern i.formatter).or last) none

def stickyPattern (values : List LogDefineSet) (name : String) : String :=
  (lastPattern values name).getD defaultPattern

def wanted (i : LogDefine) (pattern : String) : LoggerView :=
  ⟨i.level, some pattern, i.appenders.map fun a =>
    ⟨if a.type = 1 then .file a.file else .stdout, a.level, some ((validPattern a.formatter).getD pattern)⟩⟩

def KnownTypes (value : LogDefineSet) : Prop := ∀ i ∈ value.defines, ∀ a ∈ i.appenders, a.type = 1 ∨ a.type = 2

section Patterns

variable (values : List LogDefineSet) (value : LogDefineSet) (name : String)

theorem own_formatter_pattern (text : String) : (ownFormatter text).map LogFormatter.pattern = validPattern text := by
  rw [ownFormatter, validPattern]
  split <;> rfl

theorem last_pattern_append :
    lastPattern (values ++ [value]) name =
      match named value name with
      | none => lastPattern values name
      | some i => (validPattern i.formatter).or (lastPattern values name) := by
  rw [lastPattern, List.foldl_append]
  rfl

theorem named_member (i : LogDefine) (member : i ∈ value.defines) : named value i.name = some i :=
  (value.find_some_iff i i).mpr ⟨member, rfl⟩

theorem sticky_pattern_member (i : LogDefine) (member : i ∈ value.defines) :
    stickyPattern (values ++ [value]) i.name = (validPattern i.formatter).getD (stickyPattern values i.name) := by
  simp only [stickyPattern, last_pattern_append, named_member value i member]
  cases validPattern i.formatter <;> rfl

theorem sticky_pattern_absent (absent : ∀ i ∈ value.defines, i.name ≠ name) :
    stickyPattern (values ++ [value]) name = stickyPattern values name := by
  have missing : named value name = none := by simpa [named] using absent
  rw [stickyPattern, last_pattern_append, missing]
  rfl

end Patterns

section Views

theorem filter_map_read {α β : Type} (list : List α) (read : α → Option β) (contents : List β)
    (all : list.map read = contents.map some) : list.filterMap read = contents := by
  have joined : list.filterMap read = (list.map read).filterMap id := by rw [List.filterMap_map]; rfl
  rw [joined, all, List.filterMap_map]
  simp

theorem settled_view (start after : Manager) (i : LogDefine) (logger : Address) (object : Logger LogFormatter)
    (settled : Settled start after i logger object) (pattern : String)
    (shown : object.formatter.map LogFormatter.pattern = some pattern) :
    view after i.name = some (wanted i pattern) := by
  have contents := filter_map_read object.appenders after.appenders.read
    (i.appenders.map (definedAppender object.formatter)) (by rw [settled.appenders, List.map_map]; rfl)
  have each (a : LogAppenderDefine) : viewAppender (definedAppender object.formatter a) =
      ⟨if a.type = 1 then .file a.file else .stdout, a.level, some ((validPattern a.formatter).getD pattern)⟩ := by
    rw [viewAppender, definedAppender, Option.map_or, own_formatter_pattern, shown]
    cases validPattern a.formatter <;> rfl
  rw [view, settled.named, Option.bind_some, settled.stored, Option.map_some, contents, settled.level, shown,
    List.map_map, wanted]
  simp only [Function.comp_def, each]

theorem current_formatter (manager : Manager) (name : String) (logger : Address) (object : Logger LogFormatter)
    (present : manager.loggers[name]? = some logger) (stored : manager.objects.read logger = some object) :
    (manager.current defaultFormatter name).formatter = object.formatter := by
  simp only [current, present, Option.bind_some, stored]

theorem untouched_view (start after : Manager) (touched : String → Prop) (wellFormed : start.WellFormed)
    (separate : start.Separate) (reached : Reached start touched after) (name : String) (untouched : ¬ touched name) :
    view after name = view start name := by
  unfold view
  rw [reached.loggers name untouched]
  cases present : start.loggers[name]? with
  | none => rfl
  | some logger =>
      rw [Option.bind_some, Option.bind_some, reached.objects name logger untouched present]
      cases stored : start.objects.read logger with
      | none => rfl
      | some object =>
          have own := attached_stored name logger object start present stored
          have same : ∀ appender ∈ object.appenders, after.appenders.read appender = start.appenders.read appender := by
            intro appender member
            rw [← own] at member
            apply reached.contents appender (wellFormed.stored name appender member)
            intro other worked
            exact separate name other (fun equal => untouched (equal ▸ worked)) appender member
          rw [Option.map_some, Option.map_some, List.filterMap_congr same]

end Views

-- The manager after a history: each logger has the last pattern it was given,
-- and the loggers of the current value show what their definitions ask for.
structure Consistent (values : List LogDefineSet) (val : LogDefineSet) (manager : Manager) : Prop where
  wellFormed : manager.WellFormed
  separate : manager.Separate
  formatter : ∀ name,
    (manager.current defaultFormatter name).formatter.map LogFormatter.pattern = some (stickyPattern values name)
  shown : ∀ i ∈ val.defines, view manager i.name = some (wanted i (stickyPattern values i.name))
  valid : ∀ i ∈ val.defines, ∀ pattern, validPattern i.formatter = some pattern → stickyPattern values i.name = pattern

section History

theorem sticky_pattern_again (values : List LogDefineSet) (value : LogDefineSet) (i : LogDefine)
    (member : i ∈ value.defines)
    (valid : ∀ pattern, validPattern i.formatter = some pattern → stickyPattern values i.name = pattern) :
    stickyPattern (values ++ [value]) i.name = stickyPattern values i.name := by
  rw [sticky_pattern_member values value i member]
  cases own : validPattern i.formatter with
  | none => rfl
  | some pattern => exact (valid pattern own).symm

theorem valid_again (values : List LogDefineSet) (value : LogDefineSet) (i : LogDefine) (member : i ∈ value.defines)
    (pattern : String) (own : validPattern i.formatter = some pattern) :
    stickyPattern (values ++ [value]) i.name = pattern := by
  rw [sticky_pattern_member values value i member, own]
  rfl

theorem consistent_initial : Consistent [] .empty (LoggerManager.new defaultFormatter) := by
  refine ⟨new_well_formed defaultFormatter, new_separate defaultFormatter, ?_, ?_, ?_⟩
  · intro name
    by_cases root : name = "root"
    · have present := new_loggers defaultFormatter name
      rw [if_pos root] at present
      rw [current_formatter _ name 0 _ present (new_root defaultFormatter)]
      rfl
    · simp only [current, new_loggers, root, if_false, Option.bind_none]
      rfl
  · intro i member
    cases member
  · intro i member
    cases member

theorem consistent_same (values : List LogDefineSet) (val : LogDefineSet) (manager : Manager)
    (consistent : Consistent values val manager) : Consistent (values ++ [val]) val manager := by
  have again : ∀ i ∈ val.defines, stickyPattern (values ++ [val]) i.name = stickyPattern values i.name :=
    fun i member => sticky_pattern_again values val i member (consistent.valid i member)
  refine ⟨consistent.wellFormed, consistent.separate, ?_, ?_, valid_again values val⟩
  · intro name
    rw [consistent.formatter name]
    by_cases listed : ∃ i ∈ val.defines, i.name = name
    · obtain ⟨i, member, rfl⟩ := listed
      rw [again i member]
    · rw [sticky_pattern_absent values val name fun i member same => listed ⟨i, member, same⟩]
  · intro i member
    rw [again i member]
    exact consistent.shown i member

theorem settled_pattern (values : List LogDefineSet) (val value : LogDefineSet) (manager after : Manager)
    (consistent : Consistent values val manager) (i : LogDefine) (member : i ∈ changes val value) (logger : Address)
    (object : Logger LogFormatter) (settled : Settled manager after i logger object) :
    object.formatter.map LogFormatter.pattern = some (stickyPattern (values ++ [value]) i.name) := by
  rw [settled.formatter, Option.map_or, own_formatter_pattern, consistent.formatter i.name]
  rcases (mem_changes val value i).mp member with ⟨inValue, -⟩ | ⟨gone, -, missing, rfl⟩
  · rw [sticky_pattern_member values value i inValue]
    cases validPattern i.formatter <;> rfl
  · have absent := (value.find_none_iff gone).mp missing
    rw [show (cleared gone.name).name = gone.name from rfl, sticky_pattern_absent values value gone.name absent]
    rfl

theorem consistent_changed (values : List LogDefineSet) (val value : LogDefineSet) (manager : Manager)
    (known : KnownTypes value) (consistent : Consistent values val manager) :
    ∃ after, onLogsChanged val value manager = some after ∧ Consistent (values ++ [value]) value after := by
  obtain ⟨after, completed, reached, settled⟩ := on_logs_changed_run val value manager consistent.wellFormed known
  have separate := on_logs_changed_separate val value manager after consistent.wellFormed consistent.separate completed
  have patterns := fun i member logger object => settled_pattern values val value manager after consistent i member logger object
  -- Outside the changes the value is either the one already set or names nothing.
  have still : ∀ i ∈ value.defines, i ∉ changes val value →
      i ∈ val.defines ∧ stickyPattern (values ++ [value]) i.name = stickyPattern values i.name := by
    intro i member free
    have unchanged : val.find i = some i := by
      by_contra changed
      exact free ((mem_changes val value i).mpr (.inl ⟨member, changed⟩))
    have inVal := ((val.find_some_iff i i).mp unchanged).1
    exact ⟨inVal, sticky_pattern_again values value i member (consistent.valid i inVal)⟩
  refine ⟨after, completed, reached.wellFormed, separate, ?_, ?_, valid_again values value⟩
  · intro name
    by_cases touched : ∃ i ∈ changes val value, name = i.name
    · obtain ⟨i, member, rfl⟩ := touched
      obtain ⟨logger, object, holds⟩ := settled i member
      rw [current_formatter after i.name logger object holds.named holds.stored]
      exact patterns i member logger object holds
    · rw [reached_formatter manager after _ reached name touched, consistent.formatter name]
      by_cases listed : ∃ i ∈ value.defines, i.name = name
      · obtain ⟨i, member, rfl⟩ := listed
        rw [(still i member fun changed => touched ⟨i, changed, rfl⟩).2]
      · rw [sticky_pattern_absent values value name fun i member same => listed ⟨i, member, same⟩]
  · intro i member
    by_cases changed : i ∈ changes val value
    · obtain ⟨logger, object, holds⟩ := settled i changed
      exact settled_view manager after i logger object holds _ (patterns i changed logger object holds)
    · obtain ⟨inVal, same⟩ := still i member changed
      have unchanged := (val.find_some_iff i i).mpr ⟨inVal, rfl⟩
      rw [untouched_view manager after _ consistent.wellFormed consistent.separate reached i.name
        (unchanged_untouched val value i member unchanged), same]
      exact consistent.shown i inVal

theorem start_callbacks : start.1.cbs.toList = [(1, listener)] := rfl

theorem apply_value_same (state : State) (value : LogDefineSet) (same : state.1.val = value) :
    applyValue state value = state := by
  simp [applyValue, ConfigVar.setValue, same]

theorem apply_value_changed (state : State) (value : LogDefineSet) (different : state.1.val ≠ value)
    (callbacks : state.1.cbs = start.1.cbs) :
    applyValue state value = ({ state.1 with val := value }, state.2.bind (onLogsChanged state.1.val value)) := by
  simp [applyValue, ConfigVar.setValue, different, callbacks, start_callbacks, ConfigVar.notify, listener]

theorem history_append (values : List LogDefineSet) (value : LogDefineSet) :
    history (values ++ [value]) = applyValue (history values) value := by
  rw [history, List.foldl_append]
  rfl

theorem history_consistent (values : List LogDefineSet) (known : ∀ value ∈ values, KnownTypes value) :
    ∃ manager, (history values).2 = some manager ∧ (history values).1.cbs = start.1.cbs ∧
      (history values).1.val = values.getLast?.getD .empty ∧ Consistent values (history values).1.val manager := by
  induction values using List.reverseRecOn with
  | nil => exact ⟨_, rfl, rfl, rfl, consistent_initial⟩
  | append_singleton earlier value ih =>
      obtain ⟨manager, reached, callbacks, -, consistent⟩ := ih fun other member => known other (List.mem_append_left _ member)
      rw [history_append, List.getLast?_concat, Option.getD_some]
      by_cases same : (history earlier).1.val = value
      · rw [apply_value_same (history earlier) value same]
        subst same
        exact ⟨manager, reached, callbacks, rfl, consistent_same earlier _ manager consistent⟩
      · obtain ⟨after, completed, next⟩ :=
          consistent_changed earlier (history earlier).1.val value manager (known value (by simp)) consistent
        rw [apply_value_changed (history earlier) value same callbacks]
        refine ⟨after, ?_, callbacks, rfl, next⟩
        rw [reached]
        exact completed

theorem history_reached (values : List LogDefineSet) (known : ∀ value ∈ values, KnownTypes value) (manager : Manager)
    (reached : (history values).2 = some manager) :
    (history values).1.cbs = start.1.cbs ∧ (history values).1.val = values.getLast?.getD .empty ∧
      Consistent values (history values).1.val manager := by
  obtain ⟨same, reachedToo, outcome⟩ := history_consistent values known
  rw [reached, Option.some.injEq] at reachedToo
  rw [reachedToo]
  exact outcome

theorem history_keeps (invariant : Manager → Prop) (initial : invariant (LoggerManager.new defaultFormatter))
    (kept : ∀ manager after i, manager.WellFormed → manager.Separate → invariant manager →
      applyDefine manager i = some after → invariant after)
    (values : List LogDefineSet) (known : ∀ value ∈ values, KnownTypes value) (manager : Manager)
    (reached : (history values).2 = some manager) : invariant manager := by
  induction values using List.reverseRecOn generalizing manager with
  | nil =>
      cases reached
      exact initial
  | append_singleton earlier value ih =>
      have knownEarlier : ∀ other ∈ earlier, KnownTypes other :=
        fun other member => known other (List.mem_append_left _ member)
      obtain ⟨before, reachedBefore, callbacks, -, consistent⟩ := history_consistent earlier knownEarlier
      have holds := ih knownEarlier before reachedBefore
      rw [history_append] at reached
      by_cases unchanged : (history earlier).1.val = value
      · rw [apply_value_same (history earlier) value unchanged, reachedBefore, Option.some.injEq] at reached
        rwa [← reached]
      · rw [apply_value_changed (history earlier) value unchanged callbacks, reachedBefore] at reached
        exact on_logs_changed_keeps _ value invariant kept before manager consistent.wellFormed consistent.separate holds reached

theorem history_shows (earlier : List LogDefineSet) (last : LogDefineSet)
    (known : ∀ value ∈ earlier ++ [last], KnownTypes value) (i : LogDefine) (member : i ∈ last.defines) :
    viewAfter (earlier ++ [last]) i.name = some (wanted i (stickyPattern (earlier ++ [last]) i.name)) := by
  obtain ⟨manager, reached, -, current, consistent⟩ := history_consistent (earlier ++ [last]) known
  rw [List.getLast?_concat, Option.getD_some] at current
  have shown := consistent.shown
  rw [current] at shown
  rw [viewAfter, reached, Option.bind_some]
  exact shown i member

theorem history_independent_iff (earlier : List LogDefineSet) (last : LogDefineSet)
    (known : ∀ value ∈ earlier ++ [last], KnownTypes value) (i : LogDefine) (member : i ∈ last.defines) :
    viewAfter (earlier ++ [last]) i.name = viewAfter [last] i.name ↔
      (validPattern i.formatter).isSome ∨ stickyPattern earlier i.name = defaultPattern := by
  have long := history_shows earlier last known i member
  have short := history_shows [] last (fun value inLast => known value (List.mem_append_right _ inLast)) i member
  rw [List.nil_append] at short
  rw [long, short, sticky_pattern_member earlier last i member]
  have alone := sticky_pattern_member [] last i member
  rw [List.nil_append] at alone
  rw [alone]
  cases validPattern i.formatter with
  | none =>
      rw [Option.getD_none, Option.getD_none, Option.some.injEq]
      refine ⟨fun same => .inr (Option.some.inj (congrArg LoggerView.pattern same)), ?_⟩
      rintro (absurdity | same)
      · cases absurdity
      · rw [same]
        rfl
  | some pattern => simp

def consoleValue (formatter : String) : LogDefineSet :=
  ⟨[⟨"system", .info, formatter, [⟨2, .debug, "", ""⟩]⟩], List.pairwise_singleton _ _⟩

theorem history_independent_iff_console :
    viewAfter [consoleValue "%m%n", consoleValue "%p%n"] "system" = viewAfter [consoleValue "%p%n"] "system" :=
  (history_independent_iff [consoleValue "%m%n"] (consoleValue "%p%n") (by simp [KnownTypes, consoleValue])
    ⟨"system", .info, "%p%n", [⟨2, .debug, "", ""⟩]⟩ List.mem_cons_self).mpr (.inl (by decide))

theorem earlier_pattern_stays :
    viewAfter [consoleValue "%m%n", consoleValue ""] "system" =
        some ⟨.info, some "%m%n", [⟨.stdout, .debug, some "%m%n"⟩]⟩ ∧
      viewAfter [consoleValue ""] "system" =
        some ⟨.info, some defaultPattern, [⟨.stdout, .debug, some defaultPattern⟩]⟩ ∧
      viewAfter [consoleValue "%m%n", consoleValue ""] "system" ≠ viewAfter [consoleValue ""] "system" := by
  have listed : (⟨"system", .info, "", [⟨2, .debug, "", ""⟩]⟩ : LogDefine) ∈ (consoleValue "").defines := List.mem_cons_self
  have long := history_shows [consoleValue "%m%n"] (consoleValue "") (by simp [KnownTypes, consoleValue]) _ listed
  have short := history_shows [] (consoleValue "") (by simp [KnownTypes, consoleValue]) _ listed
  have kept : stickyPattern ([consoleValue "%m%n"] ++ [consoleValue ""]) "system" = "%m%n" := by decide
  have initial : stickyPattern ([] ++ [consoleValue ""]) "system" = defaultPattern := by decide
  rw [kept] at long
  rw [initial] at short
  refine ⟨long, short, ?_⟩
  rw [show viewAfter [consoleValue "%m%n", consoleValue ""] "system" = _ from long,
    show viewAfter [consoleValue ""] "system" = _ from short]
  decide

end History

end Sylar.Log.LogHistory
