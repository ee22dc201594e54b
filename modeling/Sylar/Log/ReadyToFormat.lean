import Sylar.Log.LogHistory
import Sylar.Log.LogsText
import Sylar.Log.Reconfigure

set_option autoImplicit false

namespace Sylar.Log.ReadyToFormat

open Config (ConfigVar)
open Lib (Address Heap run)
open LoggerManager LogHistory LogIniter
open Yaml (Node YamlCpp)

-- The calls of a program, on objects it has; any appender may go to any logger.
inductive Call where
  | newLogger (name : String)
  | getLogger (name : String)
  | newAppender (kind : AppenderKind)
  | addAppender (logger appender : Address)
  | delAppender (logger appender : Address)
  | clearAppender (logger : Address)
  | setLevel (logger : Address) (level : Level)
  | setFormatter (logger : Address) (formatter : LogFormatter)
  | setFormatterText (logger : Address) (str : String)
  | setAppenderFormatter (appender : Address) (formatter : LogFormatter)
  | setAppenderLevel (appender : Address) (level : Level)
  | load (text : String)
deriving DecidableEq, Repr

namespace Call

def Possible (manager : Manager) : Call → Prop
  | .addAppender logger appender => logger < manager.objects.size ∧ appender < manager.appenders.size
  | .delAppender logger _ | .clearAppender logger | .setLevel logger _ | .setFormatter logger _
  | .setFormatterText logger _ => logger < manager.objects.size
  | .setAppenderFormatter appender _ | .setAppenderLevel appender _ => appender < manager.appenders.size
  | _ => True

instance decidablePossible (manager : Manager) : ∀ call : Call, Decidable (call.Possible manager)
  | .addAppender logger appender =>
      inferInstanceAs (Decidable (logger < manager.objects.size ∧ appender < manager.appenders.size))
  | .delAppender logger _ | .clearAppender logger | .setLevel logger _ | .setFormatter logger _
  | .setFormatterText logger _ => inferInstanceAs (Decidable (logger < manager.objects.size))
  | .setAppenderFormatter appender _ | .setAppenderLevel appender _ =>
      inferInstanceAs (Decidable (appender < manager.appenders.size))
  | .newLogger _ | .getLogger _ | .newAppender _ | .load _ => inferInstanceAs (Decidable True)

def act (manager : Manager) : Call → Manager
  | .newLogger name => { manager with objects := manager.objects.alloc (Logger.new defaultFormatter name) }
  | .getLogger name => (manager.getLogger defaultFormatter name).1
  | .newAppender kind => { manager with appenders := manager.appenders.alloc (LogAppender.new kind) }
  | .addAppender logger appender => manager.addAppender logger appender
  | .delAppender logger appender => manager.delAppender logger appender
  | .clearAppender logger => manager.clearAppender logger
  | .setLevel logger level => manager.setLevel logger level
  | .setFormatter logger formatter => manager.setFormatter logger (some formatter)
  | .setFormatterText logger str => LogIniter.setFormatterText manager logger str
  | .setAppenderFormatter appender formatter =>
      { manager with appenders := manager.appenders.modify appender fun ap => ap.setFormatter (some formatter) }
  | .setAppenderLevel appender level =>
      { manager with appenders := manager.appenders.modify appender fun ap => ap.setLevel level }
  | .load _ => manager

-- What the call sets explicitly as the appender's formatter.
def explicitly (appender : Address) : Call → Option LogFormatter
  | .setAppenderFormatter other formatter => if other = appender then some formatter else none
  | _ => none

end Call

-- A load is ConfigVar::fromString on the variable "logs". A program that went
-- through a null pointer makes no further call.
def step (yaml : YamlCpp) (state : State) (call : Call) : Option State :=
  match state.2 with
  | none => none
  | some manager =>
      if call.Possible manager then
        match call with
        | .load text =>
            let result := state.1.fromString (LogDefineSet.decode yaml) text state.2
            some (result.1, result.2.1)
        | _ => some (state.1, some (call.act manager))
      else none

-- Every logger and every attached appender can format, and an appender with a
-- formatter of its own has one.
structure Ready (manager : Manager) : Prop where
  formatter : ∀ (logger : Address) (object : Logger LogFormatter), manager.objects.read logger = some object →
    object.formatter ≠ none
  attached : ∀ (logger : Address) (object : Logger LogFormatter), manager.objects.read logger = some object →
    ∀ appender ∈ object.appenders, ∃ ap, manager.appenders.read appender = some ap ∧ ap.formatter ≠ none
  own : ∀ (appender : Address) (ap : LogAppender LogFormatter), manager.appenders.read appender = some ap →
    ap.hasFormatter = true → ap.formatter ≠ none

def Owns (manager : Manager) (appender : Address) (formatter : Option LogFormatter) : Prop :=
  ∃ ap, manager.appenders.read appender = some ap ∧ ap.hasFormatter = true ∧ ap.formatter = formatter

-- A step keeps everything ready and every appender's own formatter.
structure Keeps (before after : Manager) : Prop where
  ready : Ready after
  owned : ∀ appender formatter, Owns before appender formatter → Owns after appender formatter

theorem Keeps.trans (before middle after : Manager) (first : Keeps before middle) (second : Keeps middle after) :
    Keeps before after :=
  ⟨second.ready, fun appender formatter owns => second.owned appender formatter (first.owned appender formatter owns)⟩

section Primitives

variable (manager : Manager)

theorem modify_logger_keeps (ready : Ready manager) (logger : Address)
    (update : Logger LogFormatter → Logger LogFormatter)
    (formatter : ∀ object, object.formatter ≠ none → (update object).formatter ≠ none)
    (appenders : ∀ object, ∀ appender ∈ (update object).appenders, appender ∈ object.appenders ∨
      ∃ ap, manager.appenders.read appender = some ap ∧ ap.formatter ≠ none) :
    Keeps manager (manager.modifyLogger logger update) := by
  have known (other : Address) (object : Logger LogFormatter)
      (stored : (manager.modifyLogger logger update).objects.read other = some object) :
      ∃ old, manager.objects.read other = some old ∧ (object = old ∨ object = update old) := by
    by_cases same : other = logger
    · subst same
      rw [modifyLogger, Heap.read_modify_here] at stored
      obtain ⟨old, here, rfl⟩ := Option.map_eq_some_iff.mp stored
      exact ⟨old, here, .inr rfl⟩
    · rw [modifyLogger, Heap.read_modify_elsewhere _ _ _ _ same] at stored
      exact ⟨object, stored, .inl rfl⟩
  refine ⟨⟨fun other object stored => ?_, fun other object stored appender member => ?_, ready.own⟩, fun _ _ => id⟩
  · obtain ⟨old, here, rfl | rfl⟩ := known other object stored
    · exact ready.formatter other object here
    · exact formatter old (ready.formatter other old here)
  · obtain ⟨old, here, rfl | rfl⟩ := known other object stored
    · exact ready.attached other object here appender member
    · rcases appenders old appender member with before | attached
      · exact ready.attached other old here appender before
      · exact attached

theorem alloc_logger_keeps (ready : Ready manager) (name : String) (root : Option Address) (loggers : Std.TreeMap String Address) :
    Keeps manager { manager with
      objects := manager.objects.alloc { Logger.new defaultFormatter name with root := root }, loggers := loggers } := by
  have known (other : Address) (object : Logger LogFormatter)
      (stored : (manager.objects.alloc { Logger.new defaultFormatter name with root := root }).read other = some object) :
      manager.objects.read other = some object ∨ object = { Logger.new defaultFormatter name with root := root } := by
    by_cases fresh : other = manager.objects.size
    · rw [fresh, Heap.read_alloc_fresh] at stored
      exact .inr (Option.some.inj stored).symm
    · exact .inl (Heap.read_alloc_known _ _ _ _ fresh stored)
  refine ⟨⟨fun other object stored => ?_, fun other object stored appender member => ?_, ready.own⟩, fun _ _ => id⟩
  · rcases known other object stored with old | rfl
    · exact ready.formatter other object old
    · simp [Logger.new]
  · rcases known other object stored with old | rfl
    · exact ready.attached other object old appender member
    · cases member

theorem get_logger_keeps (ready : Ready manager) (name : String) :
    Keeps manager (manager.getLogger defaultFormatter name).1 := by
  rw [getLogger]
  split
  · exact ⟨ready, fun _ _ => id⟩
  · exact alloc_logger_keeps manager ready name (some manager.root) _

theorem alloc_appender_keeps (ready : Ready manager) (ap : LogAppender LogFormatter)
    (own : ap.hasFormatter = true → ap.formatter ≠ none) :
    Keeps manager { manager with appenders := manager.appenders.alloc ap } := by
  refine ⟨⟨ready.formatter, fun logger object stored appender member => ?_, fun appender current stored flagged => ?_⟩, ?_⟩
  · obtain ⟨old, here, formatted⟩ := ready.attached logger object stored appender member
    exact ⟨old, Heap.read_alloc_keeps _ _ _ _ here, formatted⟩
  · by_cases fresh : appender = manager.appenders.size
    · subst fresh
      cases (Heap.read_alloc_fresh _ _).symm.trans stored
      exact own flagged
    · exact ready.own appender current (Heap.read_alloc_known _ _ _ _ fresh stored) flagged
  · rintro appender formatter ⟨old, here, owns⟩
    exact ⟨old, Heap.read_alloc_keeps _ _ _ _ here, owns⟩

theorem write_appenders_ready (ready : Ready manager) (appenders : Heap (LogAppender LogFormatter))
    (written : ∀ appender ap, manager.appenders.read appender = some ap →
      ∃ after, appenders.read appender = some after ∧ (ap.formatter ≠ none → after.formatter ≠ none) ∧
        (after.hasFormatter = true → after.formatter ≠ none))
    (size : appenders.size = manager.appenders.size) : Ready { manager with appenders := appenders } := by
  refine ⟨ready.formatter, fun logger object stored appender member => ?_, fun appender after stored flagged => ?_⟩
  · obtain ⟨ap, here, formatted⟩ := ready.attached logger object stored appender member
    obtain ⟨after, there, keeps, -⟩ := written appender ap here
    exact ⟨after, there, keeps formatted⟩
  · have bound := Heap.read_bound _ _ _ stored
    rw [size] at bound
    obtain ⟨ap, here⟩ := Heap.read_of_lt manager.appenders appender bound
    obtain ⟨same, there, -, own⟩ := written appender ap here
    cases there.symm.trans stored
    exact own flagged

theorem write_appenders_keeps (ready : Ready manager) (appenders : Heap (LogAppender LogFormatter))
    (written : ∀ appender ap, manager.appenders.read appender = some ap →
      ∃ after, appenders.read appender = some after ∧ (ap.formatter ≠ none → after.formatter ≠ none) ∧
        (after.hasFormatter = true → after.formatter ≠ none) ∧
        (ap.hasFormatter = true → after.hasFormatter = true ∧ after.formatter = ap.formatter))
    (size : appenders.size = manager.appenders.size) : Keeps manager { manager with appenders := appenders } := by
  refine ⟨write_appenders_ready manager ready appenders (fun appender ap here => ?_) size, ?_⟩
  · obtain ⟨after, there, keeps, own, -⟩ := written appender ap here
    exact ⟨after, there, keeps, own⟩
  · rintro appender formatter ⟨ap, here, flagged, formatted⟩
    obtain ⟨after, there, -, -, owns⟩ := written appender ap here
    exact ⟨after, there, (owns flagged).1, (owns flagged).2.trans formatted⟩

theorem inherit_written (formatter : LogFormatter) (ap : LogAppender LogFormatter)
    (own : ap.hasFormatter = true → ap.formatter ≠ none) :
    (LogAppender.inherit (some formatter) ap).formatter ≠ none ∧
      (ap.hasFormatter = true → (LogAppender.inherit (some formatter) ap).hasFormatter = true ∧
        (LogAppender.inherit (some formatter) ap).formatter = ap.formatter) := by
  rw [LogAppender.inherit]
  by_cases flagged : ap.hasFormatter
  · simpa [flagged] using own flagged
  · simp [flagged, LogAppender.setFormatter, LogAppender.setHasFormatter]

theorem adopt_written (formatter : Option LogFormatter) (nonnull : formatter ≠ none) (ap : LogAppender LogFormatter)
    (own : ap.hasFormatter = true → ap.formatter ≠ none) :
    (LogAppender.adopt formatter ap).formatter ≠ none ∧
      (ap.hasFormatter = true → (LogAppender.adopt formatter ap).hasFormatter = true ∧
        (LogAppender.adopt formatter ap).formatter = ap.formatter) := by
  rw [LogAppender.adopt]
  cases here : ap.formatter with
  | none =>
      rw [here] at own
      simpa [LogAppender.setFormatter, LogAppender.setHasFormatter, nonnull] using own
  | some current => simp [here]

theorem set_formatter_keeps (ready : Ready manager) (logger : Address) (formatter : LogFormatter) :
    Keeps manager (manager.setFormatter logger (some formatter)) := by
  rw [LoggerManager.setFormatter]
  split
  · exact ⟨ready, fun _ _ => id⟩
  · rename_i object stored
    have appenders := write_appenders_keeps manager ready
      (manager.appenders.modifyAll object.appenders (LogAppender.inherit (some formatter))) (fun appender ap here => by
        obtain ⟨formatted, owned⟩ := inherit_written formatter ap (ready.own appender ap here)
        by_cases listed : appender ∈ object.appenders
        · exact ⟨_, Heap.read_modify_all_listed _ _ _ ap _ (LogAppender.inherit_idempotent _) listed here,
            fun _ => formatted, fun _ => formatted, owned⟩
        · exact ⟨ap, (Heap.read_modify_all_elsewhere _ _ _ _ listed).trans here, id, ready.own appender ap here,
            fun flagged => ⟨flagged, rfl⟩⟩) (Heap.size_modify_all _ _ _)
    exact appenders.trans _ _ _ (modify_logger_keeps _ appenders.ready logger
      (fun current => { current with formatter := some formatter }) (fun _ _ => by simp) fun _ _ => .inl)

theorem set_formatter_text_keeps (ready : Ready manager) (logger : Address) (str : String) :
    Keeps manager (setFormatterText manager logger str) := by
  rw [setFormatterText]
  split
  · exact set_formatter_keeps manager ready logger _
  · exact ⟨ready, fun _ _ => id⟩

theorem add_appender_keeps (ready : Ready manager) (logger appender : Address) (bound : appender < manager.appenders.size) :
    Keeps manager (manager.addAppender logger appender) := by
  rw [addAppender]
  split
  · exact ⟨ready, fun _ _ => id⟩
  · rename_i object stored
    have formatter := ready.formatter logger object stored
    have appenders := write_appenders_keeps manager ready
      (manager.appenders.modify appender (LogAppender.adopt object.formatter)) (fun other ap here => by
        by_cases same : other = appender
        · subst same
          obtain ⟨formatted, owned⟩ := adopt_written object.formatter formatter ap (ready.own other ap here)
          exact ⟨_, by rw [Heap.read_modify_here, here]; rfl, fun _ => formatted, fun _ => formatted, owned⟩
        · exact ⟨ap, (Heap.read_modify_elsewhere _ _ _ _ same).trans here, id, ready.own other ap here,
            fun flagged => ⟨flagged, rfl⟩⟩) (Heap.size_modify _ _ _)
    obtain ⟨ap, here⟩ := Heap.read_of_lt manager.appenders appender bound
    refine appenders.trans _ _ _ (modify_logger_keeps _ appenders.ready logger
      (fun current => { current with appenders := current.appenders ++ [appender] }) (fun _ => id) ?_)
    intro current other member
    rcases List.mem_append.mp member with old | added
    · exact .inl old
    · rw [List.mem_singleton.mp added]
      have adopted := adopt_written object.formatter formatter ap (ready.own appender ap here)
      refine .inr ⟨LogAppender.adopt object.formatter ap, ?_, adopted.1⟩
      show (manager.appenders.modify appender (LogAppender.adopt object.formatter)).read appender = _
      rw [Heap.read_modify_here, here]
      rfl

end Primitives

section Callback

variable (manager : Manager)

theorem fold_keeps {α : Type} (apply : Manager → α → Option Manager) (list : List α)
    (each : ∀ current, ∀ a ∈ list, Ready current → ∃ after, apply current a = some after ∧ Keeps current after)
    (ready : Ready manager) : ∃ after, list.foldlM apply manager = some after ∧ Keeps manager after := by
  induction list generalizing manager with
  | nil => exact ⟨manager, rfl, ready, fun _ _ => id⟩
  | cons a rest ih =>
      obtain ⟨next, applied, first⟩ := each manager a List.mem_cons_self ready
      obtain ⟨after, completed, later⟩ := ih next (fun current other member => each current other (List.mem_cons_of_mem _ member))
        first.ready
      exact ⟨after, by rw [List.foldlM_cons, applied]; exact completed, first.trans _ _ _ later⟩

theorem new_appender_ready (a : LogAppenderDefine) (known : a.type = 1 ∨ a.type = 2) :
    ∃ ap, newAppender a = some ap ∧ (ap.hasFormatter = true → ap.formatter ≠ none) := by
  have made : ∃ object : LogAppender LogFormatter, object.hasFormatter = false ∧
      (if a.type = 1 then some (LogAppender.new (.file a.file)) else if a.type = 2 then some (.new .stdout) else none) =
        some object := by
    rcases known with file | stdout
    · exact ⟨_, rfl, if_pos file⟩
    · exact ⟨LogAppender.new .stdout, rfl, by rw [stdout]; rfl⟩
  obtain ⟨object, unflagged, made⟩ := made
  rw [newAppender, made]
  refine ⟨_, rfl, ?_⟩
  dsimp only
  split
  · split
    · exact fun _ => by simp [LogAppender.setFormatter]
    · simp [LogAppender.setLevel, unflagged]
  · simp [LogAppender.setLevel, unflagged]

theorem add_defined_keeps (ready : Ready manager) (logger : Address) (a : LogAppenderDefine)
    (known : a.type = 1 ∨ a.type = 2) : ∃ after, addDefined logger manager a = some after ∧ Keeps manager after := by
  obtain ⟨ap, made, own⟩ := new_appender_ready a known
  have allocated := alloc_appender_keeps manager ready ap own
  have added := add_appender_keeps _ allocated.ready logger manager.appenders.size (by simp)
  exact ⟨_, by rw [addDefined, made, Option.map_some], allocated.trans _ _ _ added⟩

theorem prepare_keeps (ready : Ready manager) (logger : Address) (i : LogDefine) :
    Keeps manager (prepare manager logger i) := by
  have leveled : Keeps manager (manager.setLevel logger i.level) :=
    modify_logger_keeps manager ready logger _ (fun _ => id) fun _ _ => .inl
  have formatted : Keeps manager (if i.formatter ≠ "" then
      setFormatterText (manager.setLevel logger i.level) logger i.formatter else manager.setLevel logger i.level) := by
    split
    · exact leveled.trans _ _ _ (set_formatter_text_keeps _ leveled.ready logger i.formatter)
    · exact leveled
  exact formatted.trans _ _ _ (modify_logger_keeps _ formatted.ready logger _ (fun _ => id) fun _ _ member => by cases member)

theorem apply_define_keeps (ready : Ready manager) (i : LogDefine) (known : ∀ a ∈ i.appenders, a.type = 1 ∨ a.type = 2) :
    ∃ after, applyDefine manager i = some after ∧ Keeps manager after := by
  have named := get_logger_keeps manager ready i.name
  rw [applyDefine]
  generalize manager.getLogger defaultFormatter i.name = result at named
  obtain ⟨found, logger⟩ := result
  have prepared := named.trans _ _ _ (prepare_keeps found named.ready logger i)
  obtain ⟨after, completed, added⟩ := fold_keeps (prepare found logger i) (addDefined logger) i.appenders
    (fun current a member ready => add_defined_keeps current ready logger a (known a member)) prepared.ready
  exact ⟨after, completed, prepared.trans _ _ _ added⟩

theorem on_logs_changed_ready (ready : Ready manager) (old new : LogDefineSet) (known : KnownTypes new) :
    ∃ after, onLogsChanged old new manager = some after ∧ Keeps manager after := by
  rw [on_logs_changed_changes]
  exact fold_keeps manager applyDefine (changes old new)
    (fun current i member ready => apply_define_keeps current ready i (changes_known old new known i member)) ready

end Callback

section Calls

variable (yaml : YamlCpp)

-- What a call keeps: only an explicit setting of the very appender replaces a
-- formatter of its own.
structure Calls (call : Call) (before after : Manager) : Prop where
  ready : Ready after
  owned : ∀ appender formatter, call.explicitly appender = none → Owns before appender formatter →
    Owns after appender formatter
  explicit : ∀ appender formatter, call.explicitly appender = some formatter → Owns after appender (some formatter)

theorem keeps_calls (call : Call) (before after : Manager) (none : ∀ appender, call.explicitly appender = none)
    (keeps : Keeps before after) : Calls call before after := by
  refine ⟨keeps.ready, fun appender formatter _ => keeps.owned appender formatter, fun appender formatter set => ?_⟩
  rw [none] at set
  cases set

theorem set_appender_formatter_calls (manager : Manager) (ready : Ready manager) (appender : Address)
    (formatter : LogFormatter) (bound : appender < manager.appenders.size) :
    Calls (.setAppenderFormatter appender formatter) manager (Call.act manager (.setAppenderFormatter appender formatter)) := by
  obtain ⟨ap, here⟩ := Heap.read_of_lt manager.appenders appender bound
  have written : (manager.appenders.modify appender fun ap => ap.setFormatter (some formatter)).read appender =
      some (ap.setFormatter (some formatter)) := by
    rw [Heap.read_modify_here, here]
    rfl
  refine ⟨?_, ?_, ?_⟩
  · apply write_appenders_ready manager ready _ _ (Heap.size_modify _ _ _)
    intro other current there
    by_cases same : other = appender
    · subst same
      exact ⟨_, written, fun _ => by simp [LogAppender.setFormatter], fun _ => by simp [LogAppender.setFormatter]⟩
    · exact ⟨current, (Heap.read_modify_elsewhere _ _ _ _ same).trans there, id, ready.own other current there⟩
  · rintro other own unset ⟨current, there, owns⟩
    have different : other ≠ appender := by
      rintro rfl
      simp [Call.explicitly] at unset
    exact ⟨current, (Heap.read_modify_elsewhere _ _ _ _ different).trans there, owns⟩
  · intro other own set
    simp only [Call.explicitly, Option.ite_none_right_eq_some, Option.some.injEq] at set
    obtain ⟨rfl, rfl⟩ := set
    exact ⟨_, written, rfl, rfl⟩

theorem act_calls (manager : Manager) (ready : Ready manager) (call : Call) (possible : call.Possible manager) :
    Calls call manager (call.act manager) := by
  cases call with
  | newLogger name => exact keeps_calls _ _ _ (fun _ => rfl) (alloc_logger_keeps manager ready name none manager.loggers)
  | getLogger name => exact keeps_calls _ _ _ (fun _ => rfl) (get_logger_keeps manager ready name)
  | newAppender kind =>
      exact keeps_calls _ _ _ (fun _ => rfl) (alloc_appender_keeps manager ready _ (by simp [LogAppender.new]))
  | addAppender logger appender =>
      exact keeps_calls _ _ _ (fun _ => rfl) (add_appender_keeps manager ready logger appender possible.2)
  | delAppender logger appender =>
      exact keeps_calls _ _ _ (fun _ => rfl) (modify_logger_keeps manager ready logger _ (fun _ => id)
        fun _ _ member => .inl (List.mem_of_mem_erase member))
  | clearAppender logger =>
      exact keeps_calls _ _ _ (fun _ => rfl) (modify_logger_keeps manager ready logger _ (fun _ => id)
        fun _ _ member => by cases member)
  | setLevel logger level =>
      exact keeps_calls _ _ _ (fun _ => rfl) (modify_logger_keeps manager ready logger _ (fun _ => id) fun _ _ => .inl)
  | setFormatter logger formatter =>
      exact keeps_calls _ _ _ (fun _ => rfl) (set_formatter_keeps manager ready logger formatter)
  | setFormatterText logger str =>
      exact keeps_calls _ _ _ (fun _ => rfl) (set_formatter_text_keeps manager ready logger str)
  | setAppenderFormatter appender formatter => exact set_appender_formatter_calls manager ready appender formatter possible
  | setAppenderLevel appender level =>
      refine keeps_calls _ _ _ (fun _ => rfl) (write_appenders_keeps manager ready _ (fun other ap here => ?_)
        (Heap.size_modify _ _ _))
      by_cases same : other = appender
      · subst same
        exact ⟨ap.setLevel level, by rw [Heap.read_modify_here, here]; rfl, id, ready.own other ap here,
          fun flagged => ⟨flagged, rfl⟩⟩
      · exact ⟨ap, (Heap.read_modify_elsewhere _ _ _ _ same).trans here, id, ready.own other ap here,
          fun flagged => ⟨flagged, rfl⟩⟩
  | load text => exact keeps_calls _ _ _ (fun _ => rfl) ⟨ready, fun _ _ => id⟩

theorem load_apply (state : State) (text : String) (value : LogDefineSet)
    (decoded : LogDefineSet.decode yaml text = .ok value) :
    ((state.1.fromString (LogDefineSet.decode yaml) text state.2).1,
      (state.1.fromString (LogDefineSet.decode yaml) text state.2).2.1) = applyValue state value := by
  rw [ConfigVar.fromString, decoded, applyValue]
  dsimp only
  split <;> simp_all

theorem load_keeps (state : State) (manager : Manager) (text : String) (callbacks : state.1.cbs = start.1.cbs)
    (reached : state.2 = some manager) (ready : Ready manager) :
    ∃ after, (state.1.fromString (LogDefineSet.decode yaml) text state.2).2.1 = some after ∧ Keeps manager after := by
  cases decoded : LogDefineSet.decode yaml text with
  | error thrown =>
      rw [ConfigVar.fromString, decoded]
      exact ⟨manager, reached, ready, fun _ _ => id⟩
  | ok value =>
      rw [show (state.1.fromString (LogDefineSet.decode yaml) text state.2).2.1 = (applyValue state value).2 from
        congrArg Prod.snd (load_apply yaml state text value decoded)]
      by_cases same : state.1.val = value
      · rw [apply_value_same state value same]
        exact ⟨manager, reached, ready, fun _ _ => id⟩
      · rw [apply_value_changed state value same callbacks, reached]
        exact on_logs_changed_ready manager ready state.1.val value (LogDefineSet.decode_known yaml text value decoded)

theorem step_calls (state next : State) (manager : Manager) (call : Call) (callbacks : state.1.cbs = start.1.cbs)
    (reached : state.2 = some manager) (ready : Ready manager) (stepped : step yaml state call = some next) :
    next.1.cbs = start.1.cbs ∧ ∃ after, next.2 = some after ∧ Calls call manager after := by
  rw [step, reached] at stepped
  dsimp only at stepped
  split at stepped
  · rename_i possible
    cases call with
    | load text =>
        cases stepped
        obtain ⟨after, loaded, keeps⟩ := load_keeps yaml state manager text callbacks reached ready
        rw [reached] at loaded
        exact ⟨by simpa using callbacks, after, loaded, keeps_calls _ _ _ (fun _ => rfl) keeps⟩
    | _ =>
        cases stepped
        exact ⟨callbacks, _, rfl, act_calls manager ready _ possible⟩
  · cases stepped

end Calls

section Program

variable (yaml : YamlCpp)

def lastExplicit (schedule : List Call) (appender : Address) : Option LogFormatter :=
  (schedule.filterMap (Call.explicitly appender)).getLast?

theorem run_calls (schedule : List Call) (state final : State) (manager : Manager) (callbacks : state.1.cbs = start.1.cbs)
    (reached : state.2 = some manager) (ready : Ready manager) (completed : run (step yaml) state schedule = some final) :
    final.1.cbs = start.1.cbs ∧ ∃ after, final.2 = some after ∧ Ready after ∧ ∀ appender formatter,
      lastExplicit schedule appender = some formatter ∨
        (schedule.filterMap (Call.explicitly appender) = [] ∧ Owns manager appender (some formatter)) →
          Owns after appender (some formatter) := by
  induction schedule generalizing state manager with
  | nil =>
      cases completed
      refine ⟨callbacks, manager, reached, ready, fun appender formatter owner => ?_⟩
      rcases owner with never | ⟨-, owns⟩
      · cases never
      · exact owns
  | cons call rest ih =>
      obtain ⟨next, stepped, remaining⟩ := Lib.run_cons_some (step yaml) state final call rest completed
      obtain ⟨callbacksNext, middle, reachedNext, calls⟩ :=
        step_calls yaml state next manager call callbacks reached ready stepped
      obtain ⟨callbacksFinal, after, reachedFinal, readyFinal, owned⟩ :=
        ih next middle callbacksNext reachedNext calls.ready remaining
      refine ⟨callbacksFinal, after, reachedFinal, readyFinal, fun appender formatter owner => ?_⟩
      apply owned appender formatter
      cases set : call.explicitly appender with
      | none =>
          rw [lastExplicit, List.filterMap_cons_none set] at owner
          exact owner.imp id fun ⟨never, owns⟩ => ⟨never, calls.owned appender _ set owns⟩
      | some given =>
          rw [lastExplicit, List.filterMap_cons_some set] at owner
          rcases owner with last | ⟨never, -⟩
          · cases later : rest.filterMap (Call.explicitly appender) with
            | nil =>
                rw [later] at last
                cases last
                exact .inr ⟨rfl, calls.explicit appender given set⟩
            | cons first others =>
                rw [later, List.getLast?_cons_cons] at last
                exact .inl (by rw [lastExplicit, later, last])
          · cases never

theorem new_ready : Ready (LoggerManager.new defaultFormatter) := by
  have only (logger : Address) (object : Logger LogFormatter)
      (stored : (LoggerManager.new defaultFormatter).objects.read logger = some object) :
      object = { Logger.new defaultFormatter "root" with appenders := [0] } := by
    have bound : logger < 1 := Heap.read_bound _ _ _ stored
    obtain rfl : logger = 0 := Nat.lt_one_iff.mp bound
    exact (Option.some.inj ((new_root defaultFormatter).symm.trans stored)).symm
  refine ⟨fun logger object stored => ?_, fun logger object stored appender member => ?_, fun appender ap stored flagged => ?_⟩
  · rw [only logger object stored]
    simp [Logger.new]
  · rw [only logger object stored] at member
    rw [List.mem_singleton.mp member]
    exact ⟨_, rfl, Option.some_ne_none defaultFormatter⟩
  · have bound : appender < 1 := Heap.read_bound _ _ _ stored
    obtain rfl : appender = 0 := Nat.lt_one_iff.mp bound
    cases stored
    cases flagged

theorem log_formats (manager : Manager) (ready : Ready manager) (level : Level) (depth : Nat)
    (logger target : Address) (list : List (Address × Option LogFormatter))
    (logged : Reconfigure.log manager level depth logger = some (target, list)) : ∀ entry ∈ list, entry.2 ≠ none := by
  induction depth generalizing logger with
  | zero => cases logged
  | succ depth ih =>
      rw [Reconfigure.log] at logged
      split at logged
      · cases logged
      · cases stored : manager.objects.read logger with
        | none => simp [Reconfigure.dispatch, stored] at logged
        | some object =>
            simp only [Reconfigure.dispatch, stored] at logged
            by_cases empty : object.appenders.isEmpty
            · cases root : object.root with
              | none => simp [empty, root] at logged
              | some top =>
                  simp only [empty, root, Bool.not_true, Bool.false_eq_true, if_false] at logged
                  exact ih top logged
            · simp only [empty, Bool.not_false, if_true, Option.some.injEq, Prod.mk.injEq] at logged
              obtain ⟨-, rfl⟩ := logged
              intro entry member
              obtain ⟨appender, listed, rendered⟩ := List.mem_filterMap.mp member
              obtain ⟨ap, here, formatted⟩ := ready.attached logger object stored appender listed
              simp only [Reconfigure.renders, here, Option.bind_some, Option.ite_none_right_eq_some, Option.some.injEq]
                at rendered
              rw [← rendered.2]
              exact formatted

-- The first part is about the objects, the second about every later event, the
-- third about the program's own settings, the last about the appenders to which
-- a configuration gave a formatter of their own.
theorem always_ready (schedule : List Call) (final : State) (completed : run (step yaml) start schedule = some final) :
    ∃ manager, final.2 = some manager ∧ Ready manager ∧
      (∀ level depth logger target list, Reconfigure.log manager level depth logger = some (target, list) →
        ∀ entry ∈ list, entry.2 ≠ none) ∧
      (∀ appender formatter, lastExplicit schedule appender = some formatter →
        ∃ ap, manager.appenders.read appender = some ap ∧ ap.formatter = some formatter) ∧
      ∀ earlier later middle current, schedule = earlier ++ later → run (step yaml) start earlier = some middle →
        middle.2 = some current → ∀ appender formatter, Owns current appender (some formatter) →
          (∀ call ∈ later, call.explicitly appender = none) → Owns manager appender (some formatter) := by
  obtain ⟨-, manager, reached, ready, owned⟩ := run_calls yaml schedule start final _ rfl rfl new_ready completed
  refine ⟨manager, reached, ready, fun level depth logger target list logged =>
    log_formats manager ready level depth logger target list logged, fun appender formatter last => ?_, ?_⟩
  · obtain ⟨ap, here, -, formatted⟩ := owned appender formatter (.inl last)
    exact ⟨ap, here, formatted⟩
  · rintro earlier later middle current rfl reachedMiddle here appender formatter owns untouched
    obtain ⟨callbacks, same, hereToo, readyMiddle, -⟩ := run_calls yaml earlier start middle _ rfl rfl new_ready reachedMiddle
    cases here.symm.trans hereToo
    rw [Lib.run_append_some (step yaml) start middle earlier later reachedMiddle] at completed
    obtain ⟨-, after, reachedAfter, -, kept⟩ := run_calls yaml later middle final current callbacks here readyMiddle completed
    cases reached.symm.trans reachedAfter
    exact kept appender formatter (.inr ⟨List.filterMap_eq_nil_iff.mpr untouched, owns⟩)

def systemNode : Node :=
  .map [(.scalar "name", .scalar "system"),
    (.scalar "appenders", .sequence [.map [(.scalar "type", .scalar "StdoutLogAppender")]])]

def systemYaml : YamlCpp where
  emit
    | .sequence _ => "- name: system\n  appenders:\n    - type: StdoutLogAppender"
    | _ => "name: system\nappenders:\n  - type: StdoutLogAppender"
  load v :=
    if v = "- name: system\n  appenders:\n    - type: StdoutLogAppender" then .ok (.sequence [systemNode])
    else if v = "name: system\nappenders:\n  - type: StdoutLogAppender" then .ok systemNode
    else .error "unknown document"
  asIndex _ := none

def sharedCalls : List Call :=
  [.newAppender (.file "app.txt"), .setAppenderFormatter 1 (LogFormatter.new "%m%n"), .getLogger "system",
    .addAppender 1 1, .addAppender 0 1, .setFormatterText 0 "%p%n", .setFormatterText 1 "%d%n",
    .load "- name: system\n  appenders:\n    - type: StdoutLogAppender", .delAppender 0 1]

theorem always_ready_shared :
    ∃ final manager, run (step systemYaml) start sharedCalls = some final ∧ final.2 = some manager ∧
      ∃ ap, manager.appenders.read 1 = some ap ∧ ap.formatter = some (LogFormatter.new "%m%n") := by
  have completed : run (step systemYaml) start sharedCalls = some _ := rfl
  obtain ⟨manager, reached, -, -, explicit, -⟩ := always_ready systemYaml sharedCalls _ completed
  exact ⟨_, manager, completed, reached, explicit 1 _ rfl⟩

end Program

end Sylar.Log.ReadyToFormat
