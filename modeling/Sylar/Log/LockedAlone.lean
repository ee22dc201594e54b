import Sylar.Log.DeadlockFree

set_option autoImplicit false

namespace Sylar.Log.LockPrograms

open Lib (Address Heap)
open Lib.LockOrder
open Sylar.Config (ConfigType)
open Yaml (Entries Exception Node YamlCpp)

variable {Ty : Type} {yaml : YamlCpp} {types : Ty → ConfigType}

section Appenders

variable (world : World yaml types) (appender : Address)

@[simp] theorem on_manager_alone (update : Manager → Manager) :
    (onManager update : Code yaml types Unit).alone world = some ((), { world with manager := update world.manager }) := rfl

@[simp] theorem set_alone (update : Log.LogAppender LogFormatter → Log.LogAppender LogFormatter) :
    (LogAppender.set appender update : Code yaml types Unit).alone world = some ((), { world with
      manager := { world.manager with appenders := world.manager.appenders.modify appender update } }) := rfl

@[simp] theorem get_alone {α : Type} (field : Log.LogAppender LogFormatter → α) :
    (LogAppender.get appender field : Code yaml types (Option α)).alone world =
      some ((world.manager.appenders.read appender).map field, world) := rfl

@[simp] theorem new_alone (kind : AppenderKind) :
    (LogAppender.new kind : Code yaml types Address).alone world = some (world.manager.appenders.size, { world with
      manager := { world.manager with appenders := world.manager.appenders.alloc (.new kind) } }) := rfl

theorem inherit_alone (formatter : Option LogFormatter) :
    (Logger.inherit formatter appender : Code yaml types Unit).alone world = some ((), { world with
      manager := { world.manager with
        appenders := world.manager.appenders.modify appender (Log.LogAppender.inherit formatter) } }) := by
  cases present : world.manager.appenders.read appender with
  | none =>
      have unchanged := Heap.modify_absent _ appender (Log.LogAppender.inherit formatter) present
      simp [Logger.inherit, LogAppender.getHasFormatter, present, unchanged]
  | some ap =>
      by_cases own : ap.hasFormatter
      · have unchanged := Heap.modify_fixed _ appender ap (Log.LogAppender.inherit formatter) present
          (by simp [Log.LogAppender.inherit, own])
        simp [Logger.inherit, LogAppender.getHasFormatter, present, own, unchanged]
      · have inherited := Heap.modify_congr world.manager.appenders appender
          (fun object => (object.setFormatter formatter).setHasFormatter false) (Log.LogAppender.inherit formatter)
          fun object stored => by
            cases present.symm.trans stored
            simp [Log.LogAppender.inherit, own]
        simp [Logger.inherit, LogAppender.getHasFormatter, LogAppender.setFormatter, LogAppender.setHasFormatter, present,
          own, Heap.modify_modify, inherited]

theorem adopt_alone (logger : Address) (object : Log.Logger LogFormatter)
    (stored : world.manager.objects.read logger = some object) :
    (Logger.adopt logger appender : Code yaml types Unit).alone world = some ((), { world with
      manager := { world.manager with
        appenders := world.manager.appenders.modify appender (Log.LogAppender.adopt object.formatter) } }) := by
  by_cases given : ∃ ap, world.manager.appenders.read appender = some ap ∧ ap.formatter.isSome
  · obtain ⟨ap, present, isGiven⟩ := given
    obtain ⟨own, same⟩ := Option.isSome_iff_exists.mp isGiven
    have unchanged := Heap.modify_fixed _ appender ap (Log.LogAppender.adopt object.formatter) present
      (by simp [Log.LogAppender.adopt, isGiven])
    simp [Logger.adopt, LogAppender.getFormatter, present, same, unchanged]
  · have adopted := Heap.modify_congr world.manager.appenders appender
      (fun current => (current.setFormatter object.formatter).setHasFormatter false)
      (Log.LogAppender.adopt object.formatter) fun ap present => by
        simp [Log.LogAppender.adopt, show ¬ ap.formatter.isSome from fun isGiven => given ⟨ap, present, isGiven⟩]
    rw [← adopted]
    simp only [Logger.adopt, Prog.alone_bind, LogAppender.getFormatter, get_alone, Option.bind_some]
    split
    · rename_i own found
      obtain ⟨ap, present, same⟩ := Option.map_eq_some_iff.mp found
      exact absurd ⟨ap, present, by rw [same]; rfl⟩ given
    · simp [Logger.ownFormatter, stored, LogAppender.setFormatter, LogAppender.setHasFormatter, Heap.modify_modify]

end Appenders

section Loggers

variable (world : World yaml types) (logger : Address)

@[simp] theorem modify_logger_alone (update : Log.Logger LogFormatter → Log.Logger LogFormatter) :
    (Logger.locked logger (Logger.modify logger update) : Code yaml types Unit).alone world =
      some ((), { world with manager := world.manager.modifyLogger logger update }) := rfl

theorem set_level_alone (level : Level) :
    (Logger.setLevel logger level : Code yaml types Unit).alone world =
      some ((), { world with manager := world.manager.setLevel logger level }) := rfl

theorem clear_appender_alone :
    (Logger.clearAppender logger : Code yaml types Unit).alone world =
      some ((), { world with manager := world.manager.clearAppender logger }) := rfl

theorem del_appender_alone (appender : Address) :
    (Logger.delAppender logger appender : Code yaml types Unit).alone world =
      some ((), { world with manager := world.manager.delAppender logger appender }) := rfl

theorem add_appender_alone (appender : Address) (object : Log.Logger LogFormatter)
    (stored : world.manager.objects.read logger = some object) :
    (Logger.addAppender logger appender : Code yaml types Unit).alone world =
      some ((), { world with manager := world.manager.addAppender logger appender }) := by
  simp [Logger.addAppender, Logger.locked, adopt_alone world appender logger object stored, Logger.modify,
    Log.LoggerManager.modifyLogger, Log.LoggerManager.addAppender, stored]

theorem inherit_all_alone (formatter : Option LogFormatter) (list : List Address) :
    (Prog.forEach (Logger.inherit formatter) list : Code yaml types Unit).alone world = some ((), { world with
      manager := { world.manager with
        appenders := world.manager.appenders.modifyAll list (Log.LogAppender.inherit formatter) } }) := by
  induction list generalizing world with
  | nil => rfl
  | cons appender rest ih =>
      show (Logger.inherit formatter appender >>= fun _ => Prog.forEach _ rest : Code yaml types Unit).alone world = _
      rw [Prog.alone_bind, inherit_alone]
      exact ih _

theorem set_formatter_alone (formatter : Option LogFormatter) :
    (Logger.setFormatter logger formatter : Code yaml types Unit).alone world =
      some ((), { world with manager := world.manager.setFormatter logger formatter }) := by
  cases stored : world.manager.objects.read logger with
  | none =>
      have unchanged := Heap.modify_absent world.manager.objects logger
        (fun object => { object with formatter := formatter }) stored
      simp [Logger.setFormatter, Logger.locked, Logger.modify, Log.LoggerManager.modifyLogger, Logger.listed,
        Log.LoggerManager.setFormatter, stored, unchanged, Prog.forEach]
  | some object =>
      simp [Logger.setFormatter, Logger.locked, Logger.modify, Log.LoggerManager.modifyLogger, Logger.listed,
        Log.LoggerManager.setFormatter, stored, inherit_all_alone]

theorem set_formatter_text_alone (str : String) :
    (Logger.setFormatterText logger str : Code yaml types Unit).alone world =
      some ((), { world with manager := Log.LogIniter.setFormatterText world.manager logger str }) := by
  rw [Logger.setFormatterText, Log.LogIniter.setFormatterText]
  split
  · exact set_formatter_alone world logger _
  · rfl

theorem get_logger_alone (name : String) :
    (LoggerManager.getLogger name : Code yaml types Address).alone world =
      some ((world.manager.getLogger defaultFormatter name).2,
        { world with manager := (world.manager.getLogger defaultFormatter name).1 }) := by
  cases present : world.manager.loggers[name]? with
  | some logger => simp [LoggerManager.getLogger, Log.LoggerManager.getLogger, present]
  | none =>
      simp [LoggerManager.getLogger, Log.LoggerManager.getLogger, present, GetLoggerRace.insertLogger, Prog.alone]

end Loggers

section Logging

variable (level : Level)

-- An event that is logged changes at most when its appenders reopened their files.
def LeavesManager (code : Code yaml types Unit) : Prop :=
  ∀ world : World yaml types, ∃ lastTime, code.alone world = some ((), { world with lastTime := lastTime })

theorem leaves_pure : LeavesManager (.pure () : Code yaml types Unit) := fun world => ⟨world.lastTime, rfl⟩

theorem leaves_guarded (lock : Lock) (mode : Mode) (body : Code yaml types Unit) (leaves : LeavesManager body) :
    LeavesManager (.guarded lock mode body) := by
  intro world
  rw [Prog.alone_guarded]
  exact leaves world

theorem leaves_look {α : Type} (look : World yaml types → α) (rest : α → Code yaml types Unit)
    (leaves : ∀ found, LeavesManager (rest found)) : LeavesManager (.read look >>= rest) := by
  intro world
  rw [Prog.alone_bind, Prog.alone_read]
  exact leaves (look world) world

theorem leaves_then (code rest : Code yaml types Unit) (first : LeavesManager code) (later : LeavesManager rest) :
    LeavesManager (code >>= fun _ => rest) := by
  intro world
  obtain ⟨lastTime, reached⟩ := first world
  rw [Prog.alone_bind, reached]
  exact later { world with lastTime := lastTime }

theorem leaves_for_each {α : Type} (body : α → Code yaml types Unit) (list : List α)
    (each : ∀ item, LeavesManager (body item)) : LeavesManager (.forEach body list) := by
  induction list with
  | nil => exact leaves_pure
  | cons item rest ih => exact leaves_then _ _ (each item) ih

theorem log_appender_leaves (time : UInt64) (appender : Address) :
    LeavesManager (LogAppender.log level time appender : Code yaml types Unit) := by
  refine leaves_look _ _ fun found => ?_
  split
  · exact leaves_pure
  · split
    · split
      · refine leaves_then _ _ (leaves_look _ _ fun due => ?_) (leaves_guarded _ _ _ leaves_pure)
        split
        · exact leaves_then _ _ (leaves_guarded _ _ _ leaves_pure) fun world => ⟨_, rfl⟩
        · exact leaves_pure
      · exact leaves_guarded _ _ _ leaves_pure
    · exact leaves_pure

theorem log_within_leaves (time : UInt64) (depth : Nat) (logger : Address) :
    LeavesManager (Logger.logWithin level time depth logger : Code yaml types Unit) := by
  induction depth generalizing logger with
  | zero => exact leaves_pure
  | succ depth ih =>
      refine leaves_look _ _ fun admitted => ?_
      split
      · refine leaves_guarded _ _ _ (leaves_look _ _ fun found => ?_)
        split
        · exact leaves_pure
        · split
          · exact leaves_for_each _ _ (log_appender_leaves level time)
          · split
            · exact ih _
            · exact leaves_pure
      · exact leaves_pure

theorem log_leaves (logger : Address) (time : UInt64) :
    LeavesManager (Logger.log logger level time : Code yaml types Unit) :=
  leaves_look _ _ fun depth => log_within_leaves level time depth logger

theorem log_root_leaves : LeavesManager (logRoot level : Code yaml types Unit) := by
  refine leaves_look _ _ fun root => leaves_look _ _ fun admitted => ?_
  split
  · exact leaves_look _ _ fun time => log_leaves level root time
  · exact leaves_pure

end Logging

section Listener

-- The code run alone computes the sequential operation on the manager; both
-- break off at a null pointer.
def Computes (code : Code yaml types Unit) (apply : Manager → Option Manager) (manager : Manager) : Prop :=
  ∀ world : World yaml types, world.manager = manager →
    code.alone world = (apply manager).map fun after => ((), { world with manager := after })

theorem computes_for_each {α : Type} (body : α → Code yaml types Unit) (apply : Manager → α → Option Manager)
    (good : Manager → Prop) (list : List α) (manager : Manager) (holds : good manager)
    (each : ∀ item ∈ list, ∀ current, good current → Computes (body item) (apply · item) current)
    (kept : ∀ current item next, good current → apply current item = some next → good next) :
    Computes (.forEach body list) (fun current => list.foldlM apply current) manager := by
  induction list generalizing manager with
  | nil =>
      rintro world rfl
      rfl
  | cons item rest ih =>
      rintro world rfl
      show (body item >>= fun _ => Prog.forEach body rest).alone world = _
      rw [Prog.alone_bind, each item List.mem_cons_self world.manager holds world rfl]
      simp only [List.foldlM_cons]
      cases applied : apply world.manager item with
      | none => rfl
      | some next =>
          exact ih next (kept world.manager item next holds applied)
            (fun later member => each later (List.mem_cons_of_mem item member)) { world with manager := next } rfl

def withSettings (a : LogAppenderDefine) (ap : Log.LogAppender LogFormatter) : Log.LogAppender LogFormatter :=
  let leveled := ap.setLevel a.level
  if a.formatter ≠ "" then
    let fmt := LogFormatter.new a.formatter
    if !fmt.isError then leveled.setFormatter (some fmt) else leveled
  else leveled

theorem attach_alone (world : World yaml types) (logger : Address) (a : LogAppenderDefine) (kind : AppenderKind)
    (object : Log.Logger LogFormatter) (stored : world.manager.objects.read logger = some object) :
    (LogIniter.attach logger a kind : Code yaml types Unit).alone world = some ((), { world with
      manager := Log.LoggerManager.addAppender { world.manager with
        appenders := world.manager.appenders.alloc (withSettings a (.new kind)) } logger world.manager.appenders.size }) := by
  have formatted : (LogIniter.setOwnFormatter world.manager.appenders.size a.formatter : Code yaml types Unit).alone
      { world with manager := { world.manager with
        appenders := world.manager.appenders.alloc ((Log.LogAppender.new kind).setLevel a.level) } } =
      some ((), { world with manager := { world.manager with
        appenders := world.manager.appenders.alloc (withSettings a (.new kind)) } }) := by
    rw [LogIniter.setOwnFormatter, withSettings]
    split
    · dsimp only
      split
      · rw [LogAppender.setFormatter, set_alone, Heap.modify_alloc]
      · rfl
    · rfl
  simp only [LogIniter.attach, Prog.alone_bind, new_alone, Option.bind_some, LogAppender.setLevel, set_alone,
    Heap.modify_alloc, formatted]
  exact add_appender_alone _ logger _ object stored

theorem add_defined_computes (logger : Address) (a : LogAppenderDefine) (manager : Manager)
    (there : ∃ object, manager.objects.read logger = some object) :
    Computes (LogIniter.addDefined logger a : Code yaml types Unit) (Log.LogIniter.addDefined logger · a) manager := by
  rintro world rfl
  obtain ⟨object, stored⟩ := there
  rw [LogIniter.addDefined]
  split
  · rename_i file
    rw [attach_alone world logger a _ object stored]
    simp [Log.LogIniter.addDefined, Log.LogIniter.newAppender, file, withSettings]
  · rename_i notFile
    split
    · rename_i console
      rw [attach_alone world logger a _ object stored]
      simp [Log.LogIniter.addDefined, Log.LogIniter.newAppender, console, withSettings]
    · rename_i notConsole
      simp [Log.LogIniter.addDefined, Log.LogIniter.newAppender, notFile, notConsole]

theorem apply_define_computes (i : LogDefine) (manager : Manager) (wellFormed : manager.WellFormed) :
    Computes (LogIniter.applyDefine i : Code yaml types Unit) (Log.LogIniter.applyDefine · i) manager := by
  rintro world rfl
  have names := Log.LoggerManager.get_logger_names defaultFormatter world.manager i.name wellFormed
  simp only [LogIniter.applyDefine, Log.LogIniter.applyDefine, Prog.alone_bind, get_logger_alone, Option.bind_some,
    set_level_alone]
  generalize world.manager.getLogger defaultFormatter i.name = result at names
  obtain ⟨named, logger⟩ := result
  have formatted : (LogIniter.formatLogger logger i.formatter : Code yaml types Unit).alone
      { world with manager := named.setLevel logger i.level } = some ((), { world with
        manager := if i.formatter ≠ "" then Log.LogIniter.setFormatterText (named.setLevel logger i.level) logger i.formatter
          else named.setLevel logger i.level }) := by
    rw [LogIniter.formatLogger]
    split
    · exact set_formatter_text_alone _ logger i.formatter
    · rfl
  rw [formatted, Option.bind_some, clear_appender_alone, Option.bind_some]
  refine computes_for_each (LogIniter.addDefined logger) (Log.LogIniter.addDefined logger)
    (fun current => ∃ object, current.objects.read logger = some object) i.appenders (Log.LogIniter.prepare named logger i)
    ?_ (fun a _ current there => add_defined_computes logger a current there) ?_ _ rfl
  · obtain ⟨-, stored, -⟩ := Log.LogIniter.prepare_spec named logger _ i names.stored
    exact ⟨_, stored⟩
  · rintro current a next ⟨object, stored⟩ added
    obtain ⟨ap, -, rfl⟩ := Option.map_eq_some_iff.mp added
    exact ⟨_, by simp [Log.LoggerManager.addAppender, stored]; rfl⟩

theorem apply_new_computes (old : LogDefineSet) (i : LogDefine) (manager : Manager) (wellFormed : manager.WellFormed) :
    Computes (LogIniter.applyNew old i : Code yaml types Unit) (Log.LogIniter.applyNew old · i) manager := by
  rintro world rfl
  have applying := apply_define_computes i world.manager wellFormed world rfl
  cases found : old.find i with
  | none => simpa only [LogIniter.applyNew, Log.LogIniter.applyNew, found] using applying
  | some it =>
      simp only [LogIniter.applyNew, Log.LogIniter.applyNew, found]
      split
      · exact applying
      · rfl

theorem remove_old_computes (new : LogDefineSet) (i : LogDefine) (manager : Manager) :
    Computes (LogIniter.removeOld new i : Code yaml types Unit) (fun current => some (Log.LogIniter.removeOld new current i))
      manager := by
  rintro world rfl
  cases found : new.find i with
  | none =>
      simp only [LogIniter.removeOld, Log.LogIniter.removeOld, found, Prog.alone_bind, get_logger_alone, Option.bind_some,
        set_level_alone, clear_appender_alone, Option.map_some]
  | some it =>
      simp only [LogIniter.removeOld, Log.LogIniter.removeOld, found]
      rfl

theorem on_logs_changed_alone (old new : LogDefineSet) (world : World yaml types) (wellFormed : world.manager.WellFormed) :
    ∃ lastTime, (LogIniter.onLogsChanged old new : Code yaml types Unit).alone world =
      (Log.LogIniter.onLogsChanged old new world.manager).map fun after =>
        ((), { world with manager := after, lastTime := lastTime }) := by
  obtain ⟨lastTime, announced⟩ := log_root_leaves .info world
  refine ⟨lastTime, ?_⟩
  have applying := computes_for_each (LogIniter.applyNew old) (Log.LogIniter.applyNew old) (·.WellFormed) new.defines
    world.manager wellFormed (fun i _ current holds => apply_new_computes old i current holds) (fun current i next holds applied => ?_)
    { world with lastTime := lastTime } rfl
  · rw [LogIniter.onLogsChanged, Prog.alone_bind, announced, Option.bind_some, Prog.alone_bind, applying,
      Log.LogIniter.onLogsChanged]
    dsimp only
    cases new.defines.foldlM (Log.LogIniter.applyNew old) world.manager with
    | none => rfl
    | some applied =>
        have removing := computes_for_each (LogIniter.removeOld new) (fun current i => some (Log.LogIniter.removeOld new current i))
          (fun _ => True) old.defines applied trivial (fun i _ current _ => remove_old_computes new i current)
          (fun _ _ _ _ _ => trivial) { world with manager := applied, lastTime := lastTime } rfl
        have total : old.defines.foldlM (fun current i => some (Log.LogIniter.removeOld new current i)) applied =
            some (old.defines.foldl (Log.LogIniter.removeOld new) applied) := List.foldlM_pure
        rw [Option.map_some, Option.bind_some, removing]
        simp only [total, Option.map_some]
  · rw [Log.LogIniter.apply_new_changes] at applied
    split at applied
    · obtain ⟨logger, sets, -⟩ := Log.LogIniter.apply_define_applied current next i holds applied
      exact Log.LoggerManager.sets_well_formed current next i.name logger _ sets holds
    · cases applied
      exact holds

end Listener

section Dumps

variable (world : World yaml types)

theorem push_appenders_alone (list : List Address) (node : Entries) :
    (Logger.pushAppenders list node : Code yaml types (Except Exception Entries)).alone world =
      some ((list.filterMap world.manager.appenders.read).foldlM (fun (node : Entries) i =>
        return node.pushBack "appenders" (← yaml.load (i.toYamlString yaml))) node, world) := by
  induction list generalizing node with
  | nil => rfl
  | cons i rest ih =>
      rw [Logger.pushAppenders, Prog.alone_bind, LogAppender.toYamlString, get_alone, Option.bind_some]
      cases present : world.manager.appenders.read i with
      | none => simpa [present] using ih node
      | some ap =>
          rw [List.filterMap_cons_some present, List.foldlM_cons, Option.map_some]
          dsimp only
          cases loaded : yaml.load (ap.toYamlString yaml) with
          | error thrown => rfl
          | ok item => exact ih (node.pushBack "appenders" item)

theorem dump_logger_alone (logger : Address) (object : Log.Logger LogFormatter)
    (stored : world.manager.objects.read logger = some object) :
    (Logger.toYamlString logger : Code yaml types (Except Exception String)).alone world =
      some (object.toYamlString yaml world.manager, world) := by
  rw [Logger.toYamlString, Logger.locked, Prog.alone_guarded, Prog.alone_bind, Prog.alone_read, Option.bind_some, stored]
  dsimp only
  rw [Prog.alone_bind, push_appenders_alone, Option.bind_some, Log.Logger.toYamlString, Log.Logger.listed]
  dsimp only
  split
  · rename_i thrown failed
    rw [failed]
    rfl
  · rename_i node pushed
    rw [pushed]
    rfl

def dumpedItem (object : Log.Logger LogFormatter) : Except Exception Node := do
  yaml.load (← object.toYamlString yaml world.manager)

theorem push_loggers_alone (list : List Address) (items : List Node)
    (stored : ∀ logger ∈ list, ∃ object, world.manager.objects.read logger = some object) :
    (LoggerManager.pushLoggers list items : Code yaml types (Except Exception (List Node))).alone world =
      some (((list.filterMap world.manager.objects.read).mapM (dumpedItem world)).map (items ++ ·), world) := by
  induction list generalizing items with
  | nil => simp [LoggerManager.pushLoggers, Except.map, pure, Except.pure]
  | cons i rest ih =>
      obtain ⟨object, present⟩ := stored i List.mem_cons_self
      rw [LoggerManager.pushLoggers, Prog.alone_bind, dump_logger_alone world i object present, Option.bind_some,
        List.filterMap_cons_some present, List.mapM_cons]
      cases dumped : object.toYamlString yaml world.manager with
      | error thrown =>
          have item : dumpedItem world object = .error thrown := by
            rw [dumpedItem, dumped]
            rfl
          rw [item]
          rfl
      | ok text =>
          have item : dumpedItem world object = yaml.load text := by
            rw [dumpedItem, dumped]
            rfl
          rw [item]
          dsimp only
          cases yaml.load text with
          | error thrown => rfl
          | ok item =>
              dsimp only
              rw [ih (items ++ [item]) fun logger member => stored logger (List.mem_cons_of_mem i member)]
              cases (rest.filterMap world.manager.objects.read).mapM (dumpedItem world) with
              | error thrown => rfl
              | ok more => simp [Except.map, bind, Except.bind, pure, Except.pure]

theorem dump_manager_alone (order : List Address → List Address)
    (stored : ∀ logger ∈ order (world.manager.loggers.toList.map Prod.snd),
      ∃ object, world.manager.objects.read logger = some object) :
    (LoggerManager.toYamlString order : Code yaml types (Except Exception String)).alone world =
      some (world.manager.toYamlString yaml (order (world.manager.loggers.toList.map Prod.snd)), world) := by
  rw [LoggerManager.toYamlString, Prog.alone_guarded, Prog.alone_bind, Prog.alone_read, Option.bind_some, Prog.alone_bind,
    push_loggers_alone world _ _ stored, Option.bind_some]
  show _ = some ((((order _).filterMap world.manager.objects.read).mapM (dumpedItem world) >>= _), world)
  cases ((order (world.manager.loggers.toList.map Prod.snd)).filterMap world.manager.objects.read).mapM (dumpedItem world) with
  | error thrown => rfl
  | ok items => rfl

end Dumps

section Calls

theorem ignore_alone {α : Type} (code : Code yaml types α) (world final : World yaml types) (result : α)
    (reached : code.alone world = some (result, final)) : (ignore code).alone world = some ((), final) := by
  show (code >>= fun _ => Prog.pure ()).alone world = _
  rw [Prog.alone_bind, reached]
  rfl

variable [DecidableEq Ty] (toStr : ∀ tag, (typeOf yaml types tag).Val → Except Exception String)

-- setValue on "logs" with the one listener is the sequential callback.
theorem set_logs_alone (world : World yaml types) (wellFormed : world.manager.WellFormed) (pointer : Address)
    (var : Variable (typeOf yaml types none).Val) (key : Nat) (new : (typeOf yaml types none).Val)
    (stored : ConfigVar.cast (none : Option Ty) pointer world = some var) (single : var.cbs.toList = [(key, ())])
    (different : (var.val == new) = false) :
    ∃ lastTime, (ConfigVar.setValue (none : Option Ty) pointer new : Code yaml types Unit).alone world =
      (Log.LogIniter.onLogsChanged var.val new world.manager).map fun after => ((), { world with
        manager := after
        lastTime := lastTime
        vars := world.vars.modify pointer fun _ => ⟨none, { var with val := new }⟩ }) := by
  obtain ⟨lastTime, reached⟩ := on_logs_changed_alone var.val new world wellFormed
  refine ⟨lastTime, ?_⟩
  have notified : (ConfigVar.notify (none : Option Ty) pointer new : Code yaml types Bool).alone world =
      ((LogIniter.onLogsChanged var.val new : Code yaml types Unit).alone world).map fun reached => (true, reached.2) := by
    simp only [ConfigVar.notify, Prog.alone_guarded, Prog.alone_bind, Prog.alone_read, Option.bind_some, stored, different]
    rw [single]
    show ((LogIniter.onLogsChanged var.val new >>= fun _ => Prog.pure () : Code yaml types Unit) >>= fun _ =>
      Prog.pure true : Code yaml types Bool).alone world = _
    rw [Prog.alone_bind, Prog.alone_bind]
    cases (LogIniter.onLogsChanged var.val new : Code yaml types Unit).alone world <;> rfl
  simp only [ConfigVar.setValue, Prog.alone_bind, notified, reached]
  cases Log.LogIniter.onLogsChanged var.val new world.manager with
  | none => rfl
  | some after =>
      have unmoved : ConfigVar.cast (none : Option Ty) pointer { world with manager := after, lastTime := lastTime } = some var := stored
      simp [ConfigVar.modify, unmoved]

-- What a call on the manager, a logger or an appender makes of the manager. The
-- dump of the manager and the calls on the configuration are left out.
def sequential : Call yaml types → Manager → Option Manager
  | .newAppender kind, manager => some { manager with appenders := manager.appenders.alloc (.new kind) }
  | .getLogger name, manager => some (manager.getLogger defaultFormatter name).1
  | .addAppender logger appender, manager => some (manager.addAppender logger appender)
  | .delAppender logger appender, manager => some (manager.delAppender logger appender)
  | .setFormatter logger formatter, manager => some (manager.setFormatter logger formatter)
  | .setFormatterText logger str, manager => some (Log.LogIniter.setFormatterText manager logger str)
  | .setLevel logger level, manager => some (manager.setLevel logger level)
  | .clearAppender logger, manager => some (manager.clearAppender logger)
  | .setAppenderFormatter appender formatter, manager =>
      some { manager with appenders := manager.appenders.modify appender fun ap => ap.setFormatter formatter }
  | .setAppenderLevel appender level, manager =>
      some { manager with appenders := manager.appenders.modify appender fun ap => ap.setLevel level }
  | .setHasFormatter appender value, manager =>
      some { manager with appenders := manager.appenders.modify appender fun ap => ap.setHasFormatter value }
  | .setHasLevel appender value, manager =>
      some { manager with appenders := manager.appenders.modify appender fun ap => { ap with hasLevel := value } }
  | .passTime _, manager | .log _ _ _, manager | .logAppender _ _ _, manager | .reopen _, manager
  | .getFormatter _, manager | .getAppenderFormatter _, manager | .getAppenderLevel _, manager
  | .getHasFormatter _, manager | .getHasLevel _, manager | .dumpLogger _, manager | .dumpAppender _, manager => some manager
  | _, _ => none

theorem call_alone (call : Call yaml types) (world : World yaml types) (allowed : possible world call = true)
    (after : Manager) (meant : sequential call world.manager = some after) :
    ∃ final, (program toStr call).alone world = some ((), final) ∧ final.manager = after := by
  have leaves (code : Code yaml types Unit) (only : LeavesManager code) :
      ∃ final, code.alone world = some ((), final) ∧ final.manager = world.manager := by
    obtain ⟨lastTime, reached⟩ := only world
    exact ⟨_, reached, rfl⟩
  have there (logger : Address) (bound : decide (logger < world.manager.objects.size) = true) :=
    Heap.read_of_lt world.manager.objects logger (of_decide_eq_true bound)
  cases call with
  | newAppender kind =>
      cases meant
      exact ⟨_, ignore_alone _ world _ _ (new_alone world kind), rfl⟩
  | getLogger name =>
      cases meant
      exact ⟨_, ignore_alone _ world _ _ (get_logger_alone world name), rfl⟩
  | addAppender logger appender =>
      cases meant
      rw [possible, Bool.and_eq_true] at allowed
      obtain ⟨object, stored⟩ := there logger allowed.1
      exact ⟨_, add_appender_alone world logger appender object stored, rfl⟩
  | dumpLogger logger =>
      cases meant
      obtain ⟨object, stored⟩ := there logger allowed
      exact ⟨_, ignore_alone _ world _ _ (dump_logger_alone world logger object stored), rfl⟩
  | setFormatter logger formatter =>
      cases meant
      exact ⟨_, set_formatter_alone world logger formatter, rfl⟩
  | setFormatterText logger str =>
      cases meant
      exact ⟨_, set_formatter_text_alone world logger str, rfl⟩
  | log logger level time =>
      cases meant
      exact leaves _ (log_leaves level logger time)
  | logAppender appender level time =>
      cases meant
      exact leaves _ (log_appender_leaves level time appender)
  | dumpManager | lookup | lookupExisting | lookupBase | loadFromYaml | setValue | fromString | toString | addListener =>
      cases meant
  | _ =>
      cases meant
      exact ⟨_, rfl, rfl⟩

theorem call_uninterrupted (call : Call yaml types) (world : World yaml types) (rooted : Rooted 0 world)
    (allowed : possible world call = true) (after : Manager) (meant : sequential call world.manager = some after)
    (count thread : Nat) (bound : thread < count) :
    ∃ moves final, Lib.run (step possible (program toStr)) (idle world count)
      (.start thread call :: List.replicate moves (.move thread)) = some (idle final count) ∧ final.manager = after := by
  obtain ⟨final, completes, reached⟩ := call_alone toStr call world allowed after meant
  obtain ⟨moves, completed⟩ := operation_alone (Rooted 0) (rank 0) possible (program toStr) (nests_program toStr 0)
    world final count thread bound call allowed rooted completes
  exact ⟨moves, final, completed, reached⟩

theorem set_logs_uninterrupted (world : World yaml types) (rooted : Rooted 0 world) (wellFormed : world.manager.WellFormed)
    (pointer : Address) (var : Variable (typeOf yaml types none).Val) (key : Nat) (new : (typeOf yaml types none).Val)
    (stored : ConfigVar.cast (none : Option Ty) pointer world = some var) (single : var.cbs.toList = [(key, ())])
    (different : (var.val == new) = false) (after : Manager)
    (meant : Log.LogIniter.onLogsChanged var.val new world.manager = some after) (count thread : Nat) (bound : thread < count) :
    ∃ moves final, Lib.run (step possible (program toStr)) (idle world count)
      (.start thread (.setValue none pointer new) :: List.replicate moves (.move thread)) = some (idle final count) ∧
        final.manager = after ∧ ConfigVar.cast (none : Option Ty) pointer final = some { var with val := new } := by
  obtain ⟨lastTime, completes⟩ := set_logs_alone world wellFormed pointer var key new stored single different
  rw [meant] at completes
  obtain ⟨cell, here, same⟩ := Option.bind_eq_some_iff.mp stored
  have allowed : possible world (.setValue none pointer new) = true := decide_eq_true (Heap.read_bound _ _ _ here)
  obtain ⟨moves, completed⟩ := operation_alone (Rooted 0) (rank 0) possible (program toStr) (nests_program toStr 0)
    world _ count thread bound (.setValue none pointer new) allowed rooted completes
  exact ⟨moves, _, completed, rfl, by simp [ConfigVar.cast, here]⟩

end Calls

end Sylar.Log.LockPrograms
