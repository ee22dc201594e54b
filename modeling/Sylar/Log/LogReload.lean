import Sylar.Log.LogDump

set_option autoImplicit false

namespace Sylar.Log.LogDump

open Lib (Address Heap)
open LoggerManager LogHistory LogIniter
open Yaml (Entries Exception Node YamlCpp)

def Compiles (formatter : Option LogFormatter) : Prop :=
  ∃ text, validPattern text = some text ∧ formatter = some (LogFormatter.new text)

-- An appender that was set up by a definition for a logger with the formatter.
def Defined (formatter : Option LogFormatter) (ap : LogAppender LogFormatter) : Prop :=
  ap.hasLevel ∧ (ap.hasFormatter → Compiles ap.formatter) ∧ (ap.hasFormatter = false → ap.formatter = formatter)

-- What the dump relies on. Only the first appender of the root logger comes
-- from elsewhere than a definition, and it is a StdoutAppender.
def Dumpable (manager : Manager) : Prop :=
  ∀ (name : String) (logger : Address) (object : Logger LogFormatter), manager.loggers[name]? = some logger →
    manager.objects.read logger = some object →
      object.name = name ∧ Compiles object.formatter ∧
        ∀ ap ∈ object.listed manager, ap.kind = .stdout ∨ Defined object.formatter ap

section Invariant

theorem own_formatter_compiles (text : String) (formatter : LogFormatter) (own : ownFormatter text = some formatter) :
    Compiles (some formatter) := by
  rw [ownFormatter] at own
  split at own
  · rename_i valid
    cases own
    exact ⟨text, by rw [validPattern, if_pos valid], rfl⟩
  · cases own

theorem defined_appender_defined (formatter : Option LogFormatter) (a : LogAppenderDefine) :
    Defined formatter (definedAppender formatter a) := by
  refine ⟨rfl, ?_, ?_⟩ <;> simp only [definedAppender] <;> cases own : ownFormatter a.formatter with
  | none => simp
  | some formatter => simp [own_formatter_compiles a.formatter formatter own]

theorem default_compiles : Compiles (some defaultFormatter) := ⟨defaultPattern, by decide, rfl⟩

theorem new_dumpable : Dumpable (LoggerManager.new defaultFormatter) := by
  intro name logger object present stored
  rw [new_loggers] at present
  split at present <;> cases present
  rename_i here
  cases (new_root defaultFormatter).symm.trans stored
  refine ⟨here.symm, default_compiles, fun ap member => .inl ?_⟩
  have only : ap ∈ [LogAppender.adopt (some defaultFormatter) (LogAppender.new .stdout)] := member
  rw [List.mem_singleton.mp only]
  rfl

theorem current_named (manager : Manager) (dumpable : Dumpable manager) (name : String) :
    (manager.current defaultFormatter name).name = name ∧ Compiles (manager.current defaultFormatter name).formatter := by
  rw [current]
  split
  · exact ⟨rfl, default_compiles⟩
  · rename_i object found
    obtain ⟨logger, present, stored⟩ := Option.bind_eq_some_iff.mp found
    obtain ⟨named, compiles, -⟩ := dumpable name logger object present stored
    exact ⟨named, compiles⟩

theorem apply_define_dumpable (manager after : Manager) (i : LogDefine) (wellFormed : manager.WellFormed)
    (separate : manager.Separate) (dumpable : Dumpable manager) (applied : applyDefine manager i = some after) :
    Dumpable after := by
  obtain ⟨logger, sets, added⟩ := apply_define_applied manager after i wellFormed applied
  intro name pointer object present stored
  by_cases here : name = i.name
  · subst here
    rw [sets.named] at present
    cases present
    rw [sets.stored] at stored
    cases stored
    obtain ⟨named, compiles⟩ := current_named manager dumpable i.name
    have contents := filter_map_read (configured manager i).appenders after.appenders.read
      (i.appenders.map (definedAppender (configured manager i).formatter)) (by rw [added, List.map_map]; rfl)
    refine ⟨named, ?_, fun ap member => .inr ?_⟩
    · rw [configured]
      cases own : ownFormatter i.formatter with
      | none => simpa using compiles
      | some formatter => exact own_formatter_compiles i.formatter formatter own
    · rw [Logger.listed, contents] at member
      obtain ⟨a, -, rfl⟩ := List.mem_map.mp member
      exact defined_appender_defined _ a
  · rw [sets.loggers name here] at present
    rw [sets_other_object manager after i.name logger _ sets wellFormed name pointer here present] at stored
    have same : object.listed after = object.listed manager := by
      apply List.filterMap_congr
      intro appender member
      have own := attached_stored name pointer object manager present stored
      exact sets.contents appender (wellFormed.stored name appender (own ▸ member))
        (separate name i.name here appender (own ▸ member))
    rw [same]
    exact dumpable name pointer object present stored

end Invariant

section Restoring

def shownAs (pattern : String) (a : LogAppenderDefine) : AppenderView :=
  ⟨if a.type = 1 then .file a.file else .stdout, a.level, some ((validPattern a.formatter).getD pattern)⟩

theorem dumped_appender_shown (pattern : String) (ap : LogAppender LogFormatter) (filename : String)
    (kind : ap.kind = .file filename) (defined : Defined (some (LogFormatter.new pattern)) ap) :
    (dumpedAppender ap).map (shownAs pattern) = some (viewAppender ap) := by
  obtain ⟨leveled, own, inherited⟩ := defined
  rw [dumpedAppender, kind, viewAppender, kind]
  cases formatted : ap.hasFormatter with
  | true =>
      obtain ⟨text, valid, here⟩ := own formatted
      have shown : (LogFormatter.new text).pattern = text := rfl
      simp [shownAs, leveled, here, shown, valid]
  | false =>
      have empty : validPattern "" = none := rfl
      have shown : (LogFormatter.new pattern).pattern = pattern := rfl
      simp [shownAs, leveled, inherited formatted, empty, shown]

theorem dumped_appenders_shown_iff (pattern : String) (list : List (LogAppender LogFormatter))
    (each : ∀ ap ∈ list, ap.kind = .stdout ∨ Defined (some (LogFormatter.new pattern)) ap) :
    (list.filterMap dumpedAppender).map (shownAs pattern) = list.map viewAppender ↔ ∀ ap ∈ list, ap.kind ≠ .stdout := by
  constructor
  · -- The reader leaves a StdoutAppender out, so the lists have different lengths.
    intro same ap member stdout
    have lengths := congrArg List.length same
    rw [List.length_map, List.length_map, List.length_filterMap_eq_countP, List.countP_eq_length] at lengths
    have kept := lengths ap member
    rw [dumpedAppender, stdout] at kept
    cases kept
  · intro files
    induction list with
    | nil => rfl
    | cons ap rest ih =>
        have others := ih (fun other member => each other (List.mem_cons_of_mem _ member))
          fun other member => files other (List.mem_cons_of_mem _ member)
        have defined := (each ap List.mem_cons_self).resolve_left (files ap List.mem_cons_self)
        cases kind : ap.kind with
        | stdout => exact absurd kind (files ap List.mem_cons_self)
        | file filename =>
            obtain ⟨a, dump, shown⟩ := Option.map_eq_some_iff.mp (dumped_appender_shown pattern ap filename kind defined)
            rw [List.filterMap_cons_some dump, List.map_cons, List.map_cons, shown, others]

-- A logger that is there shows its own level and pattern again, and the
-- appenders that the reader knows.
theorem restored_iff (manager after : Manager) (dumpable : Dumpable manager) (name : String) (logger : Address)
    (object : Logger LogFormatter) (present : manager.loggers[name]? = some logger)
    (stored : manager.objects.read logger = some object)
    (settled : ∃ pointer target, Settled manager after (dumped manager object) pointer target) :
    view after name = view manager name ↔
      ∀ shown, view manager name = some shown → ∀ ap ∈ shown.appenders, ap.kind ≠ .stdout := by
  obtain ⟨rfl, ⟨text, valid, formatter⟩, each⟩ := dumpable name logger object present stored
  obtain ⟨pointer, target, holds⟩ := settled
  have written : (dumped manager object).formatter = text := by
    simp only [dumped, formatter, Option.map_some, Option.getD_some]
    rfl
  have pattern : target.formatter.map LogFormatter.pattern = some text := by
    rw [holds.formatter, written, Option.map_or, own_formatter_pattern, valid]
    rfl
  have long : view after object.name = some ⟨object.level, some text,
      ((object.listed manager).filterMap dumpedAppender).map (shownAs text)⟩ :=
    settled_view manager after (dumped manager object) pointer target holds text pattern
  have short : view manager object.name = some ⟨object.level, some text, (object.listed manager).map viewAppender⟩ := by
    rw [view, present, Option.bind_some, stored, Option.map_some, formatter]
    rfl
  rw [formatter] at each
  rw [long, short]
  simpa [viewAppender] using dumped_appenders_shown_iff text (object.listed manager) each

theorem dumped_known (manager : Manager) (object : Logger LogFormatter) :
    ∀ a ∈ (dumped manager object).appenders, a.type = 1 ∨ a.type = 2 := by
  intro a member
  obtain ⟨ap, -, dump⟩ := List.mem_filterMap.mp member
  rw [dumpedAppender] at dump
  split at dump
  · cases dump
    exact .inl rfl
  · cases dump

end Restoring

section Reloading

variable (yaml : YamlCpp) (manager : Manager) (order : List Address)

theorem order_mem (perm : order.Perm (manager.loggers.toList.map Prod.snd)) (object : Logger LogFormatter) :
    object ∈ order.filterMap manager.objects.read ↔
      ∃ (name : String) (logger : Address), manager.loggers[name]? = some logger ∧
        manager.objects.read logger = some object := by
  simp only [List.mem_filterMap, perm.mem_iff, List.mem_map, Prod.exists, Std.TreeMap.mem_toList_iff_getElem?_eq_some]
  constructor
  · rintro ⟨logger, ⟨name, pointer, present, rfl⟩, stored⟩
    exact ⟨name, pointer, present, stored⟩
  · rintro ⟨name, logger, present, stored⟩
    exact ⟨logger, ⟨name, logger, present, rfl⟩, stored⟩

theorem order_distinct (dumpable : Dumpable manager) (perm : order.Perm (manager.loggers.toList.map Prod.snd)) :
    (order.filterMap manager.objects.read).Pairwise fun first second => first.name ≠ second.name := by
  rw [List.pairwise_filterMap, perm.pairwise_iff fun apart object stored other storedOther =>
    (apart other storedOther object stored).symm, List.pairwise_map]
  apply manager.loggers.distinct_keys_toList.imp_of_mem
  rintro ⟨first, logger⟩ ⟨second, pointer⟩ inFirst inSecond different object stored other storedOther
  rw [Std.TreeMap.mem_toList_iff_getElem?_eq_some] at inFirst inSecond
  rw [(dumpable first logger object inFirst stored).1, (dumpable second pointer other inSecond storedOther).1]
  simpa using different

theorem reload_completes (wellFormed : manager.WellFormed) (dumpable : Dumpable manager)
    (perm : order.Perm (manager.loggers.toList.map Prod.snd))
    (readsBack : ∀ node ∈ documents manager order, yaml.load (yaml.emit node) = .ok node) :
    ∃ (value : LogDefineSet) (after : Manager), reload yaml manager order = .ok (some after) ∧
      (∀ define, define ∈ value.defines ↔ ∃ (name : String) (logger : Address) (object : Logger LogFormatter),
        manager.loggers[name]? = some logger ∧ manager.objects.read logger = some object ∧
          dumped manager object = define) ∧
      Reached manager (fun name => ∃ i ∈ value.defines, name = i.name) after ∧
      ∀ i ∈ value.defines, ∃ logger object, Settled manager after i logger object := by
  obtain ⟨value, decoded, listed⟩ := decode_dump yaml manager order readsBack (order_distinct manager order dumpable perm)
  simp only [order_mem manager order perm] at listed
  have known : ∀ i ∈ value.defines, ∀ a ∈ i.appenders, a.type = 1 ∨ a.type = 2 := by
    intro i member
    obtain ⟨object, -, rfl⟩ := (listed i).mp member
    exact dumped_known manager object
  have all (i : LogDefine) : i ∈ changes .empty value ↔ i ∈ value.defines := by
    rw [mem_changes]
    simp [LogDefineSet.empty, LogDefineSet.find]
  obtain ⟨after, completed, reached, settled⟩ := on_logs_changed_run .empty value manager wellFormed known
  simp only [all] at reached settled
  refine ⟨value, after, ?_, fun define => ?_, reached, settled⟩
  · obtain ⟨text, dump, read⟩ := bind_ok _ _ _ decoded
    rw [reload, dump]
    simp only [bind, Except.bind, read, completed]
    rfl
  · rw [listed]
    constructor
    · rintro ⟨object, ⟨name, logger, present, stored⟩, same⟩
      exact ⟨name, logger, object, present, stored, same⟩
    · rintro ⟨name, logger, object, present, stored, same⟩
      exact ⟨object, ⟨name, logger, present, stored⟩, same⟩

theorem reload_same_iff (values : List LogDefineSet) (known : ∀ value ∈ values, KnownTypes value)
    (reached : (history values).2 = some manager) (perm : order.Perm (manager.loggers.toList.map Prod.snd))
    (readsBack : ∀ node ∈ documents manager order, yaml.load (yaml.emit node) = .ok node) :
    (∃ after, reload yaml manager order = .ok (some after) ∧ ∀ name, view after name = view manager name) ↔
      ∀ name shown, view manager name = some shown → ∀ ap ∈ shown.appenders, ap.kind ≠ .stdout := by
  obtain ⟨-, -, consistent⟩ := history_reached values known manager reached
  have dumpable := history_keeps Dumpable new_dumpable apply_define_dumpable values known manager reached
  obtain ⟨value, after, completed, listed, reachedAfter, settled⟩ :=
    reload_completes yaml manager order consistent.wellFormed dumpable perm readsBack
  have restored (name : String) (logger : Address) (object : Logger LogFormatter)
      (present : manager.loggers[name]? = some logger) (stored : manager.objects.read logger = some object) :
      view after name = view manager name ↔
        ∀ shown, view manager name = some shown → ∀ ap ∈ shown.appenders, ap.kind ≠ .stdout :=
    restored_iff manager after dumpable name logger object present stored
      (settled _ ((listed (dumped manager object)).mpr ⟨name, logger, object, present, stored, rfl⟩))
  have absent (name : String) (missing : ∀ logger object, manager.loggers[name]? = some logger →
      manager.objects.read logger ≠ some object) : view after name = view manager name := by
    apply untouched_view manager after _ consistent.wellFormed consistent.separate reachedAfter name
    rintro ⟨i, member, rfl⟩
    obtain ⟨name, logger, object, present, stored, rfl⟩ := (listed i).mp member
    have own := (dumpable name logger object present stored).1
    exact missing logger object (by rw [show (dumped manager object).name = object.name from rfl, own, present]) stored
  constructor
  · rintro ⟨other, completedToo, agree⟩ name shown here
    rw [completed, Except.ok.injEq, Option.some.injEq] at completedToo
    subst completedToo
    have there := here
    rw [view, Option.map_eq_some_iff] at there
    obtain ⟨object, found, -⟩ := there
    obtain ⟨logger, present, stored⟩ := Option.bind_eq_some_iff.mp found
    exact (restored name logger object present stored).mp (agree name) shown here
  · intro files
    refine ⟨after, completed, fun name => ?_⟩
    cases found : manager.loggers[name]?.bind manager.objects.read with
    | some object =>
        obtain ⟨logger, present, stored⟩ := Option.bind_eq_some_iff.mp found
        exact (restored name logger object present stored).mpr (files name)
    | none =>
        refine absent name fun logger object present stored => ?_
        rw [present, Option.bind_some, stored] at found
        cases found

def dumpYaml (appender logger : Node) (appenderText loggerText text : String) : YamlCpp where
  emit
    | .sequence _ => text
    | .map ((.scalar first, _) :: _) => if first = "type" then appenderText else loggerText
    | _ => "~"
  load v :=
    if v = appenderText then .ok appender
    else if v = loggerText then .ok logger
    else if v = text then .ok (.sequence [logger])
    else .error "unknown document"
  asIndex _ := none

def fileValue : LogDefineSet :=
  ⟨[⟨"root", .info, "%m%n", [⟨1, .warn, "", "root.txt"⟩]⟩], List.pairwise_singleton _ _⟩

def fileManager : Manager := (history [fileValue]).2.getD (LoggerManager.new defaultFormatter)

def fileNode : Node :=
  .map [(.scalar "type", .scalar "FileLogAppender"), (.scalar "file", .scalar "root.txt"), (.scalar "level", .scalar "WARN")]

def fileRootNode : Node :=
  .map [(.scalar "name", .scalar "root"), (.scalar "level", .scalar "INFO"), (.scalar "formatter", .scalar "%m%n"),
    (.scalar "appenders", .sequence [fileNode])]

def fileYaml : YamlCpp :=
  dumpYaml fileNode fileRootNode "type: FileLogAppender\nfile: root.txt\nlevel: WARN"
    "name: root\nlevel: INFO\nformatter: \"%m%n\"\nappenders:\n  - type: FileLogAppender\n    file: root.txt\n    level: WARN"
    "- name: root\n  level: INFO\n  formatter: \"%m%n\"\n  appenders:\n    - type: FileLogAppender\n      file: root.txt\n      level: WARN"

theorem reload_same_iff_file :
    ∃ after, reload fileYaml fileManager [0] = .ok (some after) ∧ ∀ name, view after name = view fileManager name := by
  have documents : documents fileManager [0] = [fileNode, fileRootNode, .sequence [fileRootNode]] := rfl
  refine (reload_same_iff fileYaml fileManager [0] [fileValue] (by simp [KnownTypes, fileValue]) rfl (List.Perm.refl [0])
    ?_).mpr ?_
  · rw [documents]
    simp [fileYaml, dumpYaml, fileNode, fileRootNode]
  · intro name shown here
    by_cases root : name = "root"
    · subst root
      have listed : view fileManager "root" = some ⟨.info, some "%m%n", [⟨.file "root.txt", .warn, some "%m%n"⟩]⟩ := rfl
      rw [listed] at here
      cases here
      simp
    · have named : fileManager.loggers = (LoggerManager.new defaultFormatter).loggers := rfl
      rw [view, named, new_loggers, if_neg root] at here
      cases here

def stdoutNode : Node := .map [(.scalar "type", .scalar "StdoutAppender")]

def stdoutRootNode : Node :=
  .map [(.scalar "name", .scalar "root"), (.scalar "level", .scalar "DEBUG"), (.scalar "formatter", .scalar defaultPattern),
    (.scalar "appenders", .sequence [stdoutNode])]

def stdoutYaml : YamlCpp :=
  dumpYaml stdoutNode stdoutRootNode "type: StdoutAppender"
    ("name: root\nlevel: DEBUG\nformatter: \"" ++ defaultPattern ++ "\"\nappenders:\n  - type: StdoutAppender")
    ("- name: root\n  level: DEBUG\n  formatter: \"" ++ defaultPattern ++ "\"\n  appenders:\n    - type: StdoutAppender")

theorem stdout_appender_lost :
    (∀ node ∈ documents (LoggerManager.new defaultFormatter) [0], stdoutYaml.load (stdoutYaml.emit node) = .ok node) ∧
      ∃ after, reload stdoutYaml (LoggerManager.new defaultFormatter) [0] = .ok (some after) ∧
        view after "root" = some ⟨.debug, some defaultPattern, []⟩ ∧
        view after "root" ≠ view (LoggerManager.new defaultFormatter) "root" := by
  refine ⟨?_, ?_⟩
  · have documents : documents (LoggerManager.new defaultFormatter) [0] =
        [stdoutNode, stdoutRootNode, .sequence [stdoutRootNode]] := rfl
    rw [documents]
    simp only [List.mem_cons, List.not_mem_nil, or_false]
    rintro node (rfl | rfl | rfl) <;> rfl
  · refine ⟨_, rfl, rfl, fun same => ?_⟩
    have lost : some (LoggerView.mk .debug (some defaultPattern) []) =
        some ⟨.debug, some defaultPattern, [⟨.stdout, .debug, some defaultPattern⟩]⟩ := same
    simp at lost

end Reloading

end Sylar.Log.LogDump
