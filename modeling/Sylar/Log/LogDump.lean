import Sylar.Log.LogHistory
import Sylar.Log.LogsText

set_option autoImplicit false

namespace Sylar.Log

open Lib (Address Heap)
open Yaml (Entries Exception Node YamlCpp)

namespace LogAppender

-- The end of both appenders' toYamlString.
def commonFields (typed : Entries) (appender : LogAppender LogFormatter) : Entries :=
  let leveled :=
    if appender.hasLevel ∧ appender.level ≠ .unknow then typed.set "level" (.scalar appender.level.toString) else typed
  match appender.hasFormatter, appender.formatter with
  | true, some formatter => leveled.set "formatter" (.scalar formatter.pattern)
  | _, _ => leveled

-- FileLogAppender::toYamlString.
def fileFields (filename : String) : LogAppender LogFormatter → Entries :=
  commonFields ((Entries.set [] "type" (.scalar "FileLogAppender")).set "file" (.scalar filename))

-- StdoutAppender::toYamlString, with a type name that the reader does not know.
def stdoutFields : LogAppender LogFormatter → Entries := commonFields (Entries.set [] "type" (.scalar "StdoutAppender"))

def yamlNode (appender : LogAppender LogFormatter) : Node :=
  match appender.kind with
  | .file filename => (appender.fileFields filename).toNode
  | .stdout => appender.stdoutFields.toNode

def toYamlString (yaml : YamlCpp) (appender : LogAppender LogFormatter) : String := yaml.emit appender.yamlNode

end LogAppender

namespace Logger

def fields (object : Logger LogFormatter) : Entries :=
  let named := Entries.set [] "name" (.scalar object.name)
  let leveled := if object.level ≠ .unknow then named.set "level" (.scalar object.level.toString) else named
  match object.formatter with
  | some formatter => leveled.set "formatter" (.scalar formatter.pattern)
  | none => leveled

def listed (manager : Manager) (object : Logger LogFormatter) : List (LogAppender LogFormatter) :=
  object.appenders.filterMap manager.appenders.read

def toYamlString (yaml : YamlCpp) (manager : Manager) (object : Logger LogFormatter) : Except Exception String := do
  let node ← (object.listed manager).foldlM (fun (node : Entries) i =>
    return node.pushBack "appenders" (← yaml.load (i.toYamlString yaml))) object.fields
  return yaml.emit node.toNode

end Logger

namespace LoggerManager

-- node.push_back of each item on a node that starts as null.
def sequenceNode (items : List Node) : Node := if items.isEmpty then .null else .sequence items

-- The loggers come in the order in which the unordered_map hands them out.
def toYamlString (yaml : YamlCpp) (manager : Manager) (order : List Address) : Except Exception String := do
  let items ← (order.filterMap manager.objects.read).mapM fun i => do yaml.load (← i.toYamlString yaml manager)
  return yaml.emit (sequenceNode items)

end LoggerManager

namespace LogDump

open LoggerManager LogHistory LogIniter

-- The dump read as a value of "logs" and applied as one that replaces nothing.
def reload (yaml : YamlCpp) (manager : Manager) (order : List Address) : Except Exception (Option Manager) := do
  let value ← LogDefineSet.decode yaml (← manager.toYamlString yaml order)
  return onLogsChanged .empty value manager

def loggerNode (manager : Manager) (object : Logger LogFormatter) : Node :=
  ((object.listed manager).foldl (fun node i => node.pushBack "appenders" i.yamlNode) object.fields).toNode

-- Every document that the dump is put together from.
def documents (manager : Manager) (order : List Address) : List Node :=
  let objects := order.filterMap manager.objects.read
  (objects.flatMap fun object => (object.listed manager).map LogAppender.yamlNode) ++
    objects.map (loggerNode manager) ++ [sequenceNode (objects.map (loggerNode manager))]

def dumpedAppender (ap : LogAppender LogFormatter) : Option LogAppenderDefine :=
  match ap.kind with
  | .file filename =>
      some ⟨1, if ap.hasLevel then ap.level else .unknow,
        if ap.hasFormatter then (ap.formatter.map LogFormatter.pattern).getD "" else "", filename⟩
  | .stdout => none

def dumped (manager : Manager) (object : Logger LogFormatter) : LogDefine :=
  ⟨object.name, object.level, (object.formatter.map LogFormatter.pattern).getD "",
    (object.listed manager).filterMap dumpedAppender⟩

section Reading

variable (typed : Entries) (appender : LogAppender LogFormatter)

theorem common_fields_other (key : String) (notLevel : key ≠ "level") (notFormatter : key ≠ "formatter") :
    (LogAppender.commonFields typed appender).find key = typed.find key := by
  rw [LogAppender.commonFields]
  split <;> split <;> simp [Ne.symm notLevel, Ne.symm notFormatter]

theorem common_fields_level (free : typed.find "level" = none) :
    (LogAppender.commonFields typed appender).find "level" =
      if appender.hasLevel ∧ appender.level ≠ .unknow then some (.scalar appender.level.toString) else none := by
  obtain ⟨kind, level, formatter, hasFormatter, hasLevel⟩ := appender
  by_cases leveled : hasLevel ∧ level ≠ .unknow <;> cases hasFormatter <;> cases formatter <;>
    simp [LogAppender.commonFields, leveled, free]

theorem common_fields_formatter (free : typed.find "formatter" = none) :
    (LogAppender.commonFields typed appender).find "formatter" =
      if appender.hasFormatter then appender.formatter.map fun formatter => .scalar formatter.pattern else none := by
  obtain ⟨kind, level, formatter, hasFormatter, hasLevel⟩ := appender
  by_cases leveled : hasLevel ∧ level ≠ .unknow <;> cases hasFormatter <;> cases formatter <;>
    simp [LogAppender.commonFields, leveled, free]

theorem common_level_read (free : typed.find "level" = none) :
    ∃ text, LogDefine.textOr (LogAppender.commonFields typed appender).toNode "level" "" = .ok text ∧
      Level.fromString text = if appender.hasLevel then appender.level else .unknow := by
  rw [LogDefine.text_or_to_node, common_fields_level typed appender free]
  by_cases leveled : appender.hasLevel ∧ appender.level ≠ .unknow
  · rw [if_pos leveled]
    exact ⟨appender.level.toString, rfl, by simp [leveled.1]⟩
  · rw [if_neg leveled]
    refine ⟨"", rfl, ?_⟩
    rw [not_and, not_not] at leveled
    split
    · rename_i has
      exact (leveled has).symm
    · rfl

theorem common_formatter_read (free : typed.find "formatter" = none) :
    LogDefine.textOr (LogAppender.commonFields typed appender).toNode "formatter" "" =
      .ok (if appender.hasFormatter then (appender.formatter.map LogFormatter.pattern).getD "" else "") := by
  rw [LogDefine.text_or_to_node, common_fields_formatter typed appender free]
  cases appender.hasFormatter <;> cases appender.formatter <;> rfl

theorem decode_dumped_appender : LogDefine.decodeAppender appender.yamlNode = .ok (dumpedAppender appender) := by
  rw [LogAppender.yamlNode, dumpedAppender]
  cases appender.kind with
  | stdout =>
      have type := common_fields_other (Entries.set [] "type" (.scalar "StdoutAppender")) appender "type" (by decide)
        (by decide)
      simp only [LogDefine.decodeAppender, Node.get_to_node, LogAppender.stdoutFields, type, Entries.find_set_same]
      rfl
  | file filename =>
      generalize typedNode : (Entries.set [] "type" (.scalar "FileLogAppender")).set "file" (.scalar filename) = typed
      have type : typed.find "type" = some (.scalar "FileLogAppender") := by rw [← typedNode]; simp
      have file : typed.find "file" = some (.scalar filename) := by rw [← typedNode]; simp
      obtain ⟨text, levelText, level⟩ := common_level_read typed appender (by rw [← typedNode]; simp)
      have formatterText := common_formatter_read typed appender (by rw [← typedNode]; simp)
      rw [← common_fields_other typed appender "type" (by decide) (by decide)] at type
      rw [← common_fields_other typed appender "file" (by decide) (by decide)] at file
      simp only [LogDefine.decodeAppender, Node.get_to_node, LogAppender.fileFields, typedNode, type, file, Node.asString,
        formatterText, levelText, ← level]
      rfl

end Reading

section ReadingLoggers

variable (manager : Manager) (object : Logger LogFormatter)

theorem fields_name : object.fields.find "name" = some (.scalar object.name) := by
  rw [Logger.fields]
  split <;> split <;> simp

theorem fields_level :
    object.fields.find "level" = if object.level ≠ .unknow then some (.scalar object.level.toString) else none := by
  rw [Logger.fields]
  by_cases leveled : object.level ≠ .unknow <;> cases object.formatter <;> simp [leveled]

theorem fields_formatter :
    object.fields.find "formatter" = object.formatter.map fun formatter => .scalar formatter.pattern := by
  rw [Logger.fields]
  by_cases leveled : object.level ≠ .unknow <;> cases object.formatter <;> simp [leveled]

theorem fields_appenders : object.fields.find "appenders" = none := by
  rw [Logger.fields]
  by_cases leveled : object.level ≠ .unknow <;> cases object.formatter <;> simp [leveled]

theorem push_all_other (node : Entries) (items : List Node) (key : String) (different : key ≠ "appenders") :
    (items.foldl (fun node item => node.pushBack "appenders" item) node).find key = node.find key := by
  induction items generalizing node with
  | nil => rfl
  | cons item rest ih => rw [List.foldl_cons, ih, Entries.find_push_back_other _ _ _ _ (Ne.symm different)]

theorem push_all_behind (node : Entries) (before items : List Node)
    (here : node.find "appenders" = some (.sequence before)) :
    (items.foldl (fun node item => node.pushBack "appenders" item) node).find "appenders" =
      some (.sequence (before ++ items)) := by
  induction items generalizing node before with
  | nil => simpa using here
  | cons item rest ih =>
      rw [List.foldl_cons, ih _ _ (Entries.find_push_back_same node "appenders" before item here), List.append_assoc]
      rfl

theorem push_all_here (node : Entries) (items : List Node) (free : node.find "appenders" = none) :
    (items.foldl (fun node item => node.pushBack "appenders" item) node).find "appenders" =
      if items = [] then none else some (.sequence items) := by
  cases items with
  | nil => simpa using free
  | cons item rest =>
      rw [List.foldl_cons, push_all_behind _ [item] rest (Entries.find_push_back_first node "appenders" item free)]
      rfl

theorem decode_listed (yaml : YamlCpp) (list : List (LogAppender LogFormatter)) (indices : List Nat) :
    LogDefine.decodeAppenders yaml (.sequence (list.map LogAppender.yamlNode)) indices =
      .ok ((indices.filterMap fun i => list[i]?).filterMap dumpedAppender) := by
  induction indices with
  | nil => rfl
  | cons i rest ih =>
      have member : (Node.sequence (list.map LogAppender.yamlNode)).index yaml i = list[i]?.map LogAppender.yamlNode :=
        List.getElem?_map
      rw [LogDefine.decodeAppenders, ih, member]
      cases here : list[i]? with
      | none =>
          simp only [List.filterMap_cons, here]
          rfl
      | some ap =>
          simp only [Option.map_some, decode_dumped_appender, List.filterMap_cons, here]
          cases dumpedAppender ap <;> rfl

theorem filter_map_range {α : Type} (list : List α) : (List.range list.length).filterMap (fun i => list[i]?) = list := by
  apply filter_map_read
  apply List.ext_getElem?
  intro i
  by_cases bound : i < list.length
  · simp [bound]
  · simp [Nat.le_of_not_lt bound]

theorem decode_logger_node (yaml : YamlCpp) :
    LogDefine.decodeNode yaml (loggerNode manager object) = .ok (dumped manager object) := by
  have joined : (object.listed manager).foldl (fun node i => node.pushBack "appenders" i.yamlNode) object.fields =
      ((object.listed manager).map LogAppender.yamlNode).foldl (fun node item => node.pushBack "appenders" item)
        object.fields := by rw [List.foldl_map]
  generalize nodes : (object.listed manager).map LogAppender.yamlNode = items at joined
  have name := push_all_other object.fields items "name" (by decide)
  have level := push_all_other object.fields items "level" (by decide)
  have formatter := push_all_other object.fields items "formatter" (by decide)
  have appenders := push_all_here object.fields items (fields_appenders object)
  rw [fields_name] at name
  rw [fields_level] at level
  rw [fields_formatter] at formatter
  have levelText : LogDefine.textOr (loggerNode manager object) "level" "" =
      .ok (if object.level ≠ .unknow then object.level.toString else "") := by
    rw [loggerNode, joined, LogDefine.text_or_to_node, level]
    by_cases leveled : object.level ≠ .unknow
    · rw [if_pos leveled, if_pos leveled]
      rfl
    · rw [if_neg leveled, if_neg leveled]
  have formatterText : LogDefine.textOr (loggerNode manager object) "formatter" "" =
      .ok ((object.formatter.map LogFormatter.pattern).getD "") := by
    rw [loggerNode, joined, LogDefine.text_or_to_node, formatter]
    cases object.formatter <;> rfl
  have readLevel : Level.fromString (if object.level ≠ .unknow then object.level.toString else "") = object.level := by
    by_cases unknow : object.level = .unknow <;> simp [unknow]
  have nameNode : (loggerNode manager object).get "name" = .ok (some (.scalar object.name)) := by
    rw [loggerNode, joined, Node.get_to_node, name]
  have appendersNode : (loggerNode manager object).get "appenders" =
      .ok (if items = [] then none else some (.sequence items)) := by
    rw [loggerNode, joined, Node.get_to_node, appenders]
  rw [LogDefine.decodeNode, nameNode]
  simp only [bind, Except.bind, Node.asString, levelText, formatterText, appendersNode, readLevel]
  by_cases empty : items = []
  · have none : object.listed manager = [] := List.map_eq_nil_iff.mp (nodes.trans empty)
    simp only [empty, if_true, dumped, none]
    rfl
  · have all := decode_listed yaml (object.listed manager) (List.range items.length)
    have count : items.length = (object.listed manager).length := by rw [← nodes, List.length_map]
    rw [nodes, count, filter_map_range] at all
    simp only [empty, if_false, Node.size, count, all]
    rfl

end ReadingLoggers

section ReadingManager

variable (yaml : YamlCpp) (manager : Manager) (order : List Address)

theorem dump_logger (object : Logger LogFormatter)
    (readsBack : ∀ ap ∈ object.listed manager, yaml.load (yaml.emit ap.yamlNode) = .ok ap.yamlNode) :
    object.toYamlString yaml manager = .ok (yaml.emit (loggerNode manager object)) := by
  have all (list : List (LogAppender LogFormatter))
      (each : ∀ ap ∈ list, yaml.load (yaml.emit ap.yamlNode) = .ok ap.yamlNode) (start : Entries) :
      list.foldlM (fun (node : Entries) i => return node.pushBack "appenders" (← yaml.load (i.toYamlString yaml))) start =
        Except.ok (list.foldl (fun node i => node.pushBack "appenders" i.yamlNode) start) := by
    induction list generalizing start with
    | nil => rfl
    | cons ap rest ih =>
        rw [List.foldlM_cons, LogAppender.toYamlString, each ap List.mem_cons_self]
        exact ih (fun other member => each other (List.mem_cons_of_mem _ member)) _
  rw [Logger.toYamlString, all _ readsBack]
  rfl

theorem dump_manager (readsBack : ∀ node ∈ documents manager order, yaml.load (yaml.emit node) = .ok node) :
    manager.toYamlString yaml order =
      .ok (yaml.emit (sequenceNode ((order.filterMap manager.objects.read).map (loggerNode manager)))) := by
  generalize same : order.filterMap manager.objects.read = objects
  have all (list : List (Logger LogFormatter)) (inside : ∀ object ∈ list, object ∈ objects) :
      list.mapM (fun i => do yaml.load (← i.toYamlString yaml manager)) = Except.ok (list.map (loggerNode manager)) := by
    induction list with
    | nil => rfl
    | cons object rest ih =>
        have here := inside object List.mem_cons_self
        have own : yaml.load (yaml.emit (loggerNode manager object)) = .ok (loggerNode manager object) := by
          apply readsBack
          simp only [documents, same, List.mem_append, List.mem_map]
          exact .inl (.inr ⟨object, here, rfl⟩)
        have first := dump_logger yaml manager object fun ap member => readsBack _ (by
          simp only [documents, same, List.mem_append, List.mem_flatMap, List.mem_map]
          exact .inl (.inl ⟨object, here, ap, member, rfl⟩))
        rw [List.mapM_cons, ih fun other member => inside other (List.mem_cons_of_mem _ member), first]
        simp only [bind, Except.bind, own]
        rfl
  rw [LoggerManager.toYamlString, same, all objects fun _ => id]
  rfl

theorem decode_items_listed (objects : List (Logger LogFormatter))
    (readsBack : ∀ object ∈ objects, yaml.load (yaml.emit (loggerNode manager object)) = .ok (loggerNode manager object))
    (indices : List Nat) (inside : ∀ i ∈ indices, i < objects.length) (set : LogDefineSet) :
    LogDefineSet.decodeItems yaml (.sequence (objects.map (loggerNode manager))) indices set =
      .ok ((indices.filterMap fun i => objects[i]?).foldl (fun set object => set.insert (dumped manager object)) set) := by
  induction indices generalizing set with
  | nil => rfl
  | cons i rest ih =>
      have bound := inside i List.mem_cons_self
      have member : (Node.sequence (objects.map (loggerNode manager))).index yaml i =
          some (loggerNode manager objects[i]) := by
        rw [Node.index, List.getElem?_map, List.getElem?_eq_getElem bound, Option.map_some]
      have define : LogDefine.decode yaml (yaml.emit (loggerNode manager objects[i])) = .ok (dumped manager objects[i]) := by
        rw [LogDefine.decode, readsBack _ (List.getElem_mem bound)]
        exact decode_logger_node manager objects[i] yaml
      rw [LogDefineSet.decodeItems, member, Option.getD_some, define]
      simp only [List.filterMap_cons, List.getElem?_eq_getElem bound, List.foldl_cons]
      exact ih (fun other member => inside other (List.mem_cons_of_mem _ member)) _

theorem insert_all_mem (objects : List (Logger LogFormatter)) (set : LogDefineSet)
    (distinct : objects.Pairwise fun first second => first.name ≠ second.name)
    (fresh : ∀ object ∈ objects, ∀ other ∈ set.defines, other.name ≠ object.name) (define : LogDefine) :
    define ∈ (objects.foldl (fun set object => set.insert (dumped manager object)) set).defines ↔
      define ∈ set.defines ∨ ∃ object ∈ objects, dumped manager object = define := by
  induction objects generalizing set with
  | nil => simp
  | cons object rest ih =>
      rw [List.pairwise_cons] at distinct
      have inserted := LogDefineSet.insert_define_mem (dumped manager object) set.defines (fresh object List.mem_cons_self)
      have later : ∀ next ∈ rest, ∀ other ∈ (set.insert (dumped manager object)).defines, other.name ≠ next.name := by
        intro next member other inSet
        rcases (inserted other).mp inSet with rfl | old
        · exact distinct.1 next member
        · exact fresh next (List.mem_cons_of_mem _ member) other old
      rw [List.foldl_cons, ih _ distinct.2 later, LogDefineSet.insert, inserted]
      simp only [List.mem_cons, exists_eq_or_imp, eq_comm (a := define)]
      exact or_assoc.trans or_left_comm

theorem decode_dump (readsBack : ∀ node ∈ documents manager order, yaml.load (yaml.emit node) = .ok node)
    (distinct : (order.filterMap manager.objects.read).Pairwise fun first second => first.name ≠ second.name) :
    ∃ value, (do LogDefineSet.decode yaml (← manager.toYamlString yaml order)) = Except.ok value ∧
      ∀ define, define ∈ value.defines ↔ ∃ object ∈ order.filterMap manager.objects.read, dumped manager object = define := by
  have dump := dump_manager yaml manager order readsBack
  have whole : yaml.load (yaml.emit (sequenceNode ((order.filterMap manager.objects.read).map (loggerNode manager)))) =
      .ok (sequenceNode ((order.filterMap manager.objects.read).map (loggerNode manager))) := by
    apply readsBack
    simp [documents]
  have each : ∀ object ∈ order.filterMap manager.objects.read,
      yaml.load (yaml.emit (loggerNode manager object)) = .ok (loggerNode manager object) := by
    intro object member
    apply readsBack
    simp only [documents, List.mem_append, List.mem_map]
    exact .inl (.inr ⟨object, member, rfl⟩)
  generalize order.filterMap manager.objects.read = objects at *
  rw [dump]
  simp only [bind, Except.bind, LogDefineSet.decode, whole]
  cases objects with
  | nil => exact ⟨.empty, rfl, by simp [LogDefineSet.empty]⟩
  | cons first rest =>
      have items := decode_items_listed yaml manager (first :: rest) each (List.range (first :: rest).length) (by simp) .empty
      rw [filter_map_range] at items
      refine ⟨(first :: rest).foldl (fun set object => set.insert (dumped manager object)) .empty, ?_, fun define => ?_⟩
      · simpa only [sequenceNode, List.map_cons, List.isEmpty_cons, Bool.false_eq_true, if_false, Node.size,
          List.length_cons, List.length_map] using items
      · rw [insert_all_mem manager (first :: rest) .empty distinct (by simp [LogDefineSet.empty])]
        simp [LogDefineSet.empty]

end ReadingManager

end LogDump

end Sylar.Log
