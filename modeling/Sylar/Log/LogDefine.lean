import Sylar.Log.LogLevel
import Sylar.Yaml.Access

set_option autoImplicit false

namespace Sylar.Log

open Yaml (Entries Exception Node YamlCpp)

-- What a document says about an appender: type 1 is a file, type 2 stdout.
structure LogAppenderDefine where
  type : Int
  level : Level
  formatter : String
  file : String
deriving DecidableEq, Repr

structure LogDefine where
  name : String
  level : Level
  formatter : String
  appenders : List LogAppenderDefine
deriving DecidableEq, Repr

namespace LogDefine

def textOr (node : Node) (key default : String) : Except Exception String := do
  match ← node.get key with
  | none => return default
  | some value => value.asString

-- One round of the loop over the appenders; none stands for its continue
-- statements.
def decodeAppender (a : Node) : Except Exception (Option LogAppenderDefine) := do
  match ← a.get "type" with
  | none => return none
  | some typeNode =>
      let type ← typeNode.asString
      if type = "FileLogAppender" then
        match ← a.get "file" with
        | none => return none
        | some fileNode =>
            let file ← fileNode.asString
            let formatter ← textOr a "formatter" ""
            let level ← textOr a "level" ""
            return some ⟨1, Level.fromString level, formatter, file⟩
      else if type = "StdoutLogAppender" then
        let formatter ← textOr a "formatter" ""
        let level ← textOr a "level" ""
        return some ⟨2, Level.fromString level, formatter, ""⟩
      else return none

def decodeAppenders (yaml : YamlCpp) (node : Node) : List Nat → Except Exception (List LogAppenderDefine)
  | [] => return []
  | i :: rest => do
      let first ← match node.index yaml i with
        | none => pure none
        | some a => decodeAppender a
      let others ← decodeAppenders yaml node rest
      return first.toList ++ others

def decodeNode (yaml : YamlCpp) (node : Node) : Except Exception LogDefine := do
  match ← node.get "name" with
  | none => throw "log config name is null"
  | some nameNode =>
      let name ← nameNode.asString
      let level ← textOr node "level" ""
      let formatter ← textOr node "formatter" ""
      let appenders ← match ← node.get "appenders" with
        | none => pure []
        | some list => decodeAppenders yaml list (List.range list.size)
      return ⟨name, Level.fromString level, formatter, appenders⟩

-- LexicalCast<std::string,LogDefine>.
def decode (yaml : YamlCpp) (v : String) : Except Exception LogDefine := do
  decodeNode yaml (← yaml.load v)

-- What ends up on the appender's own node na.
def encodeMember (a : LogAppenderDefine) : Entries :=
  let leveled := if a.level ≠ .unknow then Entries.set [] "level" (.scalar a.level.toString) else []
  if a.formatter ≠ "" then leveled.set "formatter" (.scalar a.formatter) else leveled

-- The type and the file of an appender are written on the node of the logger.
def encodeAppender (node : Entries) (a : LogAppenderDefine) : Entries :=
  let typed :=
    if a.type = 1 then (node.set "type" (.scalar "FileLogAppender")).set "file" (.scalar a.file)
    else if a.type = 2 then node.set "type" (.scalar "StdoutAppender")
    else node
  typed.pushBack "appenders" (encodeMember a).toNode

-- A formatter is written when it is empty.
def encodeFields (i : LogDefine) : Entries :=
  let named := Entries.set [] "name" (.scalar i.name)
  let leveled := if i.level ≠ .unknow then named.set "level" (.scalar i.level.toString) else named
  if i.formatter = "" then leveled.set "formatter" (.scalar i.formatter) else leveled

def encodeNode (i : LogDefine) : Node := (i.appenders.foldl encodeAppender i.encodeFields).toNode

-- LexicalCast<LogDefine,std::string>.
def encode (yaml : YamlCpp) (i : LogDefine) : String := yaml.emit i.encodeNode

section RoundTrip

theorem text_or_to_node (entries : Entries) (key default : String) :
    textOr entries.toNode key default =
      match entries.find key with
      | none => .ok default
      | some value => value.asString := by
  simp only [textOr, Node.get_to_node]
  cases entries.find key <;> rfl

theorem encode_member_type (a : LogAppenderDefine) : (encodeMember a).find "type" = none := by
  rw [encodeMember]
  split <;> split <;> simp

theorem decode_untyped (entries : Entries) (untyped : entries.find "type" = none) :
    decodeAppender entries.toNode = .ok none := by
  rw [decodeAppender, Node.get_to_node, untyped]
  rfl

theorem encode_appender_other (node : Entries) (a : LogAppenderDefine) (key : String)
    (free : key ∉ ["type", "file", "appenders"]) : (encodeAppender node a).find key = node.find key := by
  simp only [List.mem_cons, List.not_mem_nil, or_false, not_or] at free
  obtain ⟨notType, notFile, notAppenders⟩ := free
  rw [encodeAppender, Entries.find_push_back_other _ _ _ _ (Ne.symm notAppenders)]
  split
  · rw [Entries.find_set_other _ _ _ _ (Ne.symm notFile), Entries.find_set_other _ _ _ _ (Ne.symm notType)]
  · split
    · exact Entries.find_set_other _ _ _ _ (Ne.symm notType)
    · rfl

theorem encode_appenders_other (node : Entries) (list : List LogAppenderDefine) (key : String)
    (free : key ∉ ["type", "file", "appenders"]) : (list.foldl encodeAppender node).find key = node.find key := by
  induction list generalizing node with
  | nil => rfl
  | cons a rest ih => rw [List.foldl_cons, ih, encode_appender_other node a key free]

-- The members written so far are all ones that the reader passes over.
def PassedOver (node : Entries) : Prop :=
  node.find "appenders" = none ∨
    ∃ items, node.find "appenders" = some (.sequence items) ∧ ∀ item ∈ items, decodeAppender item = .ok none

theorem push_back_passed_over (node : Entries) (item : Node) (passed : PassedOver node)
    (skipped : decodeAppender item = .ok none) : PassedOver (node.pushBack "appenders" item) := by
  rcases passed with missing | ⟨items, here, all⟩
  · refine .inr ⟨[item], Entries.find_push_back_first node "appenders" item missing, ?_⟩
    simpa using skipped
  · refine .inr ⟨items ++ [item], Entries.find_push_back_same node "appenders" items item here, ?_⟩
    intro other member
    rcases List.mem_append.mp member with old | new
    · exact all other old
    · rw [List.mem_singleton.mp new]
      exact skipped

theorem encode_appender_passed_over (node : Entries) (a : LogAppenderDefine) (passed : PassedOver node) :
    PassedOver (encodeAppender node a) := by
  refine push_back_passed_over _ _ ?_ (decode_untyped (encodeMember a) (encode_member_type a))
  split
  · simpa [PassedOver] using passed
  · split
    · simpa [PassedOver] using passed
    · exact passed

theorem encode_appenders_passed_over (node : Entries) (list : List LogAppenderDefine) (passed : PassedOver node) :
    PassedOver (list.foldl encodeAppender node) := by
  induction list generalizing node with
  | nil => exact passed
  | cons a rest ih => exact ih (encodeAppender node a) (encode_appender_passed_over node a passed)

theorem decode_appenders_passed_over (yaml : YamlCpp) (items : List Node) (indices : List Nat)
    (all : ∀ item ∈ items, decodeAppender item = .ok none) :
    decodeAppenders yaml (.sequence items) indices = .ok [] := by
  induction indices with
  | nil => rfl
  | cons i rest ih =>
      rw [decodeAppenders, ih]
      cases here : (Node.sequence items).index yaml i with
      | none => rfl
      | some a =>
          simp only [all a (List.mem_of_getElem? here)]
          rfl

theorem encode_fields_name (i : LogDefine) : i.encodeFields.find "name" = some (.scalar i.name) := by
  rw [encodeFields]
  split <;> split <;> simp

theorem encode_fields_level (i : LogDefine) :
    i.encodeFields.find "level" = if i.level = .unknow then none else some (.scalar i.level.toString) := by
  rw [encodeFields]
  by_cases unknow : i.level = .unknow <;> simp only [unknow, ne_eq, not_true_eq_false, not_false_eq_true, if_true, if_false]
    <;> split <;> simp

theorem encode_fields_formatter (i : LogDefine) :
    i.encodeFields.find "formatter" = if i.formatter = "" then some (.scalar "") else none := by
  rw [encodeFields]
  by_cases empty : i.formatter = "" <;> simp only [empty, if_true, if_false] <;> split <;> simp

theorem encode_fields_appenders (i : LogDefine) : i.encodeFields.find "appenders" = none := by
  rw [encodeFields]
  split <;> split <;> simp

theorem decode_encode_node (yaml : YamlCpp) (i : LogDefine) :
    decodeNode yaml i.encodeNode = .ok ⟨i.name, i.level, "", []⟩ := by
  have passed := encode_appenders_passed_over i.encodeFields i.appenders (.inl (encode_fields_appenders i))
  have name := encode_appenders_other i.encodeFields i.appenders "name" (by decide)
  have level := encode_appenders_other i.encodeFields i.appenders "level" (by decide)
  have formatter := encode_appenders_other i.encodeFields i.appenders "formatter" (by decide)
  rw [encode_fields_name] at name
  rw [encode_fields_level] at level
  rw [encode_fields_formatter] at formatter
  have levelText : textOr i.encodeNode "level" "" = .ok (if i.level = .unknow then "" else i.level.toString) := by
    rw [encodeNode, text_or_to_node, level]
    by_cases unknow : i.level = .unknow
    · rw [if_pos unknow, if_pos unknow]
    · rw [if_neg unknow, if_neg unknow]
      rfl
  have formatterText : textOr i.encodeNode "formatter" "" = .ok "" := by
    rw [encodeNode, text_or_to_node, formatter]
    by_cases empty : i.formatter = ""
    · rw [if_pos empty]
      rfl
    · rw [if_neg empty]
  have readLevel : Level.fromString (if i.level = .unknow then "" else i.level.toString) = i.level := by
    by_cases unknow : i.level = .unknow <;> simp [unknow]
  have nameNode : i.encodeNode.get "name" = .ok (some (.scalar i.name)) := by
    rw [encodeNode, Node.get_to_node, name]
  have appendersNode : ∃ found, i.encodeNode.get "appenders" = .ok found ∧
      ∀ list, found = some list → ∀ indices, decodeAppenders yaml list indices = .ok [] := by
    refine ⟨_, Node.get_to_node _ "appenders", ?_⟩
    rintro list here indices
    rcases passed with missing | ⟨items, found, all⟩
    · rw [missing] at here
      cases here
    · rw [found] at here
      cases here
      exact decode_appenders_passed_over yaml items indices all
  obtain ⟨found, appenders, skipped⟩ := appendersNode
  rw [decodeNode, nameNode]
  simp only [bind, Except.bind, Node.asString, levelText, formatterText, appenders, readLevel]
  cases found with
  | none => rfl
  | some list =>
      simp only [skipped list rfl]
      rfl

theorem decode_encode_iff (yaml : YamlCpp) (d : LogDefine)
    (loaded : yaml.load (yaml.emit d.encodeNode) = .ok d.encodeNode) :
    decode yaml (encode yaml d) = .ok d ↔ d.formatter = "" ∧ d.appenders = [] := by
  have read : decode yaml (encode yaml d) = .ok ⟨d.name, d.level, "", []⟩ := by
    rw [decode, encode, loaded]
    exact decode_encode_node yaml d
  rw [read]
  obtain ⟨name, level, formatter, appenders⟩ := d
  simp [eq_comm]

-- An emitter and a parser that know the one document.
def documentYaml (text : String) (node : Node) : YamlCpp :=
  ⟨fun _ => text, fun v => if v = text then .ok node else .error "unknown document", fun _ => none⟩

theorem decode_encode_iff_root :
    decode (documentYaml "name: root\nlevel: INFO\nformatter: \"\"" (encodeNode ⟨"root", .info, "", []⟩))
        (encode (documentYaml "name: root\nlevel: INFO\nformatter: \"\"" (encodeNode ⟨"root", .info, "", []⟩))
          ⟨"root", .info, "", []⟩) =
      .ok ⟨"root", .info, "", []⟩ :=
  (decode_encode_iff (documentYaml "name: root\nlevel: INFO\nformatter: \"\"" (encodeNode ⟨"root", .info, "", []⟩))
    ⟨"root", .info, "", []⟩ rfl).mpr ⟨rfl, rfl⟩

def systemDefine : LogDefine := ⟨"system", .info, "", [⟨2, .debug, "%d%n", ""⟩]⟩

def systemText : String :=
  "name: system\nlevel: INFO\nformatter: \"\"\ntype: StdoutAppender\nappenders:\n  - level: DEBUG\n    formatter: \"%d%n\""

theorem appender_not_read_back :
    decode (documentYaml systemText systemDefine.encodeNode)
        (encode (documentYaml systemText systemDefine.encodeNode) systemDefine) =
      .ok ⟨"system", .info, "", []⟩ ∧
    decode (documentYaml systemText systemDefine.encodeNode)
        (encode (documentYaml systemText systemDefine.encodeNode) systemDefine) ≠ .ok systemDefine := by
  have read : decode (documentYaml systemText systemDefine.encodeNode)
      (encode (documentYaml systemText systemDefine.encodeNode) systemDefine) = .ok ⟨"system", .info, "", []⟩ := rfl
  refine ⟨read, ?_⟩
  rw [read]
  decide

end RoundTrip

end LogDefine

end Sylar.Log
