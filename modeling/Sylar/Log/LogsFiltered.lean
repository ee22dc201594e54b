import Sylar.Config.FailedUpdate
import Sylar.Log.LogsText

set_option autoImplicit false

namespace Sylar.Log

open Config (ConfigVar)
open Yaml (Entries Exception Node YamlCpp)

-- The scalar that stands under a key of a map.
def fieldText (fields : Entries) (key : String) : Option String :=
  match fields.find key with
  | some (.scalar text) => some text
  | _ => none

def ScalarFields (fields : Entries) : Prop := ∀ entry ∈ fields, entry.2.isScalar = true

-- An entry of the document: its fields are scalars, but appenders is a sequence
-- of maps with scalar fields.
def LoggerFields (fields : Entries) : Prop :=
  ∀ entry ∈ fields, (entry.1 ≠ .scalar "appenders" → entry.2.isScalar = true) ∧
    (entry.1 = .scalar "appenders" → ∃ appenders : List Entries, entry.2 = .sequence (appenders.map .map) ∧
      ∀ appender ∈ appenders, ScalarFields appender)

def levelOf (fields : Entries) : Level := Level.fromString ((fieldText fields "level").getD "")

def formatterOf (fields : Entries) : String := (fieldText fields "formatter").getD ""

-- What the configuration says about one appender; an entry that says nothing
-- usable has no appender.
def appenderOf (fields : Entries) : Option LogAppenderDefine :=
  (fieldText fields "type").bind fun type =>
    if type = "FileLogAppender" then
      (fieldText fields "file").map fun file => ⟨1, levelOf fields, formatterOf fields, file⟩
    else if type = "StdoutLogAppender" then some ⟨2, levelOf fields, formatterOf fields, ""⟩
    else none

def asFields : Node → Entries
  | .map fields => fields
  | _ => []

def appendersOf (fields : Entries) : List LogAppenderDefine :=
  match fields.find "appenders" with
  | some (.sequence items) => (items.map asFields).filterMap appenderOf
  | _ => []

-- What the configuration says about one logger, if it has a name.
def defineOf (fields : Entries) : Option LogDefine :=
  (fieldText fields "name").map fun name => ⟨name, levelOf fields, formatterOf fields, appendersOf fields⟩

-- The first entry of the document with the name.
def firstNamed (items : List Entries) (name : String) : Option LogDefine :=
  (items.filterMap defineOf).find? fun define => define.name == name

section Fields

variable (fields : Entries) (key : String)

theorem find_member (value : Node) (found : fields.find key = some value) : (Node.scalar key, value) ∈ fields := by
  induction fields with
  | nil => cases found
  | cons entry rest ih =>
      obtain ⟨name, old⟩ := entry
      cases name with
      | scalar text =>
          rw [Entries.find] at found
          split at found
          · rename_i same
            cases found
            rw [same]
            exact List.mem_cons_self
          · exact List.mem_cons_of_mem _ (ih found)
      | null => exact List.mem_cons_of_mem _ (ih found)
      | sequence items => exact List.mem_cons_of_mem _ (ih found)
      | map inner => exact List.mem_cons_of_mem _ (ih found)

theorem field_text_find (scalars : ∀ value, fields.find key = some value → value.isScalar = true) :
    fields.find key = (fieldText fields key).map .scalar := by
  rw [fieldText]
  cases found : fields.find key with
  | none => rfl
  | some value =>
      have scalar := scalars value found
      cases value with
      | scalar text => rfl
      | null => cases scalar
      | sequence items => cases scalar
      | map inner => cases scalar

theorem scalar_field (scalars : ScalarFields fields) (value : Node) (found : fields.find key = some value) :
    value.isScalar = true := scalars _ (find_member fields key value found)

theorem logger_field (shaped : LoggerFields fields) (other : key ≠ "appenders") (value : Node)
    (found : fields.find key = some value) : value.isScalar = true := by
  apply (shaped _ (find_member fields key value found)).1
  intro same
  cases same
  exact other rfl

theorem text_or_field (default : String) (scalars : ∀ value, fields.find key = some value → value.isScalar = true) :
    LogDefine.textOr (.map fields) key default = .ok ((fieldText fields key).getD default) := by
  have get : (Node.map fields).get key = .ok (fields.find key) := rfl
  rw [LogDefine.textOr, get, field_text_find fields key scalars]
  cases fieldText fields key <;> rfl

end Fields

theorem decode_appender_of (fields : Entries) (scalars : ScalarFields fields) :
    LogDefine.decodeAppender (.map fields) = .ok (appenderOf fields) := by
  have type : (Node.map fields).get "type" = .ok ((fieldText fields "type").map .scalar) :=
    congrArg Except.ok (field_text_find fields "type" (scalar_field fields "type" scalars))
  have file : (Node.map fields).get "file" = .ok ((fieldText fields "file").map .scalar) :=
    congrArg Except.ok (field_text_find fields "file" (scalar_field fields "file" scalars))
  have formatter := text_or_field fields "formatter" "" (scalar_field fields "formatter" scalars)
  have level := text_or_field fields "level" "" (scalar_field fields "level" scalars)
  rw [LogDefine.decodeAppender, type, appenderOf]
  cases fieldText fields "type" with
  | none => rfl
  | some type =>
      by_cases isFile : type = "FileLogAppender"
      · simp only [Option.map_some, Option.bind_some, bind, Except.bind, Node.asString, isFile, if_true, file]
        cases fieldText fields "file" with
        | none => rfl
        | some path =>
            simp only [Option.map_some, formatter, level]
            rfl
      · by_cases isStdout : type = "StdoutLogAppender"
        · simp only [Option.map_some, Option.bind_some, bind, Except.bind, Node.asString, isStdout, if_true, formatter,
            level]
          rfl
        · simp only [Option.map_some, Option.bind_some, bind, Except.bind, Node.asString, isFile, isStdout, if_false]
          rfl

-- The loop by index over a sequence is the loop over its items.
theorem decode_appenders_items (yaml : YamlCpp) (front rest : List Node) :
    LogDefine.decodeAppenders yaml (.sequence (front ++ rest)) (List.range' front.length rest.length) =
      rest.foldr (fun a others => do return (← LogDefine.decodeAppender a).toList ++ (← others)) (.ok []) := by
  induction rest generalizing front with
  | nil => rfl
  | cons a rest ih =>
      have here : (Node.sequence (front ++ a :: rest)).index yaml front.length = some a := by simp [Node.index]
      have later := ih (front ++ [a])
      rw [List.append_assoc, List.singleton_append, List.length_append, List.length_singleton] at later
      rw [List.length_cons, List.range'_succ, LogDefine.decodeAppenders, here, List.foldr_cons, later]

theorem decode_appenders_of (yaml : YamlCpp) (appenders : List Entries)
    (scalars : ∀ appender ∈ appenders, ScalarFields appender) :
    LogDefine.decodeAppenders yaml (.sequence (appenders.map .map)) (List.range appenders.length) =
      .ok (appenders.filterMap appenderOf) := by
  have items := decode_appenders_items yaml [] (appenders.map .map)
  rw [List.nil_append, List.length_nil, List.length_map, ← List.range_eq_range'] at items
  rw [items]
  clear items
  induction appenders with
  | nil => rfl
  | cons appender rest ih =>
      have first := decode_appender_of appender (scalars appender List.mem_cons_self)
      rw [List.map_cons, List.foldr_cons, ih fun other member => scalars other (List.mem_cons_of_mem _ member), first,
        List.filterMap_cons]
      cases appenderOf appender <;> rfl

theorem as_fields_map (appenders : List Entries) : (appenders.map Node.map).map asFields = appenders := by
  rw [List.map_map]
  exact List.map_id _

theorem decode_node_of (yaml : YamlCpp) (fields : Entries) (shaped : LoggerFields fields) :
    LogDefine.decodeNode yaml (.map fields) =
      match defineOf fields with
      | some define => .ok define
      | none => .error "log config name is null" := by
  have name : (Node.map fields).get "name" = .ok ((fieldText fields "name").map .scalar) :=
    congrArg Except.ok (field_text_find fields "name" (logger_field fields "name" shaped (by decide)))
  have level := text_or_field fields "level" "" (logger_field fields "level" shaped (by decide))
  have formatter := text_or_field fields "formatter" "" (logger_field fields "formatter" shaped (by decide))
  have appenders : (Node.map fields).get "appenders" = .ok (fields.find "appenders") := rfl
  rw [LogDefine.decodeNode, name, defineOf]
  cases fieldText fields "name" with
  | none => rfl
  | some text =>
      simp only [Option.map_some, bind, Except.bind, Node.asString, level, formatter, appenders]
      cases found : fields.find "appenders" with
      | none =>
          have none : appendersOf fields = [] := by rw [appendersOf, found]
          rw [none]
          rfl
      | some value =>
          obtain ⟨list, same, scalars⟩ := (shaped _ (find_member fields "appenders" value found)).2 rfl
          have same : value = .sequence (list.map .map) := same
          subst same
          have listed := decode_appenders_of yaml list scalars
          have all : appendersOf fields = list.filterMap appenderOf := by
            simp only [appendersOf, found, as_fields_map]
          rw [all]
          simp only [Node.size, List.length_map, listed]
          rfl

-- std::set::insert keeps the definition that is there under the name.
theorem insert_define_known (i other : LogDefine) (list : List LogDefine)
    (sorted : list.Pairwise fun first second => first.name < second.name) (member : other ∈ list)
    (same : other.name = i.name) : LogDefineSet.insertDefine i list = list := by
  induction list with
  | nil => cases member
  | cons head rest ih =>
      rw [List.pairwise_cons] at sorted
      rw [LogDefineSet.insertDefine]
      rcases List.mem_cons.mp member with here | later
      · rw [← here, same]
        simp only [String.lt_irrefl, if_false]
      · have less : head.name < i.name := by
          rw [← same]
          exact sorted.1 other later
        have notLess : ¬ i.name < head.name := fun greater => String.lt_irrefl _ (String.lt_trans less greater)
        rw [if_neg notLess, if_pos less, ih sorted.2 later]

theorem insert_mem (set : LogDefineSet) (i member : LogDefine) :
    member ∈ (set.insert i).defines ↔
      member ∈ set.defines ∨ member = i ∧ ∀ other ∈ set.defines, other.name ≠ i.name := by
  by_cases known : ∃ other ∈ set.defines, other.name = i.name
  · obtain ⟨other, inSet, same⟩ := known
    have kept : (set.insert i).defines = set.defines := insert_define_known i other set.defines set.sorted inSet same
    rw [kept]
    constructor
    · exact .inl
    · rintro (old | ⟨-, fresh⟩)
      · exact old
      · exact absurd same (fresh other inSet)
  · push Not at known
    have mem : member ∈ (set.insert i).defines ↔ member = i ∨ member ∈ set.defines :=
      LogDefineSet.insert_define_mem i set.defines known member
    rw [mem, and_iff_left known]
    exact or_comm

-- What a run of insertions adds is the first of each name that is not there yet.
theorem insert_all_mem (list : List LogDefine) (set : LogDefineSet) (member : LogDefine) :
    member ∈ (list.foldl LogDefineSet.insert set).defines ↔
      member ∈ set.defines ∨
        (∀ other ∈ set.defines, other.name ≠ member.name) ∧ list.find? (fun i => i.name == member.name) = some member := by
  induction list generalizing set with
  | nil => simp
  | cons i rest ih =>
      rw [List.foldl_cons, ih]
      by_cases same : i.name = member.name
      · -- A definition with the name of i is in the set now, so rest adds none.
        have taken : ¬ ∀ other ∈ (set.insert i).defines, other.name ≠ member.name := by
          intro fresh
          by_cases known : ∃ other ∈ set.defines, other.name = i.name
          · obtain ⟨other, inSet, equal⟩ := known
            exact fresh other ((insert_mem set i other).mpr (.inl inSet)) (equal.trans same)
          · push Not at known
            exact fresh i ((insert_mem set i i).mpr (.inr ⟨rfl, known⟩)) same
        have first : (i :: rest).find? (fun other => other.name == member.name) = some i :=
          List.find?_cons_of_pos (by simpa using same)
        rw [first, insert_mem, same, Option.some.injEq, or_iff_left fun both => taken both.1]
        constructor
        · rintro (old | ⟨equal, fresh⟩)
          · exact .inl old
          · exact .inr ⟨fresh, equal.symm⟩
        · rintro (old | ⟨fresh, equal⟩)
          · exact .inl old
          · exact .inr ⟨equal.symm, fresh⟩
      · have skipped : (i :: rest).find? (fun other => other.name == member.name) =
            rest.find? (fun other => other.name == member.name) := List.find?_cons_of_neg (by simpa using same)
        have old : member ∈ (set.insert i).defines ↔ member ∈ set.defines := by
          rw [insert_mem, or_iff_left]
          intro both
          exact same (by rw [both.1])
        have fresh : (∀ other ∈ (set.insert i).defines, other.name ≠ member.name) ↔
            ∀ other ∈ set.defines, other.name ≠ member.name := by
          constructor
          · intro all other inSet
            exact all other ((insert_mem set i other).mpr (.inl inSet))
          · intro all other inNext
            rcases (insert_mem set i other).mp inNext with inSet | ⟨equal, -⟩
            · exact all other inSet
            · rw [equal]
              exact same
        rw [skipped, old, fresh]

theorem decode_of (yaml : YamlCpp) (fields : Entries) (shaped : LoggerFields fields)
    (kept : yaml.load (yaml.emit (.map fields)) = .ok (.map fields)) :
    LogDefine.decode yaml (yaml.emit (.map fields)) =
      match defineOf fields with
      | some define => .ok define
      | none => .error "log config name is null" := by
  rw [LogDefine.decode, kept]
  exact decode_node_of yaml fields shaped

def Named (fields : Entries) : Prop := (fieldText fields "name").isSome = true

instance (fields : Entries) : Decidable (Named fields) := inferInstanceAs (Decidable (_ = true))

theorem define_of_named (fields : Entries) : Named fields ↔ ∃ define, defineOf fields = some define := by
  rw [Named, defineOf, Option.isSome_iff_exists]
  cases fieldText fields "name" <;> simp

-- The loop by index over a sequence of entries inserts their definitions, or
-- stops at the first entry without a name.
theorem decode_items_of (yaml : YamlCpp) (front rest : List Entries) (set : LogDefineSet)
    (shaped : ∀ fields ∈ rest, LoggerFields fields)
    (kept : ∀ fields ∈ rest, yaml.load (yaml.emit (.map fields)) = .ok (.map fields)) :
    LogDefineSet.decodeItems yaml (.sequence ((front ++ rest).map .map)) (List.range' front.length rest.length) set =
      if ∀ fields ∈ rest, Named fields then .ok ((rest.filterMap defineOf).foldl LogDefineSet.insert set)
      else .error "log config name is null" := by
  induction rest generalizing front set with
  | nil => rfl
  | cons fields rest ih =>
      have here : (Node.sequence ((front ++ fields :: rest).map .map)).index yaml front.length = some (.map fields) := by
        simp [Node.index]
      have first := decode_of yaml fields (shaped fields List.mem_cons_self) (kept fields List.mem_cons_self)
      have later (next : LogDefineSet) := ih (front ++ [fields]) next
        (fun other member => shaped other (List.mem_cons_of_mem _ member))
        (fun other member => kept other (List.mem_cons_of_mem _ member))
      simp only [List.append_assoc, List.singleton_append, List.length_append, List.length_singleton] at later
      rw [List.length_cons, List.range'_succ, LogDefineSet.decodeItems, here, Option.getD_some, first]
      cases defined : defineOf fields with
      | none =>
          have nameless : ¬ ∀ other ∈ fields :: rest, Named other := by
            intro all
            obtain ⟨define, same⟩ := (define_of_named fields).mp (all fields List.mem_cons_self)
            rw [defined] at same
            cases same
          rw [if_neg nameless]
          rfl
      | some define =>
          have named : Named fields := (define_of_named fields).mpr ⟨define, defined⟩
          have all : (∀ other ∈ fields :: rest, Named other) ↔ ∀ other ∈ rest, Named other := by
            rw [List.forall_mem_cons, and_iff_right named]
          rw [List.filterMap_cons, defined, List.foldl_cons]
          simp only [all]
          exact later (set.insert define)

-- The parser throws at a nameless entry only, what it builds holds the first
-- entry of each name, and an update it throws in does nothing.
structure Filtered (yaml : YamlCpp) (v : String) (items : List Entries) : Prop where
  throws : (∃ thrown, LogDefineSet.decode yaml v = .error thrown) ↔ ∃ fields ∈ items, ¬ Named fields
  first : ∀ set, LogDefineSet.decode yaml v = .ok set →
    ∀ define, define ∈ set.defines ↔ firstNamed items define.name = some define
  refused : ∀ thrown, LogDefineSet.decode yaml v = .error thrown →
    ∀ (World Note : Type) (note : LogDefineSet → LogDefineSet → Note) (var : ConfigVar LogDefineSet World) (world : World)
      (calls : List Note), (var.recorded note).fromString (LogDefineSet.decode yaml) v (world, calls) =
        (var.recorded note, (world, calls), false)

theorem logs_filtered (yaml : YamlCpp) (v : String) (items : List Entries)
    (loaded : yaml.load v = .ok (.sequence (items.map .map))) (shaped : ∀ fields ∈ items, LoggerFields fields)
    (kept : ∀ fields ∈ items, yaml.load (yaml.emit (.map fields)) = .ok (.map fields)) : Filtered yaml v items := by
  have decoded := decode_items_of yaml [] items .empty shaped kept
  rw [List.nil_append, List.length_nil, ← List.range_eq_range'] at decoded
  have whole : LogDefineSet.decode yaml v =
      if ∀ fields ∈ items, Named fields then .ok ((items.filterMap defineOf).foldl LogDefineSet.insert .empty)
      else .error "log config name is null" := by
    rw [← decoded, LogDefineSet.decode, loaded]
    simp only [bind, Except.bind, Node.size, List.length_map]
  constructor
  · rw [whole]
    split
    · rename_i all
      simpa using all
    · rename_i nameless
      push Not at nameless
      exact iff_of_true ⟨_, rfl⟩ nameless
  · intro set completed define
    rw [whole] at completed
    split at completed
    · cases completed
      rw [insert_all_mem, firstNamed]
      simp [LogDefineSet.empty]
    · cases completed
  · intro thrown failed World Note note var world calls
    exact ConfigVar.from_string_error _ (var.recorded note) v (world, calls) thrown failed

def textFields (texts : List (String × String)) : Entries := texts.map fun field => (.scalar field.1, .scalar field.2)

theorem text_fields_scalar (texts : List (String × String)) : ScalarFields (textFields texts) := by
  intro entry member
  obtain ⟨field, -, rfl⟩ := List.mem_map.mp member
  rfl

-- An appender without a file between two good ones, and the root logger twice.
def rootAppenders : List Entries :=
  [[("type", "StdoutLogAppender")], [("type", "FileLogAppender")], [("type", "FileLogAppender"), ("file", "root.txt")]].map
    textFields

def firstRoot : Entries := [(.scalar "name", .scalar "root"), (.scalar "appenders", .sequence (rootAppenders.map .map))]

def secondRoot : Entries := textFields [("name", "root"), ("level", "ERROR")]

def firstText : String :=
  "name: root\nappenders:\n  - type: StdoutLogAppender\n  - type: FileLogAppender\n  - type: FileLogAppender\n    file: root.txt"

def secondText : String := "name: root\nlevel: ERROR"

def rootYaml : YamlCpp where
  emit node := if (fieldText (asFields node) "level").isSome then secondText else firstText
  load text :=
    if text = firstText then .ok (.map firstRoot)
    else if text = secondText then .ok (.map secondRoot)
    else .ok (.sequence [.map firstRoot, .map secondRoot])
  asIndex _ := none

theorem logs_filtered_root : Filtered rootYaml "- *root\n- *error" [firstRoot, secondRoot] := by
  apply logs_filtered rootYaml "- *root\n- *error" [firstRoot, secondRoot] rfl
  · intro fields member
    rcases List.mem_pair.mp member with rfl | rfl
    · intro entry inFields
      rcases List.mem_pair.mp inFields with rfl | rfl
      · exact ⟨fun _ => rfl, fun same => absurd same (by simp)⟩
      · exact ⟨fun other => absurd rfl other, fun _ =>
          ⟨rootAppenders, rfl, List.forall_mem_map.mpr fun texts _ => text_fields_scalar texts⟩⟩
    · intro entry inFields
      refine ⟨fun _ => text_fields_scalar _ entry inFields, fun same => ?_⟩
      rcases List.mem_pair.mp inFields with rfl | rfl
      · exact absurd same (by simp)
      · exact absurd same (by simp)
  · intro fields member
    rcases List.mem_pair.mp member with rfl | rfl
    · rfl
    · rfl

end Sylar.Log
