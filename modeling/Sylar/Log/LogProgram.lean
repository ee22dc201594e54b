import Sylar.Config.LoadedValues
import Sylar.Config.LookupHistory
import Sylar.Log.LockPrograms
import Sylar.Log.LogHistory
import Sylar.Log.LogsText
import Sylar.Log.ReadyToFormat

set_option autoImplicit false

namespace Sylar.Log.LogProgram

open Config (AnyVar ConfigType ConfigVar LookupHistory OnChange Registry listAllMember list_all_member_valid)
open Lib (Address Heap)
open LockPrograms (logsType typeOf)
open LogHistory (Consistent KnownTypes validPattern view wanted)
open LogIniter
open Yaml (Exception Node YamlCpp)

-- The loggers, which are none after a call through a null pointer, and what
-- else the listeners of a program work on.
abbrev Env (World : Type) := Option Manager × World

section Program

variable {Ty World : Type} (yaml : YamlCpp) (types : Ty → ConfigType)

abbrev Program (World : Type) := LookupHistory (typeOf yaml types) (Env World)

-- The callback that LogIniter hands to g_log_defines->addListener.
def onLogs : OnChange LogDefineSet (Env World) := fun old new env => ((env.1.bind (onLogsChanged old new), env.2), none)

inductive Action (World : Type) where
  | config (call : Config.Call (typeOf yaml types) (Env World))
  | getLogger (name : String)

variable [DecidableEq Ty]

-- What the initialisers of log.cc do: g_log_defines, then __log_init.
def boot (world : World) : Program yaml types World :=
  let started : Program yaml types World := LookupHistory.start (some (LoggerManager.new defaultFormatter), world)
  let declared := started.perform yaml (.lookup none "logs" LogDefineSet.empty "logs config")
  declared.perform yaml (.addListener none 0 onLogs)

def onEnv (program : Program yaml types World) (change : Env World → Env World) : Program yaml types World :=
  { program with registry := { program.registry with world := change program.registry.world } }

def step (program : Program yaml types World) : Action yaml types World → Program yaml types World
  | .config call => program.perform yaml call
  | .getLogger name =>
      onEnv yaml types program fun env => (env.1.map fun manager => (manager.getLogger defaultFormatter name).1, env.2)

def KeepsManager {Val : Type} (cb : OnChange Val (Env World)) : Prop := ∀ old new env, (cb old new env).1.1 = env.1

-- Other variables may have listeners, also such that throw, as long as they
-- leave the loggers alone; g_log_defines keeps the one that it has.
def Allowed : Action yaml types World → Prop
  | .config (.addListener _ pointer cb) => pointer ≠ 0 ∧ KeepsManager cb
  | .config (.setValue none pointer new) => pointer = 0 → KnownTypes new
  | _ => True

def KeepsName : Action yaml types World → Prop
  | .config (.lookup none name _ _) => name ≠ "logs"
  | _ => True

end Program

section Env

variable {Val World : Type} [BEq Val]

omit [BEq Val] in
theorem notify_keeps (old new : Val) (cbs : List (Nat × OnChange Val (Env World))) (env : Env World)
    (keeps : ∀ entry ∈ cbs, KeepsManager entry.2) : (ConfigVar.notify old new cbs env).1.1 = env.1 := by
  induction cbs generalizing env with
  | nil => rfl
  | cons entry rest ih =>
      obtain ⟨key, cb⟩ := entry
      have own : (cb old new env).1.1 = env.1 := keeps (key, cb) List.mem_cons_self old new env
      rw [ConfigVar.notify]
      split
      · rename_i next called
        rw [called] at own
        rw [ih next fun later member => keeps later (List.mem_cons_of_mem _ member)]
        exact own
      · rename_i next thrown called
        rw [called] at own
        exact own

theorem set_value_keeps (var : ConfigVar Val (Env World)) (new : Val) (env : Env World)
    (keeps : ∀ entry ∈ var.cbs.toList, KeepsManager entry.2) : (var.setValue new env).2.1.1 = env.1 := by
  have told := notify_keeps var.val new var.cbs.toList env keeps
  rw [ConfigVar.setValue]
  split
  · rfl
  · split
    · rename_i next called
      rwa [called] at told
    · rename_i next thrown called
      rwa [called] at told

theorem from_string_keeps (fromStr : String → Except Exception Val) (var : ConfigVar Val (Env World)) (text : String)
    (env : Env World) (keeps : ∀ entry ∈ var.cbs.toList, KeepsManager entry.2) :
    (var.fromString fromStr text env).2.1.1 = env.1 := by
  rw [ConfigVar.fromString]
  split
  · rfl
  · rename_i new converted
    have set := set_value_keeps var new env keeps
    split
    · rename_i called
      rwa [called] at set
    · rename_i called
      rwa [called] at set

end Env

section Logs

variable {World : Type}

-- g_log_defines: its one listener has made the loggers what its value asks for.
structure Governed (var : ConfigVar LogDefineSet (Env World)) (env : Env World) : Prop where
  callbacks : var.cbs.toList = [(1, onLogs)]
  consistent : ∃ values manager, env.1 = some manager ∧ Consistent values var.val manager

theorem set_value_governed (var : ConfigVar LogDefineSet (Env World)) (value : LogDefineSet) (env : Env World)
    (known : KnownTypes value) (governed : Governed var env) :
    (var.setValue value env).1 = { var with val := value } ∧
      Governed (var.setValue value env).1 (var.setValue value env).2.1 := by
  obtain ⟨values, manager, present, consistent⟩ := governed.consistent
  by_cases same : var.val = value
  · have unchanged : var.setValue value env = (var, env, none) := by simp [ConfigVar.setValue, same]
    subst same
    rw [unchanged]
    exact ⟨rfl, governed⟩
  · obtain ⟨after, completed, next⟩ := LogHistory.consistent_changed values var.val value manager known consistent
    have set : var.setValue value env = ({ var with val := value }, (some after, env.2), none) := by
      simp [ConfigVar.setValue, same, governed.callbacks, ConfigVar.notify, onLogs, present, completed]
    rw [set]
    exact ⟨rfl, governed.callbacks, values ++ [value], after, rfl, next⟩

theorem from_string_governed (yaml : YamlCpp) (var : ConfigVar LogDefineSet (Env World)) (text : String) (env : Env World)
    (governed : Governed var env) :
    let result := var.fromString (LogDefineSet.decode yaml) text env
    Governed result.1 result.2.1 ∧ ∀ value, LogDefineSet.decode yaml text = .ok value → result.1.val = value := by
  simp only [ConfigVar.fromString]
  cases decoded : LogDefineSet.decode yaml text with
  | error thrown => exact ⟨governed, by simp⟩
  | ok value =>
      have known : KnownTypes value := LogDefineSet.decode_known yaml text value decoded
      obtain ⟨set, next⟩ := set_value_governed var value env known governed
      simp only [Except.ok.injEq, forall_eq']
      split
      · rename_i called
        rw [called] at set next
        exact ⟨next, by rw [set]⟩
      · rename_i called
        rw [called] at set next
        exact ⟨next, by rw [set]⟩

theorem governed_env (var : ConfigVar LogDefineSet (Env World)) (env next : Env World) (same : next.1 = env.1)
    (governed : Governed var env) : Governed var next := by
  obtain ⟨values, manager, present, consistent⟩ := governed.consistent
  exact ⟨governed.callbacks, values, manager, by rw [same, present], consistent⟩

end Logs

section Booted

variable {Ty World : Type} {yaml : YamlCpp} {types : Ty → ConfigType}

structure Booted (registry : Registry (typeOf yaml types) (Env World)) : Prop where
  logs : ∃ var : ConfigVar LogDefineSet (Env World), registry.vars.read 0 = some ⟨none, var⟩ ∧ Governed var registry.world
  others : ∀ (pointer : Address) (cell : AnyVar (typeOf yaml types) (Env World)), pointer ≠ 0 →
    registry.vars.read pointer = some cell → ∀ entry ∈ cell.2.cbs.toList, KeepsManager entry.2

variable (registry : Registry (typeOf yaml types) (Env World)) (booted : Booted registry)

-- The variable behind another pointer is replaced; its new listeners are given.
theorem booted_elsewhere (pointer : Address) (elsewhere : pointer ≠ 0) (cell : AnyVar (typeOf yaml types) (Env World))
    (funId : Option Ty → Nat) (env : Env World) (same : env.1 = registry.world.1)
    (keeps : ∀ entry ∈ cell.2.cbs.toList, KeepsManager entry.2) (booted : Booted registry) :
    Booted ⟨registry.vars.modify pointer fun _ => cell, registry.datas, funId, env⟩ where
  logs := by
    obtain ⟨var, read, governed⟩ := booted.logs
    refine ⟨var, ?_, governed_env var registry.world env same governed⟩
    exact (Heap.read_modify_elsewhere registry.vars pointer 0 _ elsewhere.symm).trans read
  others := by
    intro other found apart read
    by_cases here : other = pointer
    · subst here
      rw [Heap.read_modify_here] at read
      obtain ⟨old, -, rfl⟩ := Option.map_eq_some_iff.mp read
      exact keeps
    · rw [Heap.read_modify_elsewhere registry.vars pointer other _ here] at read
      exact booted.others other found apart read

theorem booted_here (var : ConfigVar LogDefineSet (Env World)) (env : Env World) (governed : Governed var env)
    (booted : Booted registry) : Booted ⟨registry.vars.modify 0 fun _ => ⟨none, var⟩, registry.datas, registry.funId, env⟩ where
  logs := by
    obtain ⟨old, read, -⟩ := booted.logs
    refine ⟨var, ?_, governed⟩
    rw [Heap.read_modify_here, read]
    rfl
  others := by
    intro other found apart read
    rw [Heap.read_modify_elsewhere registry.vars 0 other _ apart] at read
    exact booted.others other found apart read

include booted

theorem from_string_booted (pointer : Address) (text : String) : Booted (registry.fromString pointer text).1 := by
  by_cases here : pointer = 0
  · subst here
    obtain ⟨var, read, governed⟩ := booted.logs
    have next := (from_string_governed yaml var text registry.world governed).1
    rw [Registry.fromString, read]
    exact booted_here registry _ _ next booted
  · rw [Registry.fromString]
    split
    · exact booted
    · rename_i cell read
      have keeps := booted.others pointer cell here read
      refine booted_elsewhere registry pointer here _ registry.funId _ (from_string_keeps _ cell.2 text registry.world keeps) ?_ booted
      simpa only [ConfigVar.from_string_cbs] using keeps

theorem load_members_booted (items : List (String × Node)) : Booted (items.foldl (Registry.loadMember yaml) registry) := by
  induction items generalizing registry with
  | nil => exact booted
  | cons item rest ih =>
      apply ih
      rw [Registry.loadMember]
      split
      · exact booted
      · split
        · exact booted
        · exact from_string_booted registry booted _ _

variable [DecidableEq Ty]

theorem set_logs_booted (new : LogDefineSet) (known : KnownTypes new) : Booted (registry.setValue none 0 new).1 := by
  obtain ⟨var, read, governed⟩ := booted.logs
  have next := (set_value_governed var new registry.world known governed).2
  simp only [Registry.setValue, read]
  exact booted_here registry _ _ next booted

theorem set_value_booted (ty : Option Ty) (pointer : Address) (new : (typeOf yaml types ty).Val)
    (apart : pointer ≠ 0 ∨ ty ≠ none) : Booted (registry.setValue ty pointer new).1 := by
  rw [Registry.setValue]
  split
  · exact booted
  · rename_i cell read
    split
    · rename_i same
      by_cases here : pointer = 0
      · obtain ⟨var, logs, -⟩ := booted.logs
        rw [here, logs, Option.some.injEq] at read
        rw [same, ← read] at apart
        exact absurd rfl (apart.resolve_left fun elsewhere => elsewhere here)
      · have keeps := booted.others pointer cell here read
        refine booted_elsewhere registry pointer here _ registry.funId _ (set_value_keeps cell.2 _ registry.world keeps) ?_ booted
        simpa only [ConfigVar.set_value_cbs] using keeps
    · exact booted

theorem add_listener_booted (ty : Option Ty) (pointer : Address) (cb : OnChange (typeOf yaml types ty).Val (Env World))
    (elsewhere : pointer ≠ 0) (keeps : KeepsManager cb) : Booted (registry.addListener ty pointer cb).1 := by
  rw [Registry.addListener]
  split
  · exact booted
  · rename_i cell read
    split
    · rename_i same
      subst same
      refine booted_elsewhere registry pointer elsewhere _ _ registry.world rfl ?_ booted
      intro entry member
      rw [Std.TreeMap.mem_toList_iff_getElem?_eq_some] at member
      simp only [ConfigVar.addListener, Std.TreeMap.getElem?_insert] at member
      split at member
      · rw [← Option.some.inj member]
        exact keeps
      · exact booted.others pointer cell elsewhere read entry (Std.TreeMap.mem_toList_iff_getElem?_eq_some.mpr member)
    · exact booted

theorem lookup_booted (ty : Option Ty) (name : String) (defaultValue : (typeOf yaml types ty).Val) (description : String) :
    Booted (registry.lookup ty name defaultValue description).1 := by
  have created : Booted (registry.create ty name defaultValue description).1 := by
    rw [Registry.create]
    split
    · obtain ⟨var, read, governed⟩ := booted.logs
      refine ⟨⟨var, Heap.read_alloc_keeps registry.vars _ _ 0 read, governed⟩, ?_⟩
      intro other found apart present
      by_cases fresh : other = registry.vars.size
      · subst fresh
        rw [Heap.read_alloc_fresh, Option.some.injEq] at present
        subst present
        intro entry member
        exact absurd member List.not_mem_nil
      · exact booted.others other found apart (Heap.read_alloc_known registry.vars _ found other fresh present)
    · exact booted
  rw [Registry.lookup]
  split
  · split
    · exact created
    · exact booted
  · exact created

end Booted

-- A name that is looked up for the first time gets a logger as no definition
-- has touched it.
theorem get_logger_consistent (values : List LogDefineSet) (val : LogDefineSet) (manager : Manager)
    (consistent : Consistent values val manager) (name : String) :
    Consistent values val (manager.getLogger defaultFormatter name).1 := by
  cases present : manager.loggers[name]? with
  | some logger =>
      have unchanged : (manager.getLogger defaultFormatter name).1 = manager := by
        simp only [LoggerManager.getLogger, present]
      rw [unchanged]
      exact consistent
  | none =>
      have names := LoggerManager.get_logger_names defaultFormatter manager name consistent.wellFormed
      have empty : (manager.current defaultFormatter name).appenders = [] := by
        simp only [LoggerManager.current, present, Option.bind_none]
        rfl
      generalize manager.getLogger defaultFormatter name = result at names
      obtain ⟨after, logger⟩ := result
      have sets : LoggerManager.Sets manager after name logger (manager.current defaultFormatter name) := by
        refine ⟨names.named, names.kept, names.fresh, names.stored, names.loggers, fun other bound _ => names.objects other bound,
          ?_, ?_, ?_⟩
        · simp [empty]
        · exact Nat.le_of_eq (congrArg Heap.size names.appenders).symm
        · intro appender _ _
          rw [names.appenders]
      have before : Reached manager (fun _ => False) manager :=
        ⟨consistent.wellFormed, Nat.le_refl _, fun _ _ => rfl, fun _ _ _ _ => rfl, fun _ _ _ => rfl⟩
      have reached := reached_step manager manager after _ before name logger _ id sets
      refine ⟨reached.wellFormed,
        LoggerManager.sets_separate manager after name logger _ sets consistent.wellFormed consistent.separate, ?_, ?_,
        consistent.valid⟩
      · intro other
        by_cases same : other = name
        · subst same
          rw [LogHistory.current_formatter after other logger _ names.named names.stored]
          exact consistent.formatter other
        · rw [reached_formatter manager after _ reached other (by simpa using same)]
          exact consistent.formatter other
      · intro i member
        have shown := consistent.shown i member
        have different : i.name ≠ name := by
          intro same
          rw [same, view, present] at shown
          cases shown
        rw [LogHistory.untouched_view manager after _ consistent.wellFormed consistent.separate reached i.name
          (by simpa using different)]
        exact shown

section Runs

variable {Ty World : Type} [DecidableEq Ty] (yaml : YamlCpp) (types : Ty → ConfigType)

theorem step_booted (program : Program yaml types World) (action : Action yaml types World) (booted : Booted program.registry)
    (allowed : Allowed yaml types action) : Booted (step yaml types program action).registry := by
  cases action with
  | getLogger name =>
      refine ⟨?_, booted.others⟩
      obtain ⟨var, read, governed⟩ := booted.logs
      obtain ⟨values, manager, present, consistent⟩ := governed.consistent
      refine ⟨var, read, governed.callbacks, values, (manager.getLogger defaultFormatter name).1, ?_,
        get_logger_consistent values var.val manager consistent name⟩
      simp only [step, onEnv, present, Option.map_some]
  | config call =>
      cases call with
      | lookup ty name defaultValue description =>
          have looked := lookup_booted program.registry booted ty name defaultValue description
          simp only [step, LookupHistory.perform]
          split <;> exact looked
      | lookupExisting ty name => exact booted
      | loadFromYaml root => exact load_members_booted program.registry booted _
      | setValue ty pointer new =>
          cases ty with
          | some other => exact set_value_booted program.registry booted (some other) pointer new (.inr (by simp))
          | none =>
              by_cases here : pointer = 0
              · subst here
                exact set_logs_booted program.registry booted new (allowed rfl)
              · exact set_value_booted program.registry booted none pointer new (.inl here)
      | addListener ty pointer cb => exact add_listener_booted program.registry booted ty pointer cb allowed.1 allowed.2

theorem boot_booted (world : World) : Booted (boot yaml types world).registry where
  logs := ⟨((ConfigVar.new "logs" LogDefineSet.empty "logs config").addListener 0 onLogs).1, rfl, rfl, [],
    LoggerManager.new defaultFormatter, rfl, LogHistory.consistent_initial⟩
  others := by
    intro pointer cell apart read
    have cells : (boot yaml types world).registry.vars.size = 1 := rfl
    have bound := Heap.read_bound _ _ _ read
    rw [cells] at bound
    exact absurd (Nat.lt_one_iff.mp bound) apart

theorem run_booted (actions : List (Action yaml types World)) (program : Program yaml types World)
    (booted : Booted program.registry) (allowed : ∀ action ∈ actions, Allowed yaml types action) :
    Booted (actions.foldl (step yaml types) program).registry := by
  induction actions generalizing program with
  | nil => exact booted
  | cons action rest ih =>
      exact ih _ (step_booted yaml types program action booted (allowed action List.mem_cons_self))
        fun later member => allowed later (List.mem_cons_of_mem _ member)

-- The entry "logs" is g_log_defines, and the registry is in order.
structure Named (program : Program yaml types World) : Prop where
  recorded : program.Recorded
  stored : program.registry.datas["logs"]? = some 0

theorem lookup_keeps_logs (registry : Registry (typeOf yaml types) (Env World)) (booted : Booted registry)
    (stored : registry.datas["logs"]? = some 0) (ty : Option Ty) (name : String) (defaultValue : (typeOf yaml types ty).Val)
    (description : String) (other : ty = none → name ≠ "logs") :
    (registry.lookup ty name defaultValue description).1.datas["logs"]? = some 0 := by
  by_cases same : name = "logs"
  · subst same
    obtain ⟨var, read, -⟩ := booted.logs
    have uncast : registry.cast ty 0 = none := by
      rw [Registry.cast, read]
      exact if_neg fun none => other none.symm rfl
    simp only [Registry.lookup, stored, uncast]
  · have created : (registry.create ty name defaultValue description).1.datas["logs"]? = some 0 := by
      by_cases valid : Config.validName name
      · rw [Registry.create_datas registry ty name "logs" defaultValue description valid, if_neg same]
        exact stored
      · rw [Registry.create_invalid registry ty name defaultValue description valid]
        exact stored
    rw [Registry.lookup]
    split
    · split
      · exact created
      · exact stored
    · exact created

theorem step_named (program : Program yaml types World) (action : Action yaml types World) (booted : Booted program.registry)
    (named : Named yaml types program) (keeps : KeepsName yaml types action) :
    Named yaml types (step yaml types program action) := by
  cases action with
  | getLogger name => exact ⟨⟨named.recorded.wellFormed, named.recorded.entries, named.recorded.pointers⟩, named.stored⟩
  | config call =>
      refine ⟨LookupHistory.perform_recorded yaml program call named.recorded, ?_⟩
      cases call with
      | lookup ty name defaultValue description =>
          have looked := lookup_keeps_logs yaml types program.registry booted named.stored ty name defaultValue description
            fun none => by
              subst none
              exact keeps
          simp only [step, LookupHistory.perform]
          split <;> exact looked
      | lookupExisting ty name => exact named.stored
      | loadFromYaml root =>
          have kept := (Registry.load_from_yaml_keeps yaml program.registry root).1
          exact (congrArg (·["logs"]?) kept).trans named.stored
      | setValue ty pointer new =>
          have kept := (Registry.set_value_keeps program.registry ty pointer new).1
          exact (congrArg (·["logs"]?) kept).trans named.stored
      | addListener ty pointer cb =>
          have kept := (Registry.add_listener_keeps program.registry ty pointer cb).1
          exact (congrArg (·["logs"]?) kept).trans named.stored

theorem boot_named (world : World) : Named yaml types (boot yaml types world) where
  recorded := by
    rw [boot]
    apply LookupHistory.perform_recorded
    apply LookupHistory.perform_recorded
    exact LookupHistory.start_recorded _
  stored := rfl

theorem run_named (actions : List (Action yaml types World)) (program : Program yaml types World)
    (booted : Booted program.registry) (named : Named yaml types program)
    (allowed : ∀ action ∈ actions, Allowed yaml types action) (keeps : ∀ action ∈ actions, KeepsName yaml types action) :
    Named yaml types (actions.foldl (step yaml types) program) := by
  induction actions generalizing program with
  | nil => exact named
  | cons action rest ih =>
      exact ih _ (step_booted yaml types program action booted (allowed action List.mem_cons_self))
        (step_named yaml types program action booted named (keeps action List.mem_cons_self))
        (fun later member => allowed later (List.mem_cons_of_mem _ member))
        fun later member => keeps later (List.mem_cons_of_mem _ member)

omit [DecidableEq Ty] in
theorem load_sets_logs (program : Program yaml types World) (booted : Booted program.registry)
    (named : Named yaml types program) (root : Node) (earlier : List String) (text : String) (value : LogDefineSet)
    (texts : Registry.textsAt yaml "logs" (listAllMember "" root) = earlier ++ [text])
    (decoded : LogDefineSet.decode yaml text = .ok value) :
    (program.registry.loadFromYaml yaml root).valueAt 0 = some ⟨none, value⟩ := by
  obtain ⟨var, read, governed⟩ := booted.logs
  have quiet : program.registry.QuietAt 0 := by
    intro cell there
    rw [read, Option.some.injEq] at there
    subst there
    intro entry member
    have only : entry = (1, onLogs) := List.mem_singleton.mp (governed.callbacks ▸ member)
    rw [only]
    exact fun _ _ _ => rfl
  have current : program.registry.valueAt 0 = some ⟨none, var.val⟩ := by rw [Registry.valueAt, read]; rfl
  rw [Registry.loadFromYaml, Registry.load_members_value yaml "logs" 0 _ _ named.recorded.wellFormed
    (list_all_member_valid "" root) named.stored quiet, texts, current, Option.map_some, Registry.assign_texts_value,
    List.foldl_append]
  have assigned (before : LogDefineSet) : ConfigVar.assign (LogDefineSet.decode yaml) before text = value := by
    simp only [ConfigVar.assign, decoded]
    split
    · rename_i same
      exact eq_of_beq same
    · rfl
  exact congrArg some (congrArg (Sigma.mk none) (assigned _))

-- From the text of a document to the loggers: the last text under "logs" that
-- a load hands over decides, whatever the program did before.
theorem load_reconfigures (world : World) (actions : List (Action yaml types World))
    (allowed : ∀ action ∈ actions, Allowed yaml types action) (keeps : ∀ action ∈ actions, KeepsName yaml types action)
    (root : Node) (earlier : List String) (text : String) (value : LogDefineSet)
    (texts : Registry.textsAt yaml "logs" (listAllMember "" root) = earlier ++ [text])
    (decoded : LogDefineSet.decode yaml text = .ok value) :
    let registry := ((actions.foldl (step yaml types) (boot yaml types world)).registry).loadFromYaml yaml root
    ∃ manager, registry.world.1 = some manager ∧ manager.Separate ∧ ∀ i ∈ value.defines, ∃ pattern,
      (∀ own, validPattern i.formatter = some own → pattern = own) ∧ view manager i.name = some (wanted i pattern) := by
  intro registry
  have booted := run_booted yaml types actions _ (boot_booted yaml types world) allowed
  have named := run_named yaml types actions _ (boot_booted yaml types world) (boot_named yaml types world) allowed keeps
  have set := load_sets_logs yaml types _ booted named root earlier text value texts decoded
  obtain ⟨var, read, governed⟩ := (load_members_booted _ booted (listAllMember "" root)).logs
  obtain ⟨values, manager, present, consistent⟩ := governed.consistent
  have shown : registry.valueAt 0 = some ⟨none, var.val⟩ :=
    congrArg (Option.map fun cell : AnyVar (typeOf yaml types) (Env World) =>
      (⟨cell.1, cell.2.val⟩ : (ty : Option Ty) × (typeOf yaml types ty).Val)) read
  have same : var.val = value := eq_of_heq (Sigma.mk.inj (Option.some.inj (shown.symm.trans set))).2
  rw [same] at consistent
  refine ⟨manager, present, consistent.separate, ?_⟩
  intro i member
  exact ⟨_, consistent.valid i member, consistent.shown i member⟩

end Runs

abbrev portType : Unit → ConfigType := fun _ => Config.intType

def refusingListener : OnChange Int (Env Unit) := fun _ _ env => (env, some "refused")

-- Somebody asks for the logger first, and another variable has a listener that throws.
def portActions : List (Action ReadyToFormat.systemYaml portType Unit) :=
  [.getLogger "system", .config (.lookup (some ()) "system.port" (8080 : Int) "system port"),
    .config (.addListener (some ()) 1 refusingListener)]

def logsDocument : Node := .map [(.scalar "logs", .sequence [ReadyToFormat.systemNode])]

def logsText : String := "- name: system
  appenders:
    - type: StdoutLogAppender"

def systemSet : LogDefineSet := ⟨[⟨"system", .unknow, "", [⟨2, .unknow, "", ""⟩]⟩], List.pairwise_singleton _ _⟩

theorem port_actions_allowed : ∀ action ∈ portActions, Allowed ReadyToFormat.systemYaml portType action := by
  intro action member
  simp only [portActions, List.mem_cons, List.not_mem_nil, or_false] at member
  rcases member with rfl | rfl | rfl
  · trivial
  · trivial
  · exact ⟨Nat.one_ne_zero, fun _ _ _ => rfl⟩

theorem port_actions_keep_name : ∀ action ∈ portActions, KeepsName ReadyToFormat.systemYaml portType action := by
  intro action member
  simp only [portActions, List.mem_cons, List.not_mem_nil, or_false] at member
  rcases member with rfl | rfl | rfl <;> trivial

theorem load_reconfigures_port :
    let registry := ((portActions.foldl (step ReadyToFormat.systemYaml portType) (boot _ portType ())).registry).loadFromYaml
      ReadyToFormat.systemYaml logsDocument
    ∃ manager pattern, registry.world.1 = some manager ∧
      view manager "system" = some (wanted ⟨"system", .unknow, "", [⟨2, .unknow, "", ""⟩]⟩ pattern) := by
  have texts : Registry.textsAt ReadyToFormat.systemYaml "logs" (listAllMember "" logsDocument) = [] ++ [logsText] := rfl
  have decoded : LogDefineSet.decode ReadyToFormat.systemYaml logsText = .ok systemSet := rfl
  obtain ⟨manager, present, -, shown⟩ := load_reconfigures ReadyToFormat.systemYaml portType () portActions port_actions_allowed
    port_actions_keep_name logsDocument [] logsText systemSet texts decoded
  obtain ⟨pattern, -, seen⟩ := shown _ List.mem_cons_self
  exact ⟨manager, pattern, present, seen⟩

end Sylar.Log.LogProgram
