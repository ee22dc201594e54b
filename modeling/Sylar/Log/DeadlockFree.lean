import Sylar.Log.LockPrograms

set_option autoImplicit false

namespace Sylar.Log.LockPrograms

open Lib (Address Heap)
open Lib.LockOrder
open Sylar.Config (ConfigType)
open Yaml (Entries Exception Node YamlCpp)

variable {Ty : Type} {yaml : YamlCpp} {types : Ty → ConfigType}

-- Configuration locks, the manager's, a logger's, the root logger's, an appender's.
def rank (root : Address) : Lock → Nat
  | .registry | .configVar _ => 4
  | .manager => 3
  | .logger logger => if logger = root then 1 else 2
  | .appender _ => 0

-- Every logger falls back on the one root logger, which falls back on nothing.
structure Rooted (root : Address) (world : World yaml types) : Prop where
  own : world.manager.root = root
  there : root < world.manager.objects.size
  falls : ∀ (logger : Address) (object : Log.Logger LogFormatter), world.manager.objects.read logger = some object →
    object.root = if logger = root then none else some root

def Above (root : Address) (bound : Nat) (held : List Lock) : Prop := ∀ other ∈ held, bound < rank root other

abbrev Safe {α : Type} (root : Address) (held : List Lock) (code : Code yaml types α) (post : α → Prop) : Prop :=
  Nests (Rooted root) (rank root) held code post

section World

variable (root : Address)

theorem above_le (low high : Nat) (held : List Lock) (le : low ≤ high) (above : Above root high held) : Above root low held :=
  fun other member => Nat.lt_of_le_of_lt le (above other member)

theorem above_cons (bound : Nat) (lock : Lock) (held : List Lock) (higher : bound < rank root lock)
    (above : Above root bound held) : Above root bound (lock :: held) := by
  intro other member
  rcases List.mem_cons.mp member with rfl | old
  · exact higher
  · exact above other old

theorem rank_logger_le (logger : Address) : rank root (.logger logger) ≤ 2 := by
  rw [rank]
  split <;> decide

theorem rank_logger_pos (logger : Address) : 0 < rank root (.logger logger) := by
  rw [rank]
  split <;> decide

theorem rooted_same_objects (world : World yaml types) (manager : Manager) (rooted : Rooted root world)
    (sameRoot : manager.root = world.manager.root) (same : manager.objects = world.manager.objects) :
    Rooted root { world with manager := manager } := by
  refine ⟨sameRoot.trans rooted.own, ?_, fun logger object stored => ?_⟩
  · show root < manager.objects.size
    rw [same]
    exact rooted.there
  · rw [show manager.objects = world.manager.objects from same] at stored
    exact rooted.falls logger object stored

theorem rooted_modify_logger (world : World yaml types) (rooted : Rooted root world) (logger : Address)
    (update : Log.Logger LogFormatter → Log.Logger LogFormatter) (kept : ∀ object, (update object).root = object.root) :
    Rooted root { world with manager := world.manager.modifyLogger logger update } := by
  refine ⟨rooted.own, by simpa [Log.LoggerManager.modifyLogger] using rooted.there, fun other object stored => ?_⟩
  by_cases same : other = logger
  · subst same
    rw [Log.LoggerManager.modifyLogger, Heap.read_modify_here] at stored
    obtain ⟨old, here, rfl⟩ := Option.map_eq_some_iff.mp stored
    rw [kept]
    exact rooted.falls other old here
  · rw [Log.LoggerManager.modifyLogger, Heap.read_modify_elsewhere _ _ _ _ same] at stored
    exact rooted.falls other object stored

theorem rooted_insert (world : World yaml types) (rooted : Rooted root world) (name : String) :
    Rooted root { world with manager := (GetLoggerRace.insertLogger defaultFormatter world.manager name).1 } := by
  refine ⟨rooted.own, ?_, fun other object stored => ?_⟩
  · simpa [GetLoggerRace.insertLogger] using Nat.lt_succ_of_lt rooted.there
  · by_cases fresh : other = world.manager.objects.size
    · subst fresh
      have different : world.manager.objects.size ≠ root := Nat.ne_of_gt rooted.there
      cases (Heap.read_alloc_fresh _ _).symm.trans stored
      rw [if_neg different, ← rooted.own]
    · exact rooted.falls other object (Heap.read_alloc_known _ _ _ _ fresh stored)

end World

section Acts

variable (root : Address) (held : List Lock)

theorem nests_on_manager (update : Manager → Manager)
    (kept : ∀ world : World yaml types, Rooted root world → Rooted root { world with manager := update world.manager }) :
    Safe root held (onManager update : Code yaml types Unit) fun _ => True :=
  nests_modify held _ kept

theorem nests_modify_logger (logger : Address) (update : Log.Logger LogFormatter → Log.Logger LogFormatter)
    (kept : ∀ object, (update object).root = object.root) :
    Safe root held (Logger.modify logger update : Code yaml types Unit) fun _ => True :=
  nests_on_manager root held _ fun world rooted => rooted_modify_logger root world rooted logger update kept

theorem nests_look {α : Type} (look : World yaml types → α) : Safe root held (.read look) fun _ => True :=
  nests_read held look _ fun _ _ => trivial

end Acts

section Appenders

variable (root : Address) (held : List Lock)

theorem nests_set (above : Above root 0 held) (appender : Address)
    (update : Log.LogAppender LogFormatter → Log.LogAppender LogFormatter) :
    Safe root held (LogAppender.set appender update : Code yaml types Unit) fun _ => True :=
  nests_guarded held _ _ _ _ above (nests_on_manager root _ _ fun world rooted =>
    rooted_same_objects root world _ rooted rfl rfl)

theorem nests_get {α : Type} (above : Above root 0 held) (appender : Address)
    (field : Log.LogAppender LogFormatter → α) :
    Safe root held (LogAppender.get appender field : Code yaml types (Option α)) fun _ => True :=
  nests_guarded held _ _ _ _ above (nests_look root _ _)

theorem nests_new (kind : AppenderKind) :
    Safe root held (LogAppender.new kind : Code yaml types Address) fun _ => True :=
  fun world rooted => ⟨rooted_same_objects root world _ rooted rfl rfl, rfl, trivial⟩

theorem nests_reopen (above : Above root 0 held) (appender : Address) :
    Safe root held (FileLogAppender.reopen appender : Code yaml types Unit) fun _ => True :=
  nests_guarded held _ _ _ _ above (nests_pure _ _ _ trivial)

theorem nests_log_appender (above : Above root 0 held) (level : Level) (time : UInt64) (appender : Address) :
    Safe root held (LogAppender.log level time appender : Code yaml types Unit) fun _ => True := by
  have write : Safe root held (.guarded (.appender appender) .exclusive (.pure ()) : Code yaml types Unit)
      fun _ => True := nests_guarded held _ _ _ _ above (nests_pure _ _ _ trivial)
  refine nests_then held _ _ _ (nests_look root held _) fun found => ?_
  split
  · exact nests_pure held () _ trivial
  · split
    · split
      · refine nests_then held _ _ _ ?_ fun _ => write
        refine nests_then held _ _ _ (nests_look root held _) fun due => ?_
        split
        · exact nests_then held _ _ _ (nests_reopen root held above appender) fun _ =>
            nests_modify held _ fun world rooted => ⟨rooted.own, rooted.there, rooted.falls⟩
        · exact nests_pure held () _ trivial
      · exact write
    · exact nests_pure held () _ trivial

end Appenders

section Loggers

variable (root : Address) (held : List Lock)

theorem below_logger (logger : Address) (above : Above root 2 held) : ∀ other ∈ held, rank root (.logger logger) < rank root other :=
  fun other member => Nat.lt_of_le_of_lt (rank_logger_le root logger) (above other member)

theorem above_logger (logger : Address) (above : Above root 2 held) : Above root 0 (.logger logger :: held) :=
  above_cons root 0 _ held (rank_logger_pos root logger) (above_le root 0 2 held (Nat.zero_le _) above)

-- From a logger that is not the root logger the way goes down to the root
-- logger, and there it ends.
theorem nests_log_within (level : Level) (time : UInt64) (depth : Nat) (logger : Address)
    (below : ∀ other ∈ held, rank root (.logger logger) < rank root other) :
    Safe root held (Logger.logWithin level time depth logger : Code yaml types Unit) fun _ => True := by
  induction depth generalizing logger held with
  | zero => exact nests_pure held () _ trivial
  | succ depth ih =>
      refine nests_then held _ _ _ (nests_look root held _) fun admitted => ?_
      split
      · have above : Above root 0 (.logger logger :: held) :=
          above_cons root 0 _ held (rank_logger_pos root logger) fun other member =>
            Nat.lt_trans (rank_logger_pos root logger) (below other member)
        refine nests_guarded held _ _ _ _ below ?_
        refine nests_bind _ _ _ (fun found => ∀ object, found = some object →
          object.root = if logger = root then none else some root) _ (nests_read _ _ _ fun world rooted object =>
            rooted.falls logger object) fun found falls => ?_
        split
        · exact nests_pure _ () _ trivial
        · rename_i object
          split
          · exact nests_for_each _ _ _ fun appender _ => nests_log_appender root _ above level time appender
          · have top := falls object rfl
            by_cases here : logger = root
            · rw [if_pos here] at top
              rw [top]
              exact nests_pure _ () _ trivial
            · rw [if_neg here] at top
              rw [top]
              refine ih _ root fun other member => ?_
              rcases List.mem_cons.mp member with rfl | old
              · simp [rank, here]
              · exact Nat.lt_of_le_of_lt (by simp [rank, here]) (below other old)
      · exact nests_pure held () _ trivial

theorem nests_log (logger : Address) (below : ∀ other ∈ held, rank root (.logger logger) < rank root other) (level : Level)
    (time : UInt64) : Safe root held (Logger.log logger level time : Code yaml types Unit) fun _ => True :=
  nests_then held _ _ _ (nests_look root held _) fun depth => nests_log_within root held level time depth logger below

theorem nests_locked {α : Type} (above : Above root 2 held) (logger : Address) (body : Code yaml types α) (post : α → Prop)
    (inner : Safe root (.logger logger :: held) body post) : Safe root held (Logger.locked logger body) post :=
  nests_guarded held _ _ _ _ (below_logger root held logger above) inner

theorem nests_add_appender (above : Above root 2 held) (logger appender : Address) :
    Safe root held (Logger.addAppender logger appender : Code yaml types Unit) fun _ => True := by
  have inside := above_logger root held logger above
  refine nests_locked root held above logger _ _ (nests_then _ _ _ _ ?_ fun _ =>
    nests_modify_logger root _ logger _ fun _ => rfl)
  refine nests_then _ _ _ _ (nests_get root _ inside appender _) fun formatter => ?_
  split
  · exact nests_pure _ () _ trivial
  · refine nests_then _ _ _ _ (nests_look root _ _) fun own => ?_
    exact nests_then _ _ _ _ (nests_set root _ inside appender _) fun _ => nests_set root _ inside appender _

theorem nests_set_formatter (above : Above root 2 held) (logger : Address) (formatter : Option LogFormatter) :
    Safe root held (Logger.setFormatter logger formatter : Code yaml types Unit) fun _ => True := by
  have inside := above_logger root held logger above
  refine nests_locked root held above logger _ _ (nests_then _ _ _ _ (nests_modify_logger root _ logger _ fun _ => rfl)
    fun _ => nests_then _ _ _ _ (nests_look root _ _) fun list => nests_for_each _ _ _ fun appender _ => ?_)
  refine nests_then _ _ _ _ (nests_get root _ inside appender _) fun own => ?_
  split
  · exact nests_then _ _ _ _ (nests_set root _ inside appender _) fun _ => nests_set root _ inside appender _
  · exact nests_pure _ () _ trivial

theorem nests_set_formatter_text (above : Above root 2 held) (logger : Address) (str : String) :
    Safe root held (Logger.setFormatterText logger str : Code yaml types Unit) fun _ => True := by
  rw [Logger.setFormatterText]
  split
  · exact nests_set_formatter root held above logger _
  · exact nests_pure held () _ trivial

-- delAppender, setLevel and clearAppender.
theorem nests_update (above : Above root 2 held) (logger : Address)
    (update : Log.Logger LogFormatter → Log.Logger LogFormatter) (kept : ∀ object, (update object).root = object.root) :
    Safe root held (Logger.locked logger (Logger.modify logger update) : Code yaml types Unit) fun _ => True :=
  nests_locked root held above logger _ _ (nests_modify_logger root _ logger update kept)

theorem nests_push_appenders (above : Above root 0 held) (list : List Address) (node : Entries) :
    Safe root held (Logger.pushAppenders list node : Code yaml types (Except Exception Entries)) fun _ => True := by
  induction list generalizing node with
  | nil => exact nests_pure held _ _ trivial
  | cons i rest ih =>
      refine nests_then held _ _ _ (nests_get root held above i _) fun text => ?_
      split
      · exact ih node
      · split
        · exact nests_pure held _ _ trivial
        · exact ih _

theorem nests_dump_logger (above : Above root 2 held) (logger : Address) :
    Safe root held (Logger.toYamlString logger : Code yaml types (Except Exception String)) fun _ => True := by
  refine nests_locked root held above logger _ _ (nests_then _ _ _ _ (nests_look root _ _) fun found => ?_)
  split
  · exact nests_pure _ _ _ trivial
  · refine nests_then _ _ _ _ (nests_push_appenders root _ (above_logger root held logger above) _ _) fun pushed => ?_
    split <;> exact nests_pure _ _ _ trivial

end Loggers

section Managers

variable (root : Address) (held : List Lock)

theorem nests_get_logger (name : String) :
    Safe root held (LoggerManager.getLogger name : Code yaml types Address) fun _ => True := by
  refine nests_then held _ _ _ (nests_look root held _) fun found => ?_
  split
  · exact nests_pure held _ _ trivial
  · exact fun world rooted => ⟨rooted_insert root world rooted name, rfl, trivial⟩

theorem nests_push_loggers (above : Above root 2 held) (list : List Address) (items : List Node) :
    Safe root held (LoggerManager.pushLoggers list items : Code yaml types (Except Exception (List Node))) fun _ => True := by
  induction list generalizing items with
  | nil => exact nests_pure held _ _ trivial
  | cons i rest ih =>
      refine nests_then held _ _ _ (nests_dump_logger root held above i) fun text => ?_
      split
      · exact nests_pure held _ _ trivial
      · split
        · exact nests_pure held _ _ trivial
        · exact ih _

theorem nests_dump_manager (above : Above root 3 held) (order : List Address → List Address) :
    Safe root held (LoggerManager.toYamlString order : Code yaml types (Except Exception String)) fun _ => True := by
  have inside : Above root 2 (.manager :: held) :=
    above_cons root 2 .manager held (Nat.lt_succ_self 2) (above_le root 2 3 held (by decide) above)
  refine nests_guarded held _ _ _ _ above (nests_then _ _ _ _ (nests_look root _ _) fun loggers => ?_)
  refine nests_then _ _ _ _ (nests_push_loggers root _ inside loggers []) fun pushed => ?_
  split <;> exact nests_pure _ _ _ trivial

theorem nests_log_root (above : Above root 1 held) (level : Level) :
    Safe root held (logRoot level : Code yaml types Unit) fun _ => True := by
  refine nests_bind held _ _ (fun logger => logger = root) _ (nests_read held _ _ fun world rooted => rooted.own)
    fun logger same => ?_
  refine nests_then held _ _ _ (nests_look root held _) fun admitted => ?_
  split
  · refine nests_then held _ _ _ (nests_look root held _) fun time => nests_log root held logger ?_ level time
    have lowest : rank root (.logger root) = 1 := if_pos rfl
    rw [same, lowest]
    exact above
  · exact nests_pure held () _ trivial

theorem nests_attach (above : Above root 2 held) (logger : Address) (a : LogAppenderDefine) (kind : AppenderKind) :
    Safe root held (LogIniter.attach logger a kind : Code yaml types Unit) fun _ => True := by
  have free := above_le root 0 2 held (by decide) above
  refine nests_then held _ _ _ (nests_new root held kind) fun ap => nests_then held _ _ _ (nests_set root held free ap _)
    fun _ => nests_then held _ _ _ ?_ fun _ => nests_add_appender root held above logger ap
  rw [LogIniter.setOwnFormatter]
  split
  · dsimp only
    split
    · exact nests_set root held free ap _
    · exact nests_pure held () _ trivial
  · exact nests_pure held () _ trivial

theorem nests_apply_define (above : Above root 2 held) (i : LogDefine) :
    Safe root held (LogIniter.applyDefine i : Code yaml types Unit) fun _ => True := by
  refine nests_then held _ _ _ (nests_get_logger root held i.name) fun logger => ?_
  refine nests_then held _ _ _ (nests_update root held above logger _ fun _ => rfl) fun _ => ?_
  refine nests_then held _ _ _ ?_ fun _ => nests_then held _ _ _ (nests_update root held above logger _ fun _ => rfl)
    fun _ => nests_for_each held _ _ fun a _ => ?_
  · rw [LogIniter.formatLogger]
    split
    · exact nests_set_formatter_text root held above logger i.formatter
    · exact nests_pure held () _ trivial
  · rw [LogIniter.addDefined]
    split
    · exact nests_attach root held above logger a _
    · split
      · exact nests_attach root held above logger a _
      · trivial

theorem nests_on_logs_changed (above : Above root 2 held) (old new : LogDefineSet) :
    Safe root held (LogIniter.onLogsChanged old new : Code yaml types Unit) fun _ => True := by
  refine nests_then held _ _ _ (nests_log_root root held (above_le root 1 2 held (by decide) above) .info) fun _ =>
    nests_then held _ _ _ (nests_for_each held _ _ fun i _ => ?_) fun _ => nests_for_each held _ _ fun i _ => ?_
  · rw [LogIniter.applyNew]
    split
    · exact nests_apply_define root held above i
    · split
      · exact nests_apply_define root held above i
      · exact nests_pure held () _ trivial
  · rw [LogIniter.removeOld]
    split
    · exact nests_pure held () _ trivial
    · exact nests_then held _ _ _ (nests_get_logger root held i.name) fun logger =>
        nests_then held _ _ _ (nests_update root held above logger _ fun _ => rfl) fun _ =>
          nests_update root held above logger _ fun _ => rfl

end Managers

section Configuration

variable (root : Address)

theorem above_none (bound : Nat) : Above root bound [] := fun _ member => absurd member List.not_mem_nil

theorem above_config (bound : Nat) (less : bound < 4) (lock : Lock) (config : rank root lock = 4) :
    Above root bound [lock] :=
  above_cons root bound lock [] (config ▸ less) (above_none root bound)

theorem nests_on_change (held : List Lock) (above : Above root 2 held) (tag : Option Ty)
    (old new : (typeOf yaml types tag).Val) :
    Safe root held (ConfigVar.onChange tag old new : Code yaml types Unit) fun _ => True := by
  cases tag with
  | none => exact nests_on_logs_changed root held above old new
  | some ty => exact nests_pure held () _ trivial

theorem nests_to_string (toStr : ∀ tag, (typeOf yaml types tag).Val → Except Exception String) (pointer : Address) :
    Safe root [] (ConfigVar.toString toStr pointer : Code yaml types Unit) fun _ => True := by
  refine nests_then [] _ _ _ (nests_guarded [] _ _ _ _ (above_none root _) (nests_look root _ _)) fun converted => ?_
  split
  · exact nests_log_root root [] (above_none root 1) .error
  · exact nests_pure [] () _ trivial

theorem nests_create (tag : Option Ty) (name : String) (defaultValue : (typeOf yaml types tag).Val) (description : String) :
    Safe root [.registry] (Config.create tag name defaultValue description : Code yaml types Unit) fun _ => True := by
  rw [Config.create]
  split
  · exact nests_modify _ _ fun world rooted => ⟨rooted.own, rooted.there, rooted.falls⟩
  · exact nests_log_root root _ (above_config root 1 (by decide) .registry rfl) .error

theorem nests_lookup_base (name : String) :
    Safe root [] (Config.lookupBase name : Code yaml types (Option Address)) fun _ => True :=
  nests_guarded [] _ _ _ _ (above_none root _) (nests_look root _ _)

variable [DecidableEq Ty]

theorem nests_modify_var (held : List Lock) (tag : Option Ty) (pointer : Address)
    (update : Variable (typeOf yaml types tag).Val → Variable (typeOf yaml types tag).Val) :
    Safe root held (ConfigVar.modify tag pointer update : Code yaml types Unit) fun _ => True := by
  refine nests_modify held _ fun world rooted => ?_
  split
  · exact rooted
  · exact ⟨rooted.own, rooted.there, rooted.falls⟩

theorem nests_set_value (tag : Option Ty) (pointer : Address) (new : (typeOf yaml types tag).Val) :
    Safe root [] (ConfigVar.setValue tag pointer new : Code yaml types Unit) fun _ => True := by
  have inside := above_config root 2 (by decide) (.configVar pointer) rfl
  refine nests_then [] _ _ _ (nests_guarded [] _ _ _ _ (above_none root _) ?_) fun changed => ?_
  · refine nests_then _ _ _ _ (nests_look root _ _) fun found => ?_
    split
    · exact nests_pure _ _ _ trivial
    · split
      · exact nests_pure _ _ _ trivial
      · exact nests_then _ _ _ _ (nests_for_each _ _ _ fun key _ => nests_on_change root _ inside tag _ new) fun _ =>
          nests_pure _ _ _ trivial
  · split
    · exact nests_guarded [] _ _ _ _ (above_none root _) (nests_modify_var root _ tag pointer _)
    · exact nests_pure [] () _ trivial

theorem nests_from_string (pointer : Address) (text : String) :
    Safe root [] (ConfigVar.fromString pointer text : Code yaml types Unit) fun _ => True := by
  refine nests_then [] _ _ _ (nests_look root [] _) fun found => ?_
  split
  · exact nests_pure [] () _ trivial
  · split
    · exact nests_log_root root [] (above_none root 1) .error
    · exact nests_set_value root _ pointer _

theorem nests_add_listener (pointer : Address) :
    Safe root [] (ConfigVar.addListener pointer : Code yaml types Unit) fun _ => True := by
  refine nests_guarded [] _ _ _ _ (above_none root _) (nests_then _ _ _ _ (nests_modify _ _ fun world rooted =>
    ⟨rooted.own, rooted.there, rooted.falls⟩) fun _ => ?_)
  exact nests_then _ _ _ _ (nests_look root _ _) fun key => nests_modify_var root _ none pointer _

theorem nests_lookup (tag : Option Ty) (name : String) (defaultValue : (typeOf yaml types tag).Val) (description : String) :
    Safe root [] (Config.lookup tag name defaultValue description : Code yaml types Unit) fun _ => True := by
  refine nests_guarded [] _ _ _ _ (above_none root _) (nests_then _ _ _ _ (nests_look root _ _) fun found => ?_)
  split
  · exact nests_create root tag name defaultValue description
  · refine nests_then _ _ _ _ (nests_log_root root _ (above_config root 1 (by decide) .registry rfl) .info) fun _ => ?_
    refine nests_then _ _ _ _ (nests_look root _ _) fun same => ?_
    split
    · exact nests_create root tag name defaultValue description
    · exact nests_pure _ () _ trivial

theorem nests_load_from_yaml (document : Node) :
    Safe root [] (Config.loadFromYaml document : Code yaml types Unit) fun _ => True := by
  refine nests_then [] _ _ _ (nests_for_each [] _ _ fun pfx _ => nests_log_root root [] (above_none root 1) .error)
    fun _ => nests_for_each [] _ _ fun item _ => ?_
  rw [Config.loadMember]
  split
  · exact nests_pure [] () _ trivial
  · refine nests_then [] _ _ _ (nests_lookup_base root _) fun found => ?_
    split
    · exact nests_pure [] () _ trivial
    · exact nests_from_string root _ _

end Configuration

section Program

theorem nests_ignore {α : Type} (root : Address) (code : Code yaml types α) (nests : Safe root [] code fun _ => True) :
    Safe root [] (ignore code) fun _ => True :=
  nests_then [] code _ _ nests fun _ => nests_pure [] () _ trivial

-- Before any call: the manager's constructor has run and nothing is configured.
def start (yaml : YamlCpp) (types : Ty → ConfigType) : World yaml types :=
  ⟨.new defaultFormatter, fun _ => 0, 0, .empty, ∅, 0⟩

theorem start_rooted : Rooted 0 (start yaml types) := by
  refine ⟨rfl, Nat.one_pos, fun logger object stored => ?_⟩
  have bound : logger < 1 := Heap.read_bound _ _ _ stored
  obtain rfl : logger = 0 := Nat.lt_one_iff.mp bound
  cases stored
  rfl

variable [DecidableEq Ty] (toStr : ∀ tag, (typeOf yaml types tag).Val → Except Exception String)

theorem nests_program (root : Address) (call : Call yaml types) : Safe root [] (program toStr call) fun _ => True := by
  have free := above_none root
  cases call with
  | passTime time => exact nests_modify [] _ fun world rooted => ⟨rooted.own, rooted.there, rooted.falls⟩
  | newAppender kind => exact nests_ignore root _ (nests_new root [] kind)
  | getLogger name => exact nests_ignore root _ (nests_get_logger root [] name)
  | dumpManager order => exact nests_ignore root _ (nests_dump_manager root [] (free 3) order)
  | log logger level time => exact nests_log root [] logger (free _) level time
  | addAppender logger appender => exact nests_add_appender root [] (free 2) logger appender
  | delAppender logger appender => exact nests_update root [] (free 2) logger _ fun _ => rfl
  | setFormatter logger formatter => exact nests_set_formatter root [] (free 2) logger formatter
  | setFormatterText logger str => exact nests_set_formatter_text root [] (free 2) logger str
  | getFormatter logger => exact nests_ignore root _ (nests_locked root [] (free 2) logger _ _ (nests_look root _ _))
  | setLevel logger level => exact nests_update root [] (free 2) logger _ fun _ => rfl
  | clearAppender logger => exact nests_update root [] (free 2) logger _ fun _ => rfl
  | dumpLogger logger => exact nests_ignore root _ (nests_dump_logger root [] (free 2) logger)
  | setAppenderFormatter appender formatter => exact nests_set root [] (free 0) appender _
  | getAppenderFormatter appender => exact nests_ignore root _ (nests_get root [] (free 0) appender _)
  | setAppenderLevel appender level => exact nests_set root [] (free 0) appender _
  | getAppenderLevel appender => exact nests_ignore root _ (nests_get root [] (free 0) appender _)
  | setHasFormatter appender value => exact nests_set root [] (free 0) appender _
  | getHasFormatter appender => exact nests_ignore root _ (nests_get root [] (free 0) appender _)
  | setHasLevel appender value => exact nests_set root [] (free 0) appender _
  | getHasLevel appender => exact nests_ignore root _ (nests_get root [] (free 0) appender _)
  | logAppender appender level time => exact nests_log_appender root [] (free 0) level time appender
  | reopen appender => exact nests_reopen root [] (free 0) appender
  | dumpAppender appender => exact nests_ignore root _ (nests_get root [] (free 0) appender _)
  | lookup tag name defaultValue description => exact nests_lookup root tag name defaultValue description
  | lookupExisting tag name => exact nests_ignore root _ (nests_guarded [] _ _ _ _ (free _) (nests_look root _ _))
  | lookupBase name => exact nests_ignore root _ (nests_lookup_base root name)
  | loadFromYaml document => exact nests_load_from_yaml root document
  | setValue tag pointer new => exact nests_set_value root tag pointer new
  | fromString pointer text => exact nests_from_string root pointer text
  | toString pointer => exact nests_to_string root toStr pointer
  | addListener pointer => exact nests_add_listener root pointer

-- No thread waits for what it holds, none waits in a circle, every further lock
-- ranks below the ones held, and so someone can always go on.
theorem deadlock_free (count : Nat) (schedule : List (Action (Call yaml types))) (final : State (World yaml types) Lock)
    (completed : Lib.run (step possible (program toStr)) (idle (start yaml types) count) schedule = some final) :
    (∀ thread ∈ final.threads, ∀ lock mode, thread.awaits = some (lock, mode) → ∀ taken ∈ thread.held, taken.1 ≠ lock) ∧
      (∀ index, ¬ Relation.TransGen (Waits final.threads) index index) ∧
      (∀ thread ∈ final.threads, ∀ lock mode, thread.awaits = some (lock, mode) →
        ∀ taken ∈ thread.held, rank 0 lock < rank 0 taken.1) ∧
      ∀ thread ∈ final.threads, thread.awaits ≠ none → ∃ current ∈ final.threads,
        (move final.world final.threads current).isSome ∨ current.prog = .halt := by
  have ordered := ordered_run (Rooted 0) (rank 0) possible (program toStr) (nests_program toStr 0) (start yaml types) count
    start_rooted schedule final completed
  have below := awaits_below (Rooted 0) (rank 0) final ordered
  refine ⟨fun thread member lock mode awaited taken inHeld same => ?_, no_wait_cycle (Rooted 0) (rank 0) final ordered,
    below, fun thread member waiting => ?_⟩
  · have less := below thread member lock mode awaited taken inHeld
    rw [same] at less
    exact Nat.lt_irrefl _ less
  · obtain ⟨⟨lock, mode⟩, awaited⟩ := Option.ne_none_iff_exists'.mp waiting
    exact some_thread_moves (Rooted 0) (rank 0) final ordered thread member lock mode awaited

def nullYaml : YamlCpp := LogDefine.documentYaml "null" .null

def nullText (tag : Option Empty) (_ : (typeOf nullYaml Empty.elim tag).Val) : Except Exception String := .ok "null"

def waitingCalls : List (Action (Call nullYaml (Empty.elim : Empty → ConfigType))) :=
  [.start 0 (.clearAppender 0), .move 0, .start 1 (.setLevel 0 .warn)]

theorem deadlock_free_waiting :
    ∃ final, Lib.run (step possible (program nullText)) (idle (start nullYaml Empty.elim) 2) waitingCalls = some final ∧
      Waits final.threads 1 0 ∧ ¬ Relation.TransGen (Waits final.threads) 1 1 := by
  have completed :
      Lib.run (step possible (program nullText)) (idle (start nullYaml Empty.elim) 2) waitingCalls = some _ := rfl
  refine ⟨_, completed, ?_, (deadlock_free nullText 2 waitingCalls _ completed).2.1 1⟩
  exact ⟨_, _, .logger 0, .exclusive, rfl, rfl, rfl, .inl ⟨.exclusive, List.mem_cons_self⟩⟩

end Program

end Sylar.Log.LockPrograms
