import Sylar.Config.LoadFromYaml
import Sylar.Lib.LockOrder
import Sylar.Log.GetLoggerRace
import Sylar.Log.LogDump
import Sylar.Log.Reconfigure

set_option autoImplicit false

namespace Sylar.Log.LockPrograms

open Config (ConfigType listAllMember memberName validName)
open Lib (Address Heap)
open Lib.LockOrder (Mode Prog)
open LoggerManager
open Reconfigure (admits passes)
open Yaml (Entries Exception Node YamlCpp)

-- Config::GetMutex(), the s_mutex of a variable, and the m_mutex of the manager,
-- of a logger and of an appender.
inductive Lock where
  | registry
  | configVar (pointer : Address)
  | manager
  | logger (logger : Address)
  | appender (appender : Address)
deriving DecidableEq, Repr

def logsType (yaml : YamlCpp) : ConfigType := ⟨LogDefineSet, inferInstance, LogDefineSet.decode yaml⟩

-- The type std::set<LogDefine> of "logs", or any other type of variable.
def typeOf {Ty : Type} (yaml : YamlCpp) (types : Ty → ConfigType) : Option Ty → ConfigType
  | none => logsType yaml
  | some ty => types ty

-- A ConfigVar whose listeners are all the callback of LogIniter; cbs has their keys.
structure Variable (Val : Type) where
  name : String
  description : String
  val : Val
  cbs : Std.TreeMap Nat Unit

-- What the threads share. Time is what time(0) returns; a FileLogAppender's
-- stream is left out, nothing that is locked depends on it.
structure World {Ty : Type} (yaml : YamlCpp) (types : Ty → ConfigType) where
  manager : Manager
  lastTime : Address → UInt64
  time : UInt64
  vars : Heap ((tag : Option Ty) × Variable (typeOf yaml types tag).Val)
  datas : Std.TreeMap String Address
  funId : Nat

variable {Ty : Type} {yaml : YamlCpp} {types : Ty → ConfigType}

abbrev Code (yaml : YamlCpp) (types : Ty → ConfigType) (α : Type) := Prog (World yaml types) Lock α

def onManager (update : Manager → Manager) : Code yaml types Unit :=
  .modify fun world => { world with manager := update world.manager }

namespace LogAppender

def set (appender : Address) (update : Log.LogAppender LogFormatter → Log.LogAppender LogFormatter) :
    Code yaml types Unit :=
  .guarded (.appender appender) .exclusive
    (onManager fun manager => { manager with appenders := manager.appenders.modify appender update })

def get {α : Type} (appender : Address) (field : Log.LogAppender LogFormatter → α) : Code yaml types (Option α) :=
  .guarded (.appender appender) .exclusive (.read fun world => (world.manager.appenders.read appender).map field)

def setFormatter (appender : Address) (formatter : Option LogFormatter) : Code yaml types Unit :=
  set appender fun ap => ap.setFormatter formatter

def getFormatter (appender : Address) : Code yaml types (Option (Option LogFormatter)) := get appender (·.formatter)

def setLevel (appender : Address) (level : Level) : Code yaml types Unit := set appender fun ap => ap.setLevel level

def getLevel (appender : Address) : Code yaml types (Option Level) := get appender (·.level)

def setHasFormatter (appender : Address) (value : Bool) : Code yaml types Unit :=
  set appender fun ap => ap.setHasFormatter value

def getHasFormatter (appender : Address) : Code yaml types (Option Bool) := get appender (·.hasFormatter)

def setHasLevel (appender : Address) (value : Bool) : Code yaml types Unit :=
  set appender fun ap => { ap with hasLevel := value }

def getHasLevel (appender : Address) : Code yaml types (Option Bool) := get appender (·.hasLevel)

def toYamlString (appender : Address) : Code yaml types (Option String) := get appender (·.toYamlString yaml)

def new (kind : AppenderKind) : Code yaml types Address :=
  .act (fun world => { world with manager.appenders := world.manager.appenders.alloc (.new kind) }) fun world =>
    .pure world.manager.appenders.size

end LogAppender

namespace FileLogAppender

def reopen (appender : Address) : Code yaml types Unit := .guarded (.appender appender) .exclusive (.pure ())

-- The way through log up to its lock.
def reopenWhenDue (appender : Address) (time : UInt64) : Code yaml types Unit := do
  if ← .read fun world => decide (world.lastTime appender + 3 ≤ time) then
    reopen appender
    .modify fun world => { world with lastTime := fun other => if other = appender then time else world.lastTime other }
  else .pure ()

def log (appender : Address) (time : UInt64) : Code yaml types Unit := do
  reopenWhenDue appender time
  .guarded (.appender appender) .exclusive (.pure ())

end FileLogAppender

namespace StdoutAppender

def log (appender : Address) : Code yaml types Unit := .guarded (.appender appender) .exclusive (.pure ())

end StdoutAppender

-- The virtual call. Both bodies begin with the check of m_level, outside the lock.
def LogAppender.log (level : Level) (time : UInt64) (appender : Address) : Code yaml types Unit := do
  match ← .read fun world => world.manager.appenders.read appender with
  | none => .pure ()
  | some ap =>
      if passes level ap.level then
        match ap.kind with
        | .file _ => FileLogAppender.log appender time
        | .stdout => StdoutAppender.log appender
      else .pure ()

namespace Logger

-- The depth bounds the way from root to root.
def logWithin (level : Level) (time : UInt64) : Nat → Address → Code yaml types Unit
  | 0, _ => .pure ()
  | depth + 1, logger => do
      if ← .read fun world => admits world.manager logger level then
        .guarded (.logger logger) .exclusive do
          match ← .read fun world => world.manager.objects.read logger with
          | none => .pure ()
          | some object =>
              if !object.appenders.isEmpty then .forEach (LogAppender.log level time) object.appenders
              else
                match object.root with
                | some root => logWithin level time depth root
                | none => .pure ()
      else .pure ()

def log (logger : Address) (level : Level) (time : UInt64) : Code yaml types Unit := do
  let depth ← .read fun world => world.manager.objects.size + 1
  logWithin level time depth logger

def modify (logger : Address) (update : Log.Logger LogFormatter → Log.Logger LogFormatter) : Code yaml types Unit :=
  onManager fun manager => manager.modifyLogger logger update

def locked {α : Type} (logger : Address) (body : Code yaml types α) : Code yaml types α :=
  .guarded (.logger logger) .exclusive body

def ownFormatter (logger : Address) : Code yaml types (Option LogFormatter) :=
  .read fun world => (world.manager.objects.read logger).bind fun object => object.formatter

def listed (logger : Address) : Code yaml types (List Address) :=
  .read fun world => ((world.manager.objects.read logger).map fun object => object.appenders).getD []

def adopt (logger appender : Address) : Code yaml types Unit := do
  match ← LogAppender.getFormatter appender with
  | some (some _) => .pure ()
  | _ =>
      let formatter ← ownFormatter logger
      LogAppender.setFormatter appender formatter
      LogAppender.setHasFormatter appender false

def addAppender (logger appender : Address) : Code yaml types Unit :=
  locked logger do
    adopt logger appender
    modify logger fun object => { object with appenders := object.appenders ++ [appender] }

def delAppender (logger appender : Address) : Code yaml types Unit :=
  locked logger (modify logger fun object => { object with appenders := object.appenders.erase appender })

def inherit (formatter : Option LogFormatter) (appender : Address) : Code yaml types Unit := do
  match ← LogAppender.getHasFormatter appender with
  | some false =>
      LogAppender.setFormatter appender formatter
      LogAppender.setHasFormatter appender false
  | _ => .pure ()

def setFormatter (logger : Address) (formatter : Option LogFormatter) : Code yaml types Unit :=
  locked logger do
    modify logger fun object => { object with formatter := formatter }
    let list ← listed logger
    .forEach (inherit formatter) list

def setFormatterText (logger : Address) (str : String) : Code yaml types Unit :=
  let fmt := LogFormatter.new str
  if !fmt.isError then setFormatter logger (some fmt) else .pure ()

def getFormatter (logger : Address) : Code yaml types (Option LogFormatter) := locked logger (ownFormatter logger)

def setLevel (logger : Address) (level : Level) : Code yaml types Unit :=
  locked logger (modify logger fun object => { object with level := level })

def clearAppender (logger : Address) : Code yaml types Unit :=
  locked logger (modify logger fun object => { object with appenders := [] })

-- The loop of toYamlString; an exception of YAML::Load leaves it.
def pushAppenders : List Address → Entries → Code yaml types (Except Exception Entries)
  | [], node => .pure (.ok node)
  | i :: rest, node => do
      match ← LogAppender.toYamlString i with
      | none => pushAppenders rest node
      | some text =>
          match yaml.load text with
          | .error thrown => .pure (.error thrown)
          | .ok item => pushAppenders rest (node.pushBack "appenders" item)

def toYamlString (logger : Address) : Code yaml types (Except Exception String) :=
  locked logger do
    match ← .read fun world => world.manager.objects.read logger with
    | none => .pure (.ok "")
    | some object =>
        match ← pushAppenders object.appenders object.fields with
        | .error thrown => .pure (.error thrown)
        | .ok node => .pure (.ok (yaml.emit node.toNode))

end Logger

namespace LoggerManager

def getRoot : Code yaml types Address := .read fun world => world.manager.root

-- No lock is taken here.
def getLogger (name : String) : Code yaml types Address := do
  match ← .read fun world => world.manager.loggers[name]? with
  | some logger => .pure logger
  | none =>
      .act (fun world => { world with manager := (GetLoggerRace.insertLogger defaultFormatter world.manager name).1 })
        fun world => .pure (GetLoggerRace.insertLogger defaultFormatter world.manager name).2

def pushLoggers : List Address → List Node → Code yaml types (Except Exception (List Node))
  | [], items => .pure (.ok items)
  | i :: rest, items => do
      match ← Logger.toYamlString i with
      | .error thrown => .pure (.error thrown)
      | .ok text =>
          match yaml.load text with
          | .error thrown => .pure (.error thrown)
          | .ok item => pushLoggers rest (items ++ [item])

-- The order is that of the unordered_map.
def toYamlString (order : List Address → List Address) : Code yaml types (Except Exception String) :=
  .guarded .manager .exclusive do
    let loggers ← .read fun world => order (world.manager.loggers.toList.map Prod.snd)
    match ← pushLoggers loggers [] with
    | .error thrown => .pure (.error thrown)
    | .ok items => .pure (.ok (yaml.emit (Log.LoggerManager.sequenceNode items)))

end LoggerManager

-- SYLAR_LOG_INFO(SYLAR_LOG_ROOT()) and the like: the level is checked here and
-- again in log.
def logRoot (level : Level) : Code yaml types Unit := do
  let root ← LoggerManager.getRoot
  if ← .read fun world => admits world.manager root level then
    let time ← .read fun world => world.time
    Logger.log root level time
  else .pure ()

namespace LogIniter

def setOwnFormatter (ap : Address) (text : String) : Code yaml types Unit :=
  if text ≠ "" then
    let fmt := LogFormatter.new text
    if !fmt.isError then LogAppender.setFormatter ap (some fmt) else .pure ()
  else .pure ()

def attach (logger : Address) (a : LogAppenderDefine) (kind : AppenderKind) : Code yaml types Unit := do
  let ap ← LogAppender.new kind
  LogAppender.setLevel ap a.level
  setOwnFormatter ap a.formatter
  Logger.addAppender logger ap

-- Without an object a method is called through a null pointer.
def addDefined (logger : Address) (a : LogAppenderDefine) : Code yaml types Unit :=
  if a.type = 1 then attach logger a (.file a.file)
  else if a.type = 2 then attach logger a .stdout
  else .halt

def formatLogger (logger : Address) (text : String) : Code yaml types Unit :=
  if text ≠ "" then Logger.setFormatterText logger text else .pure ()

def applyDefine (i : LogDefine) : Code yaml types Unit := do
  let logger ← LoggerManager.getLogger i.name
  Logger.setLevel logger i.level
  formatLogger logger i.formatter
  Logger.clearAppender logger
  .forEach (addDefined logger) i.appenders

def applyNew (old : LogDefineSet) (i : LogDefine) : Code yaml types Unit :=
  match old.find i with
  | none => applyDefine i
  | some it => if i ≠ it then applyDefine i else .pure ()

def removeOld (new : LogDefineSet) (i : LogDefine) : Code yaml types Unit :=
  match new.find i with
  | some _ => .pure ()
  | none => do
      let logger ← LoggerManager.getLogger i.name
      Logger.setLevel logger .unknow
      Logger.clearAppender logger

def onLogsChanged (old new : LogDefineSet) : Code yaml types Unit := do
  logRoot .info
  .forEach (applyNew old) new.defines
  .forEach (removeOld new) old.defines

end LogIniter

namespace ConfigVar

-- A call of the listener. Only a variable of type std::set<LogDefine> has it.
def onChange : ∀ tag : Option Ty, (typeOf yaml types tag).Val → (typeOf yaml types tag).Val → Code yaml types Unit
  | none, old, new => LogIniter.onLogsChanged old new
  | some _, _, _ => .pure ()

def toString (toStr : ∀ tag, (typeOf yaml types tag).Val → Except Exception String) (pointer : Address) :
    Code yaml types Unit := do
  match ← .guarded (.configVar pointer) .shared
      (.read fun world => (world.vars.read pointer).map fun cell => toStr cell.1 cell.2.val) with
  | some (.error _) => logRoot .error
  | _ => .pure ()

variable [DecidableEq Ty] (tag : Option Ty)

-- A member call goes through a pointer of the variable's own type.
def cast (pointer : Address) (world : World yaml types) : Option (Variable (typeOf yaml types tag).Val) :=
  (world.vars.read pointer).bind fun cell => if same : cell.1 = tag then some (same ▸ cell.2) else none

def modify (pointer : Address) (update : Variable (typeOf yaml types tag).Val → Variable (typeOf yaml types tag).Val) :
    Code yaml types Unit :=
  .modify fun world =>
    match cast tag pointer world with
    | none => world
    | some var => { world with vars := world.vars.modify pointer fun _ => ⟨tag, update var⟩ }

-- The read section of setValue; it tells whether the value is another.
def notify (pointer : Address) (new : (typeOf yaml types tag).Val) : Code yaml types Bool :=
  .guarded (.configVar pointer) .shared do
    match ← .read (cast tag pointer) with
    | none => .pure false
    | some var =>
        if var.val == new then .pure false
        else do
          .forEach (fun _ => onChange tag var.val new) var.cbs.toList
          .pure true

def setValue (pointer : Address) (new : (typeOf yaml types tag).Val) : Code yaml types Unit := do
  if ← notify tag pointer new then
    .guarded (.configVar pointer) .exclusive (modify tag pointer fun var => { var with val := new })
  else .pure ()

-- fromString is virtual. Its handler runs when the scopes in setValue are left.
def fromString (pointer : Address) (text : String) : Code yaml types Unit := do
  match ← .read fun world => (world.vars.read pointer).map Sigma.fst with
  | none => .pure ()
  | some tag =>
      match (typeOf yaml types tag).fromStr text with
      | .error _ => logRoot .error
      | .ok new => setValue tag pointer new

def addListener (pointer : Address) : Code yaml types Unit :=
  .guarded (.configVar pointer) .exclusive do
    .modify fun world => { world with funId := (world.funId + 1) % UInt64.size }
    let key ← .read fun world => world.funId
    modify (none : Option Ty) pointer fun var => { var with cbs := var.cbs.insert key () }

end ConfigVar

namespace Config

def lookupBase (name : String) : Code yaml types (Option Address) :=
  .guarded .registry .shared (.read fun world => world.datas[name]?)

def create (tag : Option Ty) (name : String) (defaultValue : (typeOf yaml types tag).Val) (description : String) :
    Code yaml types Unit :=
  if validName name then
    .modify fun world => { world with
      vars := world.vars.alloc ⟨tag, name.toLower, description, defaultValue, ∅⟩
      datas := world.datas.insert name world.vars.size }
  else logRoot .error

variable [DecidableEq Ty] (tag : Option Ty)

-- Lookup(name).
def lookupExisting (name : String) : Code yaml types (Option Address) :=
  .guarded .registry .shared (.read fun world =>
    world.datas[name]?.bind fun pointer => (ConfigVar.cast tag pointer world).map fun _ => pointer)

-- Lookup(name, default, description). It logs while it holds the write lock.
def lookup (name : String) (defaultValue : (typeOf yaml types tag).Val) (description : String) : Code yaml types Unit :=
  .guarded .registry .exclusive do
    match ← .read fun world => world.datas[name]? with
    | none => create tag name defaultValue description
    | some pointer =>
        logRoot .info
        if ← .read fun world => (ConfigVar.cast tag pointer world).isSome then create tag name defaultValue description
        else .pure ()

-- The prefixes that ListAllMember reports and passes over.
mutual

def rejected (pfx : String) (node : Node) : List String :=
  if validName pfx then
    match node with
    | .map entries => rejectedEntries pfx entries
    | _ => []
  else [pfx]
termination_by structural node

def rejectedEntries (pfx : String) : List (Node × Node) → List String
  | [] => []
  | (key, value) :: rest => rejected (memberName pfx key.scalarText) value ++ rejectedEntries pfx rest
termination_by structural entries => entries

end

def loadMember (item : String × Node) : Code yaml types Unit :=
  if item.1.isEmpty then .pure ()
  else do
    match ← lookupBase item.1.toLower with
    | none => .pure ()
    | some pointer => ConfigVar.fromString pointer (Sylar.Config.Registry.nodeText yaml item.2)

def loadFromYaml (root : Node) : Code yaml types Unit := do
  .forEach (fun _ => logRoot .error) (rejected "" root)
  .forEach loadMember (listAllMember "" root)

end Config

inductive Call (yaml : YamlCpp) (types : Ty → ConfigType) where
  | passTime (time : UInt64)
  | newAppender (kind : AppenderKind)
  | getLogger (name : String)
  | dumpManager (order : List Address → List Address)
  | log (logger : Address) (level : Level) (time : UInt64)
  | addAppender (logger appender : Address)
  | delAppender (logger appender : Address)
  | setFormatter (logger : Address) (formatter : Option LogFormatter)
  | setFormatterText (logger : Address) (str : String)
  | getFormatter (logger : Address)
  | setLevel (logger : Address) (level : Level)
  | clearAppender (logger : Address)
  | dumpLogger (logger : Address)
  | setAppenderFormatter (appender : Address) (formatter : Option LogFormatter)
  | getAppenderFormatter (appender : Address)
  | setAppenderLevel (appender : Address) (level : Level)
  | getAppenderLevel (appender : Address)
  | setHasFormatter (appender : Address) (value : Bool)
  | getHasFormatter (appender : Address)
  | setHasLevel (appender : Address) (value : Bool)
  | getHasLevel (appender : Address)
  | logAppender (appender : Address) (level : Level) (time : UInt64)
  | reopen (appender : Address)
  | dumpAppender (appender : Address)
  | lookup (tag : Option Ty) (name : String) (defaultValue : (typeOf yaml types tag).Val) (description : String)
  | lookupExisting (tag : Option Ty) (name : String)
  | lookupBase (name : String)
  | loadFromYaml (root : Node)
  | setValue (tag : Option Ty) (pointer : Address) (new : (typeOf yaml types tag).Val)
  | fromString (pointer : Address) (text : String)
  | toString (pointer : Address)
  | addListener (pointer : Address)

-- The result is not used: whatever the caller does with it, it calls next.
def ignore {α : Type} (code : Code yaml types α) : Code yaml types Unit := code.bind fun _ => .pure ()

def program [DecidableEq Ty] (toStr : ∀ tag, (typeOf yaml types tag).Val → Except Exception String) :
    Call yaml types → Code yaml types Unit
  | .passTime time => .modify fun world => { world with time := time }
  | .newAppender kind => ignore (LogAppender.new kind)
  | .getLogger name => ignore (LoggerManager.getLogger name)
  | .dumpManager order => ignore (LoggerManager.toYamlString order)
  | .log logger level time => Logger.log logger level time
  | .addAppender logger appender => Logger.addAppender logger appender
  | .delAppender logger appender => Logger.delAppender logger appender
  | .setFormatter logger formatter => Logger.setFormatter logger formatter
  | .setFormatterText logger str => Logger.setFormatterText logger str
  | .getFormatter logger => ignore (Logger.getFormatter logger)
  | .setLevel logger level => Logger.setLevel logger level
  | .clearAppender logger => Logger.clearAppender logger
  | .dumpLogger logger => ignore (Logger.toYamlString logger)
  | .setAppenderFormatter appender formatter => LogAppender.setFormatter appender formatter
  | .getAppenderFormatter appender => ignore (LogAppender.getFormatter appender)
  | .setAppenderLevel appender level => LogAppender.setLevel appender level
  | .getAppenderLevel appender => ignore (LogAppender.getLevel appender)
  | .setHasFormatter appender value => LogAppender.setHasFormatter appender value
  | .getHasFormatter appender => ignore (LogAppender.getHasFormatter appender)
  | .setHasLevel appender value => LogAppender.setHasLevel appender value
  | .getHasLevel appender => ignore (LogAppender.getHasLevel appender)
  | .logAppender appender level time => LogAppender.log level time appender
  | .reopen appender => FileLogAppender.reopen appender
  | .dumpAppender appender => ignore (LogAppender.toYamlString appender)
  | .lookup tag name defaultValue description => Config.lookup tag name defaultValue description
  | .lookupExisting tag name => ignore (Config.lookupExisting tag name)
  | .lookupBase name => ignore (Config.lookupBase name)
  | .loadFromYaml root => Config.loadFromYaml root
  | .setValue tag pointer new => ConfigVar.setValue tag pointer new
  | .fromString pointer text => ConfigVar.fromString pointer text
  | .toString pointer => ConfigVar.toString toStr pointer
  | .addListener pointer => ConfigVar.addListener pointer

-- The calls go to objects that are there: loggers and the root logger from the
-- manager, appenders and variables.
def possible (world : World yaml types) : Call yaml types → Bool
  | .log logger _ _ | .delAppender logger _ | .setFormatter logger _ | .setFormatterText logger _ | .getFormatter logger
  | .setLevel logger _ | .clearAppender logger | .dumpLogger logger => logger < world.manager.objects.size
  | .addAppender logger appender => logger < world.manager.objects.size && appender < world.manager.appenders.size
  | .setAppenderFormatter appender _ | .getAppenderFormatter appender | .setAppenderLevel appender _
  | .getAppenderLevel appender | .setHasFormatter appender _ | .getHasFormatter appender | .setHasLevel appender _
  | .getHasLevel appender | .logAppender appender _ _ | .dumpAppender appender => appender < world.manager.appenders.size
  | .reopen appender =>
      match world.manager.appenders.read appender with
      | some ⟨.file _, _, _, _, _⟩ => true
      | _ => false
  | .setValue _ pointer _ | .fromString pointer _ | .toString pointer | .addListener pointer => pointer < world.vars.size
  | _ => true

end Sylar.Log.LockPrograms
