import Sylar.Lib.Heap
import Sylar.Log.LogLevel

set_option autoImplicit false

namespace Sylar.Log

open Lib (Heap Address)

-- The code only stores, copies and null-checks LogFormatter::ptr here, so the
-- handle type is left open: an object identity and a value both fit.
variable {Formatter : Type}

structure LogEvent where
  file : String
  line : Int
  eplase : Nat
  threadId : Nat
  fiberId : Nat
  time : Nat
  logger : Address
  level : Level
  content : String

-- Which subclass of LogAppender an object is, with the name a file appender has.
inductive AppenderKind where
  | stdout
  | file (filename : String)
deriving DecidableEq, Repr

structure LogAppender (Formatter : Type) where
  kind : AppenderKind
  level : Level
  formatter : Option Formatter
  hasFormatter : Bool
  hasLevel : Bool
deriving DecidableEq, Repr

namespace LogAppender

def new (kind : AppenderKind) : LogAppender Formatter := ⟨kind, .debug, none, false, false⟩

def setFormatter (appender : LogAppender Formatter) (formatter : Option Formatter) : LogAppender Formatter :=
  { appender with formatter := formatter, hasFormatter := formatter.isSome }

def setHasFormatter (appender : LogAppender Formatter) (value : Bool) : LogAppender Formatter :=
  { appender with hasFormatter := value }

def setLevel (appender : LogAppender Formatter) (level : Level) : LogAppender Formatter :=
  { appender with level := level, hasLevel := true }

-- The loop body of Logger::setFormatter.
def inherit (formatter : Option Formatter) (appender : LogAppender Formatter) : LogAppender Formatter :=
  if appender.hasFormatter then appender else (appender.setFormatter formatter).setHasFormatter false

theorem inherit_idempotent (formatter : Option Formatter) (appender : LogAppender Formatter) :
    inherit formatter (inherit formatter appender) = inherit formatter appender := by
  by_cases own : appender.hasFormatter <;> simp [inherit, own, setFormatter, setHasFormatter]

-- The formatter check of Logger::addAppender.
def adopt (formatter : Option Formatter) (appender : LogAppender Formatter) : LogAppender Formatter :=
  if appender.formatter.isSome then appender else (appender.setFormatter formatter).setHasFormatter false

end LogAppender

structure Logger (Formatter : Type) where
  name : String
  level : Level
  appenders : List Address
  formatter : Option Formatter
  root : Option Address
deriving DecidableEq, Repr

def Logger.new (default : Formatter) (name : String) : Logger Formatter := ⟨name, .debug, [], some default, none⟩

structure LoggerManager (Formatter : Type) where
  appenders : Heap (LogAppender Formatter)
  objects : Heap (Logger Formatter)
  loggers : Std.TreeMap String Address
  root : Address

namespace LoggerManager

def modifyLogger (manager : LoggerManager Formatter) (logger : Address) (update : Logger Formatter → Logger Formatter) :
    LoggerManager Formatter :=
  { manager with objects := manager.objects.modify logger update }

def setLevel (manager : LoggerManager Formatter) (logger : Address) (level : Level) : LoggerManager Formatter :=
  manager.modifyLogger logger fun object => { object with level := level }

def clearAppender (manager : LoggerManager Formatter) (logger : Address) : LoggerManager Formatter :=
  manager.modifyLogger logger fun object => { object with appenders := [] }

-- Logger::setFormatter(LogFormatter::ptr).
def setFormatter (manager : LoggerManager Formatter) (logger : Address) (formatter : Option Formatter) :
    LoggerManager Formatter :=
  match manager.objects.read logger with
  | none => manager
  | some object =>
      { manager with
        objects := manager.objects.modify logger fun current => { current with formatter := formatter }
        appenders := manager.appenders.modifyAll object.appenders (LogAppender.inherit formatter) }

def addAppender (manager : LoggerManager Formatter) (logger appender : Address) : LoggerManager Formatter :=
  match manager.objects.read logger with
  | none => manager
  | some object =>
      { manager with
        appenders := manager.appenders.modify appender (LogAppender.adopt object.formatter)
        objects := manager.objects.modify logger fun current =>
          { current with appenders := current.appenders ++ [appender] } }

-- std::find and erase take out one entry of the list.
def delAppender (manager : LoggerManager Formatter) (logger appender : Address) : LoggerManager Formatter :=
  manager.modifyLogger logger fun object => { object with appenders := object.appenders.erase appender }

-- LoggerManager::LoggerManager, with the format of Logger's own constructor.
def new (default : Formatter) : LoggerManager Formatter :=
  let stdout := (Heap.empty (α := LogAppender Formatter)).alloc (LogAppender.new .stdout)
  let root := (Heap.empty (α := Logger Formatter)).alloc (Logger.new default "root")
  let manager : LoggerManager Formatter := ⟨stdout, root, ∅, 0⟩
  let attached := manager.addAppender 0 0
  { attached with loggers := attached.loggers.insert "root" 0 }

def getLogger (default : Formatter) (manager : LoggerManager Formatter) (name : String) :
    LoggerManager Formatter × Address :=
  match manager.loggers[name]? with
  | some logger => (manager, logger)
  | none =>
      let logger := manager.objects.size
      ({ manager with
          objects := manager.objects.alloc { Logger.new default name with root := some manager.root }
          loggers := manager.loggers.insert name logger }, logger)

-- A name that is taken keeps its logger; the pushed one is left as it is.
def pushLogger (manager : LoggerManager Formatter) (str : String) (logger : Address) : LoggerManager Formatter :=
  match manager.loggers[str]? with
  | none => { manager with loggers := manager.loggers.insert str logger }
  | some _ => manager

def eraseLogger (manager : LoggerManager Formatter) (str : String) : LoggerManager Formatter :=
  { manager with loggers := manager.loggers.erase str }

end LoggerManager

end Sylar.Log
