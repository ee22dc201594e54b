import Mathlib.Data.List.Pairwise
import Sylar.Log.LogDefine
import Sylar.Log.LogFormatter

set_option autoImplicit false

namespace Sylar.Log

open Lib (Heap Address)

-- std::set<LogDefine>: operator< compares the names alone, so a name occurs once.
structure LogDefineSet where
  defines : List LogDefine
  sorted : defines.Pairwise fun first second => first.name < second.name
deriving DecidableEq

namespace LogDefineSet

def empty : LogDefineSet := ⟨[], .nil⟩

def find (set : LogDefineSet) (i : LogDefine) : Option LogDefine := set.defines.find? fun other => other.name == i.name

theorem names_distinct (set : LogDefineSet) : set.defines.Pairwise fun first second => first.name ≠ second.name := by
  apply set.sorted.imp
  intro first second less equal
  rw [equal] at less
  exact String.lt_irrefl _ less

theorem name_unique (set : LogDefineSet) (first second : LogDefine) (inFirst : first ∈ set.defines)
    (inSecond : second ∈ set.defines) (same : first.name = second.name) : first = second := by
  have symmetric : Std.Symm fun first second : LogDefine => first.name ≠ second.name := ⟨fun _ _ => Ne.symm⟩
  by_contra different
  exact set.names_distinct.forall inFirst inSecond different same

theorem find_some_iff (set : LogDefineSet) (i found : LogDefine) :
    set.find i = some found ↔ found ∈ set.defines ∧ found.name = i.name := by
  refine ⟨fun hit => ⟨List.mem_of_find?_eq_some hit, by simpa using List.find?_some hit⟩, ?_⟩
  rintro ⟨member, same⟩
  cases hit : set.find i with
  | none =>
      have missed := List.find?_eq_none.mp hit found member
      simp [same] at missed
  | some other =>
      have name : other.name = i.name := by simpa using List.find?_some hit
      rw [set.name_unique other found (List.mem_of_find?_eq_some hit) member (name.trans same.symm)]

theorem find_none_iff (set : LogDefineSet) (i : LogDefine) :
    set.find i = none ↔ ∀ other ∈ set.defines, other.name ≠ i.name := by
  simp [find]

end LogDefineSet

abbrev Manager := LoggerManager LogFormatter

def defaultPattern : String := "%d{%Y-%m-%d %H:%M:%S}%T%t%T%F%T[%p]%T[%c]%T%f:%l%T%m%n"

-- The format Logger's constructor installs.
def defaultFormatter : LogFormatter := LogFormatter.new defaultPattern

namespace LogIniter

-- Logger::setFormatter(const std::string&).
def setFormatterText (manager : Manager) (logger : Address) (str : String) : Manager :=
  let fmt := LogFormatter.new str
  if !fmt.isError then manager.setFormatter logger (some fmt) else manager

-- The appender a definition asks for; no type but 1 and 2 makes an object.
def newAppender (a : LogAppenderDefine) : Option (LogAppender LogFormatter) :=
  let ap : Option (LogAppender LogFormatter) :=
    if a.type = 1 then some (.new (.file a.file))
    else if a.type = 2 then some (.new .stdout)
    else none
  ap.map fun ap =>
    let leveled := ap.setLevel a.level
    if a.formatter ≠ "" then
      let fmt := LogFormatter.new a.formatter
      if !fmt.isError then leveled.setFormatter (some fmt) else leveled
    else leveled

-- One round of the loop over i.appenders. Without an object the code calls a
-- method through a null pointer; that run is none.
def addDefined (logger : Address) (manager : Manager) (a : LogAppenderDefine) : Option Manager :=
  (newAppender a).map fun ap =>
    { manager with appenders := manager.appenders.alloc ap }.addAppender logger manager.appenders.size

def prepare (manager : Manager) (logger : Address) (i : LogDefine) : Manager :=
  let leveled := manager.setLevel logger i.level
  let formatted := if i.formatter ≠ "" then setFormatterText leveled logger i.formatter else leveled
  formatted.clearAppender logger

def applyDefine (manager : Manager) (i : LogDefine) : Option Manager :=
  let (named, logger) := manager.getLogger defaultFormatter i.name
  i.appenders.foldlM (addDefined logger) (prepare named logger i)

-- The loop over new_val passes over a definition that is in old_val unchanged.
def applyNew (old : LogDefineSet) (manager : Manager) (i : LogDefine) : Option Manager :=
  match old.find i with
  | none => applyDefine manager i
  | some it => if i ≠ it then applyDefine manager i else some manager

-- The loop over old_val; level 0 is UNKNOW.
def removeOld (new : LogDefineSet) (manager : Manager) (i : LogDefine) : Manager :=
  match new.find i with
  | some _ => manager
  | none =>
      let (named, logger) := manager.getLogger defaultFormatter i.name
      (named.setLevel logger .unknow).clearAppender logger

def onLogsChanged (old new : LogDefineSet) (manager : Manager) : Option Manager :=
  (new.defines.foldlM (applyNew old) manager).map fun applied => old.defines.foldl (removeOld new) applied

end LogIniter

end Sylar.Log
