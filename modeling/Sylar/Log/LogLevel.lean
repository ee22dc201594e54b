import Mathlib.Data.List.Basic

set_option autoImplicit false

namespace Sylar.Log

-- LogLevel::Level, UNKNOW = 0 to FATAL = 5.
inductive Level where
  | unknow
  | debug
  | info
  | warn
  | error
  | fatal
deriving DecidableEq, Repr

namespace Level

def toNat : Level → Nat
  | .unknow => 0
  | .debug => 1
  | .info => 2
  | .warn => 3
  | .error => 4
  | .fatal => 5

def toString : Level → String
  | .debug => "DEBUG"
  | .info => "INFO"
  | .warn => "WARN"
  | .error => "ERROR"
  | .fatal => "FATAL"
  | .unknow => "UNKNOW"

def fromString (level : String) : Level :=
  if level = "debug" then .debug
  else if level = "info" then .info
  else if level = "warn" then .warn
  else if level = "error" then .error
  else if level = "fatal" then .fatal
  else if level = "DEBUG" then .debug
  else if level = "INFO" then .info
  else if level = "WARN" then .warn
  else if level = "ERROR" then .error
  else if level = "FATAL" then .fatal
  else .unknow

@[simp] theorem from_string_to_string (level : Level) : fromString level.toString = level := by
  cases level <;> rfl

@[simp] theorem from_string_empty : fromString "" = .unknow := rfl

end Level

end Sylar.Log
