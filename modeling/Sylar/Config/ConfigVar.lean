import Mathlib.Data.List.Basic
import Sylar.Yaml.Node

set_option autoImplicit false

namespace Sylar.Config

open Yaml (Exception)

-- A change callback acts on the world outside the configuration. It may throw;
-- what it did to the world before throwing stays done.
abbrev OnChange (Val World : Type) := Val → Val → World → World × Option Exception

structure ConfigVar (Val World : Type) where
  name : String
  description : String
  val : Val
  cbs : Std.TreeMap Nat (OnChange Val World)

namespace ConfigVar

variable {Val World : Type}

-- ConfigVarBase lower-cases the name it is given.
def new (name : String) (defaultValue : Val) (description : String) : ConfigVar Val World where
  name := name.toLower
  description := description
  val := defaultValue
  cbs := ∅

-- The loop over m_cbs: an exception leaves it at the callback that threw.
def notify (old new : Val) : List (Nat × OnChange Val World) → World → World × Option Exception
  | [], world => (world, none)
  | (_, cb) :: rest, world =>
      match cb old new world with
      | (next, none) => notify old new rest next
      | (next, some thrown) => (next, some thrown)

def setValue [BEq Val] (var : ConfigVar Val World) (new : Val) (world : World) :
    ConfigVar Val World × World × Option Exception :=
  if var.val == new then (var, world, none)
  else
    match notify var.val new var.cbs.toList world with
    | (next, none) => ({ var with val := new }, next, none)
    | (next, some thrown) => (var, next, some thrown)

def fromString [BEq Val] (fromStr : String → Except Exception Val) (var : ConfigVar Val World) (text : String) (world : World) :
    ConfigVar Val World × World × Bool :=
  match fromStr text with
  | .error _ => (var, world, false)
  | .ok new =>
      match var.setValue new world with
      | (next, nextWorld, none) => (next, nextWorld, true)
      | (next, nextWorld, some _) => (next, nextWorld, false)

-- The counter is static in addListener, one for all variables of the type; it
-- is passed in and handed back. It is a uint64_t.
def addListener (var : ConfigVar Val World) (funId : Nat) (cb : OnChange Val World) :
    ConfigVar Val World × Nat :=
  let key := (funId + 1) % UInt64.size
  ({ var with cbs := var.cbs.insert key cb }, key)

@[simp] theorem set_value_name [BEq Val] (var : ConfigVar Val World) (new : Val) (world : World) :
    (var.setValue new world).1.name = var.name := by
  rw [setValue]
  split
  · rfl
  · split <;> rfl

@[simp] theorem set_value_cbs [BEq Val] (var : ConfigVar Val World) (new : Val) (world : World) :
    (var.setValue new world).1.cbs = var.cbs := by
  rw [setValue]
  split
  · rfl
  · split <;> rfl

theorem from_string_var [BEq Val] (fromStr : String → Except Exception Val) (var : ConfigVar Val World)
    (text : String) (world : World) :
    (var.fromString fromStr text world).1 =
      match fromStr text with
      | .error _ => var
      | .ok new => (var.setValue new world).1 := by
  rw [fromString]
  split
  · rfl
  · split <;> simp_all

@[simp] theorem from_string_name [BEq Val] (fromStr : String → Except Exception Val) (var : ConfigVar Val World)
    (text : String) (world : World) : (var.fromString fromStr text world).1.name = var.name := by
  rw [from_string_var]
  split <;> simp

@[simp] theorem from_string_cbs [BEq Val] (fromStr : String → Except Exception Val) (var : ConfigVar Val World)
    (text : String) (world : World) : (var.fromString fromStr text world).1.cbs = var.cbs := by
  rw [from_string_var]
  split <;> simp

def Quiet (var : ConfigVar Val World) : Prop :=
  ∀ entry ∈ var.cbs.toList, ∀ old new world, (entry.2 old new world).2 = none

theorem notify_quiet (old new : Val) (cbs : List (Nat × OnChange Val World)) (world : World)
    (quiet : ∀ entry ∈ cbs, ∀ old new world, (entry.2 old new world).2 = none) :
    (notify old new cbs world).2 = none := by
  induction cbs generalizing world with
  | nil => rfl
  | cons entry rest ih =>
      obtain ⟨key, cb⟩ := entry
      have silent := quiet (key, cb) (by simp) old new world
      have returned : cb old new world = ((cb old new world).1, none) := Prod.ext rfl silent
      rw [notify, returned]
      exact ih _ (fun later member => quiet later (by simp [member]))

-- What fromString leaves in a variable whose callbacks do not throw: it does
-- not depend on the world, and a text that does not convert changes nothing.
def assign [BEq Val] (fromStr : String → Except Exception Val) (current : Val) (text : String) : Val :=
  match fromStr text with
  | .error _ => current
  | .ok new => if current == new then current else new

theorem set_value_quiet [BEq Val] (var : ConfigVar Val World) (new : Val) (world : World) (quiet : var.Quiet) :
    (var.setValue new world).1.val = if var.val == new then var.val else new := by
  have silent := notify_quiet var.val new var.cbs.toList world quiet
  rw [setValue]
  split
  · rfl
  · split
    · rfl
    · rename_i thrown caught
      simp [caught] at silent

theorem from_string_quiet [BEq Val] (fromStr : String → Except Exception Val) (var : ConfigVar Val World)
    (text : String) (world : World) (quiet : var.Quiet) :
    (var.fromString fromStr text world).1.val = assign fromStr var.val text := by
  rw [from_string_var, assign]
  split
  · rfl
  · exact set_value_quiet var _ world quiet

end ConfigVar

end Sylar.Config
