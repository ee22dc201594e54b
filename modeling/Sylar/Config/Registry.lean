import Sylar.Config.ConfigVar
import Sylar.Lib.Heap

set_option autoImplicit false

namespace Sylar.Config

open Lib (Heap Address)
open Yaml (Exception Node YamlCpp)

-- What an instantiation ConfigVar<T> brings along: the values, their operator==
-- and LexicalCast<std::string, T>.
structure ConfigType where
  Val : Type
  beq : BEq Val
  fromStr : String → Except Exception Val

attribute [instance] ConfigType.beq

-- The variable behind a ConfigVarBase::ptr, with the type it was created at.
abbrev AnyVar {Ty : Type} (types : Ty → ConfigType) (World : Type) :=
  (ty : Ty) × ConfigVar (types ty).Val World

structure Registry {Ty : Type} (types : Ty → ConfigType) (World : Type) where
  vars : Heap (AnyVar types World)
  datas : Std.TreeMap String Address
  funId : Ty → Nat
  world : World

-- find_first_not_of over the accepted characters finds nothing.
def validName (name : String) : Bool :=
  name.toList.all fun c => "abcdefghijklmnopqrstuvwxyz._0123456789".toList.contains c

-- The decimal digits of boost::lexical_cast<int>: at least one, nothing else.
def decimal (digits : List Char) : Option Nat :=
  if digits.isEmpty then none
  else digits.foldlM (fun number c => if c.isDigit then some (10 * number + (c.toNat - '0'.toNat)) else none) 0

def lexicalCastInt (text : String) : Except Exception Int :=
  let number : Option Int :=
    match text.toList with
    | '-' :: digits => (decimal digits).map fun magnitude => -(magnitude : Int)
    | '+' :: digits => (decimal digits).map fun magnitude => (magnitude : Int)
    | digits => (decimal digits).map fun magnitude => (magnitude : Int)
  match number with
  | some value => if -2147483648 ≤ value ∧ value ≤ 2147483647 then .ok value else .error "bad lexical cast"
  | none => .error "bad lexical cast"

def intType : ConfigType where
  Val := Int
  beq := inferInstance
  fromStr := lexicalCastInt

theorem valid_name_append (first second : String) :
    validName (first ++ second) = (validName first && validName second) := by
  simp only [validName, String.toList_append, List.all_append]

theorem accepted_lower : ("abcdefghijklmnopqrstuvwxyz._0123456789".toList.all fun c => c.toLower == c) = true := by
  decide

theorem valid_name_lower (name : String) (valid : validName name) : name.toLower = name := by
  have mapped : name.toLower = name.map Char.toLower := rfl
  rw [mapped, ← String.toList_inj, String.toList_map]
  have unchanged : ∀ c ∈ name.toList, Char.toLower c = id c := by
    intro c member
    have accepted : c ∈ "abcdefghijklmnopqrstuvwxyz._0123456789".toList := by
      simpa using List.all_eq_true.mp valid c member
    simpa using List.all_eq_true.mp accepted_lower c accepted
  rw [List.map_congr_left unchanged, List.map_id]

theorem accepted_characters : ("abcdefghijklmnopqrstuvwxyz._0123456789".toList.all fun c =>
    decide (('a' ≤ c ∧ c ≤ 'z') ∨ ('0' ≤ c ∧ c ≤ '9') ∨ c = '.' ∨ c = '_')) = true := by
  decide

theorem valid_name_characters (name : String) (valid : validName name) :
    ∀ c ∈ name.toList, ('a' ≤ c ∧ c ≤ 'z') ∨ ('0' ≤ c ∧ c ≤ '9') ∨ c = '.' ∨ c = '_' := by
  intro c member
  have accepted : c ∈ "abcdefghijklmnopqrstuvwxyz._0123456789".toList := by
    simpa using List.all_eq_true.mp valid c member
  exact of_decide_eq_true (List.all_eq_true.mp accepted_characters c accepted)

namespace Registry

variable {Ty World : Type} {types : Ty → ConfigType}

def start (world : World) : Registry types World := ⟨Heap.empty, ∅, fun _ => 0, world⟩

def lookupBase (registry : Registry types World) (name : String) : Option Address :=
  registry.datas[name]?

-- dynamic_pointer_cast<ConfigVar<T>>: null unless the object is of that type.
def cast [DecidableEq Ty] (registry : Registry types World) (ty : Ty) (pointer : Address) : Option Address :=
  match registry.vars.read pointer with
  | some cell => if cell.1 = ty then some pointer else none
  | none => none

-- Lookup(name).
def lookupExisting [DecidableEq Ty] (registry : Registry types World) (ty : Ty) (name : String) : Option Address :=
  match registry.datas[name]? with
  | none => none
  | some pointer => registry.cast ty pointer

-- The part of Lookup(name, default, description) behind the existence check.
def create (registry : Registry types World) (ty : Ty) (name : String) (defaultValue : (types ty).Val)
    (description : String) : Registry types World × Except Exception (Option Address) :=
  if validName name then
    let pointer := registry.vars.size
    ({ registry with
        vars := registry.vars.alloc ⟨ty, ConfigVar.new name defaultValue description⟩
        datas := registry.datas.insert name pointer }, .ok (some pointer))
  else (registry, .error name)

-- Lookup(name, default, description): an existing entry of another type ends
-- the call, one of the same type is only logged.
def lookup [DecidableEq Ty] (registry : Registry types World) (ty : Ty) (name : String) (defaultValue : (types ty).Val)
    (description : String) : Registry types World × Except Exception (Option Address) :=
  match registry.datas[name]? with
  | some pointer =>
      match registry.cast ty pointer with
      | some _ => registry.create ty name defaultValue description
      | none => (registry, .ok none)
  | none => registry.create ty name defaultValue description

-- A member call goes through a pointer that some Lookup returned; an address
-- with no variable, or with one of another type, cannot be formed in the source.
def setValue [DecidableEq Ty] (registry : Registry types World) (ty : Ty) (pointer : Address) (new : (types ty).Val) :
    Registry types World × Option Exception :=
  match registry.vars.read pointer with
  | none => (registry, none)
  | some cell =>
      if same : ty = cell.1 then
        let result := cell.2.setValue (same ▸ new) registry.world
        ({ registry with
            vars := registry.vars.modify pointer fun _ => ⟨cell.1, result.1⟩
            world := result.2.1 }, result.2.2)
      else (registry, none)

def fromString (registry : Registry types World) (pointer : Address) (text : String) :
    Registry types World × Bool :=
  match registry.vars.read pointer with
  | none => (registry, false)
  | some cell =>
      let result := cell.2.fromString (types cell.1).fromStr text registry.world
      ({ registry with
          vars := registry.vars.modify pointer fun _ => ⟨cell.1, result.1⟩
          world := result.2.1 }, result.2.2)

def addListener [DecidableEq Ty] (registry : Registry types World) (ty : Ty) (pointer : Address)
    (cb : OnChange (types ty).Val World) : Registry types World × Nat :=
  match registry.vars.read pointer with
  | none => (registry, 0)
  | some cell =>
      if same : ty = cell.1 then
        let result := cell.2.addListener (registry.funId ty) (same ▸ cb)
        ({ registry with
            vars := registry.vars.modify pointer fun _ => ⟨cell.1, result.1⟩
            funId := fun other => if other = ty then result.2 else registry.funId other }, result.2)
      else (registry, 0)

def shapeAt (registry : Registry types World) (pointer : Address) : Option (Ty × String) :=
  (registry.vars.read pointer).map fun cell => (cell.1, cell.2.name)

def WellFormed (registry : Registry types World) : Prop :=
  ∀ name pointer, registry.datas[name]? = some pointer →
    validName name ∧ ∃ ty, registry.shapeAt pointer = some (ty, name)

def Keeps (before after : Registry types World) : Prop :=
  after.datas = before.datas ∧ ∀ pointer, after.shapeAt pointer = before.shapeAt pointer

theorem keeps_refl (registry : Registry types World) : Keeps registry registry := ⟨rfl, fun _ => rfl⟩

theorem keeps_trans (a b c : Registry types World) (ab : Keeps a b) (bc : Keeps b c) : Keeps a c :=
  ⟨bc.1.trans ab.1, fun pointer => (bc.2 pointer).trans (ab.2 pointer)⟩

theorem keeps_well_formed (before after : Registry types World) (keeps : Keeps before after)
    (wf : before.WellFormed) : after.WellFormed := by
  intro name pointer stored
  rw [keeps.1] at stored
  rw [keeps.2]
  exact wf name pointer stored

theorem shape_at_bound (registry : Registry types World) (pointer : Address) (shape : Ty × String)
    (present : registry.shapeAt pointer = some shape) : pointer < registry.vars.size := by
  obtain ⟨cell, read, -⟩ := Option.map_eq_some_iff.mp present
  exact Heap.read_bound registry.vars pointer cell read

theorem cast_shape [DecidableEq Ty] (registry : Registry types World) (ty : Ty) (pointer : Address) :
    registry.cast ty pointer = if (registry.shapeAt pointer).map Prod.fst = some ty then some pointer else none := by
  rw [cast, shapeAt]
  cases registry.vars.read pointer <;> simp

theorem well_formed_distinct (registry : Registry types World) (wf : registry.WellFormed) (a b : String)
    (pointer : Address) (left : registry.datas[a]? = some pointer) (right : registry.datas[b]? = some pointer) :
    a = b := by
  obtain ⟨_, tyA, shapeA⟩ := wf a pointer left
  obtain ⟨_, tyB, shapeB⟩ := wf b pointer right
  have same := Option.some.inj (shapeA.symm.trans shapeB)
  exact congrArg Prod.snd same

theorem replace_shape (registry : Registry types World) (pointer : Address) (cell : AnyVar types World)
    (var : ConfigVar (types cell.1).Val World) (read : registry.vars.read pointer = some cell)
    (named : var.name = cell.2.name) (other : Address) :
    ((registry.vars.modify pointer fun _ => ⟨cell.1, var⟩).read other).map (fun c => (c.1, c.2.name)) =
      registry.shapeAt other := by
  by_cases here : other = pointer
  · subst other
    simp [shapeAt, read, named]
  · rw [Heap.read_modify_elsewhere registry.vars pointer other _ here, shapeAt]

theorem set_value_keeps [DecidableEq Ty] (registry : Registry types World) (ty : Ty) (pointer : Address) (new : (types ty).Val) :
    Keeps registry (registry.setValue ty pointer new).1 := by
  rw [setValue]
  split
  · exact keeps_refl registry
  · rename_i cell read
    split
    · exact ⟨rfl, replace_shape registry pointer cell _ read (ConfigVar.set_value_name _ _ _)⟩
    · exact keeps_refl registry

theorem from_string_keeps (registry : Registry types World) (pointer : Address) (text : String) :
    Keeps registry (registry.fromString pointer text).1 := by
  rw [fromString]
  split
  · exact keeps_refl registry
  · rename_i cell read
    exact ⟨rfl, replace_shape registry pointer cell _ read (ConfigVar.from_string_name _ _ _ _)⟩

theorem add_listener_keeps [DecidableEq Ty] (registry : Registry types World) (ty : Ty) (pointer : Address)
    (cb : OnChange (types ty).Val World) : Keeps registry (registry.addListener ty pointer cb).1 := by
  rw [addListener]
  split
  · exact keeps_refl registry
  · rename_i cell read
    split
    · exact ⟨rfl, replace_shape registry pointer cell _ read rfl⟩
    · exact keeps_refl registry

theorem create_datas (registry : Registry types World) (ty : Ty) (name other : String)
    (defaultValue : (types ty).Val) (description : String) (valid : validName name) :
    (registry.create ty name defaultValue description).1.datas[other]? =
      if name = other then some registry.vars.size else registry.datas[other]? := by
  simp [create, valid, Std.TreeMap.getElem?_insert]

theorem create_shape_fresh (registry : Registry types World) (ty : Ty) (name : String)
    (defaultValue : (types ty).Val) (description : String) (valid : validName name) :
    (registry.create ty name defaultValue description).1.shapeAt registry.vars.size = some (ty, name) := by
  simp [create, valid, shapeAt, ConfigVar.new, valid_name_lower name valid]

theorem create_shape_old (registry : Registry types World) (ty : Ty) (name : String)
    (defaultValue : (types ty).Val) (description : String) (pointer : Address) (shape : Ty × String)
    (present : registry.shapeAt pointer = some shape) :
    (registry.create ty name defaultValue description).1.shapeAt pointer = some shape := by
  rw [create]
  split
  · rw [← present]
    exact congrArg _ (Heap.read_alloc_old registry.vars _ pointer (shape_at_bound registry pointer shape present))
  · exact present

theorem create_result (registry : Registry types World) (ty : Ty) (name : String) (defaultValue : (types ty).Val)
    (description : String) (valid : validName name) :
    (registry.create ty name defaultValue description).2 = .ok (some registry.vars.size) := by
  simp [create, valid]

theorem create_invalid (registry : Registry types World) (ty : Ty) (name : String) (defaultValue : (types ty).Val)
    (description : String) (invalid : ¬ validName name) :
    registry.create ty name defaultValue description = (registry, .error name) := by
  simp [create, invalid]

theorem create_well_formed (registry : Registry types World) (ty : Ty) (name : String)
    (defaultValue : (types ty).Val) (description : String) (wf : registry.WellFormed) :
    (registry.create ty name defaultValue description).1.WellFormed := by
  by_cases valid : validName name
  · intro other pointer stored
    rw [create_datas registry ty name other defaultValue description valid] at stored
    split at stored
    · rename_i same
      cases stored
      subst other
      exact ⟨valid, ty, create_shape_fresh registry ty name defaultValue description valid⟩
    · obtain ⟨otherValid, otherTy, shape⟩ := wf other pointer stored
      exact ⟨otherValid, otherTy, create_shape_old registry ty name defaultValue description pointer _ shape⟩
  · rw [create_invalid registry ty name defaultValue description valid]
    exact wf

theorem lookup_well_formed [DecidableEq Ty] (registry : Registry types World) (ty : Ty) (name : String)
    (defaultValue : (types ty).Val) (description : String) (wf : registry.WellFormed) :
    (registry.lookup ty name defaultValue description).1.WellFormed := by
  have created := create_well_formed registry ty name defaultValue description wf
  rw [lookup]
  split
  · split
    · exact created
    · exact wf
  · exact created

theorem start_well_formed (world : World) : (start world : Registry types World).WellFormed := by
  intro name pointer stored
  simp [start] at stored

end Registry

end Sylar.Config
