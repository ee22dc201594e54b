import Sylar.Config.LoadFromYaml
import Sylar.Lib.Runs

set_option autoImplicit false

namespace Sylar.Config

open Lib (Heap Address Along)
open Yaml (Exception Node YamlCpp)

namespace Registry

variable {Ty World : Type} {types : Ty → ConfigType}

variable [DecidableEq Ty]

theorem lookup_existing_iff (registry : Registry types World) (ty : Ty) (name : String) (pointer : Address) :
    registry.lookupExisting ty name = some pointer ↔
      registry.datas[name]? = some pointer ∧ (registry.shapeAt pointer).map Prod.fst = some ty := by
  rw [lookupExisting]
  cases stored : registry.datas[name]? with
  | none => simp
  | some found =>
      simp only [cast_shape]
      split
      · rename_i typed
        constructor
        · intro same
          cases same
          exact ⟨rfl, typed⟩
        · intro same
          exact same.1
      · rename_i typed
        simp only [reduceCtorEq, Option.some.injEq, false_iff, not_and]
        intro same
        subst same
        exact typed

theorem lookup_creates (registry : Registry types World) (ty : Ty) (name : String) (defaultValue : (types ty).Val)
    (description : String) (free : registry.datas[name]? = none ∨ ∃ pointer, registry.lookupExisting ty name = some pointer) :
    registry.lookup ty name defaultValue description = registry.create ty name defaultValue description := by
  rw [lookup]
  rcases free with none | ⟨pointer, existing⟩
  · rw [none]
  · obtain ⟨stored, typed⟩ := (lookup_existing_iff registry ty name pointer).mp existing
    simp only [stored, cast_shape, typed, if_pos]

theorem lookup_refused (registry : Registry types World) (ty : Ty) (name : String) (defaultValue : (types ty).Val)
    (description : String) (pointer : Address) (stored : registry.datas[name]? = some pointer)
    (other : registry.lookupExisting ty name = none) :
    registry.lookup ty name defaultValue description = (registry, .ok none) := by
  have uncast : registry.cast ty pointer = none := by simpa only [lookupExisting, stored] using other
  simp only [lookup, stored, uncast]

def typeAt (registry : Registry types World) (name : String) : Option Ty :=
  registry.datas[name]?.bind fun pointer => (registry.shapeAt pointer).map Prod.fst

-- Every entry is spelled in the accepted characters and holds a variable that
-- goes by the name of the entry.
def EntriesNamed (registry : Registry types World) : Prop :=
  ∀ name pointer, registry.datas[name]? = some pointer →
    (∀ c ∈ name.toList, ('a' ≤ c ∧ c ≤ 'z') ∨ ('0' ≤ c ∧ c ≤ '9') ∨ c = '.' ∨ c = '_') ∧
      ∃ ty, registry.shapeAt pointer = some (ty, name)

omit [DecidableEq Ty] in
theorem well_formed_entries_named (registry : Registry types World) (wf : registry.WellFormed) :
    registry.EntriesNamed := by
  intro name pointer stored
  obtain ⟨valid, shape⟩ := wf name pointer stored
  exact ⟨valid_name_characters name valid, shape⟩

omit [DecidableEq Ty] in
theorem keeps_type_at (before after : Registry types World) (keeps : Keeps before after) (name : String) :
    after.typeAt name = before.typeAt name := by
  simp only [typeAt, keeps.1, keeps.2]

omit [DecidableEq Ty] in
theorem create_type_at (registry : Registry types World) (wf : registry.WellFormed) (ty : Ty) (name other : String)
    (defaultValue : (types ty).Val) (description : String) (valid : validName name) :
    (registry.create ty name defaultValue description).1.typeAt other =
      if name = other then some ty else registry.typeAt other := by
  rw [typeAt, create_datas registry ty name other defaultValue description valid]
  split
  · rw [Option.bind_some, create_shape_fresh registry ty name defaultValue description valid]
    rfl
  · rw [typeAt]
    cases stored : registry.datas[other]? with
    | none => rfl
    | some pointer =>
        obtain ⟨-, otherTy, shape⟩ := wf other pointer stored
        simp only [Option.bind_some, shape,
          create_shape_old registry ty name defaultValue description pointer _ shape]

-- A Lookup that hands out no pointer, whether it returns null or throws.
theorem lookup_without_pointer (registry after : Registry types World) (ty : Ty) (name : String)
    (defaultValue : (types ty).Val) (description : String) (outcome : Except Exception (Option Address))
    (called : registry.lookup ty name defaultValue description = (after, outcome))
    (nothing : ∀ pointer, outcome ≠ .ok (some pointer)) : after = registry := by
  by_cases free : registry.datas[name]? = none ∨ ∃ pointer, registry.lookupExisting ty name = some pointer
  · rw [lookup_creates registry ty name defaultValue description free] at called
    by_cases valid : validName name
    · have result := create_result registry ty name defaultValue description valid
      rw [called] at result
      exact absurd result (nothing _)
    · rw [create_invalid registry ty name defaultValue description valid] at called
      exact (congrArg Prod.fst called).symm
  · rw [not_or] at free
    obtain ⟨pointer, stored⟩ := Option.ne_none_iff_exists'.mp free.1
    have other : registry.lookupExisting ty name = none := by
      by_contra present
      exact free.2 (Option.ne_none_iff_exists'.mp present)
    rw [lookup_refused registry ty name defaultValue description pointer stored other] at called
    exact (congrArg Prod.fst called).symm

end Registry

inductive Call {Ty : Type} (types : Ty → ConfigType) (World : Type) where
  | lookup (ty : Ty) (name : String) (defaultValue : (types ty).Val) (description : String)
  | lookupExisting (ty : Ty) (name : String)
  | loadFromYaml (root : Node)
  | setValue (ty : Ty) (pointer : Address) (new : (types ty).Val)
  | addListener (ty : Ty) (pointer : Address) (cb : OnChange (types ty).Val World)

-- The configuration together with every non-null pointer that a Lookup has
-- returned so far, under the name and the type it was asked for.
structure LookupHistory {Ty : Type} (types : Ty → ConfigType) (World : Type) where
  registry : Registry types World
  returned : List (String × Ty × Address)

namespace LookupHistory

variable {Ty World : Type} {types : Ty → ConfigType}

def start (world : World) : LookupHistory types World := ⟨Registry.start world, []⟩

def note (returned : List (String × Ty × Address)) (name : String) (ty : Ty) :
    Option Address → List (String × Ty × Address)
  | none => returned
  | some pointer => (name, ty, pointer) :: returned

def OneVariable (history : LookupHistory types World) : Prop :=
  ∀ name ty a b, (name, ty, a) ∈ history.returned → (name, ty, b) ∈ history.returned →
    a = b ∧ history.registry.datas[name]? = some a

structure Recorded (history : LookupHistory types World) : Prop where
  wellFormed : history.registry.WellFormed
  entries : ∀ name pointer, history.registry.datas[name]? = some pointer →
    ∃ ty, history.registry.shapeAt pointer = some (ty, name) ∧ (name, ty, pointer) ∈ history.returned
  pointers : ∀ name ty pointer, (name, ty, pointer) ∈ history.returned →
    history.registry.shapeAt pointer = some (ty, name)

theorem start_recorded (world : World) : (start world : LookupHistory types World).Recorded where
  wellFormed := Registry.start_well_formed world
  entries := by
    intro name pointer stored
    simp [start, Registry.start] at stored
  pointers := by
    intro name ty pointer member
    simp [start] at member

-- Under the guard the returned pointers are the stored ones, which is more than
-- that they agree: it is what a later Lookup compares with.
def AllStored (history : LookupHistory types World) : Prop :=
  ∀ name ty pointer, (name, ty, pointer) ∈ history.returned → history.registry.datas[name]? = some pointer

theorem all_stored_one_variable (history : LookupHistory types World) (stored : history.AllStored) :
    history.OneVariable := by
  intro name ty a b left right
  have storedA := stored name ty a left
  exact ⟨Option.some.inj (storedA.symm.trans (stored name ty b right)), storedA⟩

def Split (history : LookupHistory types World) : Prop :=
  ∃ name ty a b, (name, ty, a) ∈ history.returned ∧ (name, ty, b) ∈ history.returned ∧ a ≠ b

theorem split_not_one_variable (history : LookupHistory types World) (divided : history.Split) :
    ¬ history.OneVariable := by
  obtain ⟨name, ty, a, b, left, right, different⟩ := divided
  exact fun one => different (one name ty a b left right).1

variable [DecidableEq Ty]

def perform (yaml : YamlCpp) (history : LookupHistory types World) : Call types World → LookupHistory types World
  | .lookup ty name defaultValue description =>
      let result := history.registry.lookup ty name defaultValue description
      match result.2 with
      | .ok pointer => ⟨result.1, note history.returned name ty pointer⟩
      | .error _ => ⟨result.1, history.returned⟩
  | .lookupExisting ty name =>
      { history with returned := note history.returned name ty (history.registry.lookupExisting ty name) }
  | .loadFromYaml root => { history with registry := history.registry.loadFromYaml yaml root }
  | .setValue ty pointer new => { history with registry := (history.registry.setValue ty pointer new).1 }
  | .addListener ty pointer cb => { history with registry := (history.registry.addListener ty pointer cb).1 }

def Reregisters (history : LookupHistory types World) : Call types World → Prop
  | .lookup ty name _ _ => ∃ pointer, history.registry.lookupExisting ty name = some pointer
  | _ => False

theorem perform_creates (yaml : YamlCpp) (history : LookupHistory types World) (ty : Ty) (name : String)
    (defaultValue : (types ty).Val) (description : String) (valid : validName name)
    (free : history.registry.datas[name]? = none ∨ ∃ pointer, history.registry.lookupExisting ty name = some pointer) :
    history.perform yaml (.lookup ty name defaultValue description) =
      ⟨(history.registry.create ty name defaultValue description).1,
        (name, ty, history.registry.vars.size) :: history.returned⟩ := by
  simp only [perform, Registry.lookup_creates history.registry ty name defaultValue description free,
    Registry.create_result history.registry ty name defaultValue description valid, note]

theorem perform_cases (yaml : YamlCpp) (history : LookupHistory types World) (call : Call types World) :
    (∃ after, Registry.Keeps history.registry after ∧ history.perform yaml call = ⟨after, history.returned⟩) ∨
    (∃ ty name pointer, history.registry.lookupExisting ty name = some pointer ∧
      history.perform yaml call = ⟨history.registry, (name, ty, pointer) :: history.returned⟩) ∨
    (∃ ty name defaultValue description, call = .lookup ty name defaultValue description ∧ validName name ∧
      (history.registry.datas[name]? = none ∨ history.Reregisters call) ∧
      history.perform yaml call =
        ⟨(history.registry.create ty name defaultValue description).1,
          (name, ty, history.registry.vars.size) :: history.returned⟩) := by
  cases call with
  | lookup ty name defaultValue description =>
      by_cases free : history.registry.datas[name]? = none ∨
          ∃ pointer, history.registry.lookupExisting ty name = some pointer
      · by_cases valid : validName name
        · exact .inr (.inr ⟨ty, name, defaultValue, description, rfl, valid, free,
            perform_creates yaml history ty name defaultValue description valid free⟩)
        · refine .inl ⟨history.registry, Registry.keeps_refl _, ?_⟩
          simp only [perform, Registry.lookup_creates history.registry ty name defaultValue description free,
            Registry.create_invalid history.registry ty name defaultValue description valid]
      · rw [not_or] at free
        obtain ⟨pointer, stored⟩ := Option.ne_none_iff_exists'.mp free.1
        have other : history.registry.lookupExisting ty name = none := by
          by_contra present
          exact free.2 (Option.ne_none_iff_exists'.mp present)
        refine .inl ⟨history.registry, Registry.keeps_refl _, ?_⟩
        simp only [perform,
          Registry.lookup_refused history.registry ty name defaultValue description pointer stored other, note]
  | lookupExisting ty name =>
      cases existing : history.registry.lookupExisting ty name with
      | none =>
          refine .inl ⟨history.registry, Registry.keeps_refl _, ?_⟩
          simp only [perform, existing, note]
      | some pointer =>
          refine .inr (.inl ⟨ty, name, pointer, existing, ?_⟩)
          simp only [perform, existing, note]
  | loadFromYaml root => exact .inl ⟨_, Registry.load_from_yaml_keeps yaml history.registry root, rfl⟩
  | setValue ty pointer new => exact .inl ⟨_, Registry.set_value_keeps history.registry ty pointer new, rfl⟩
  | addListener ty pointer cb => exact .inl ⟨_, Registry.add_listener_keeps history.registry ty pointer cb, rfl⟩

theorem perform_returned_grows (yaml : YamlCpp) (history : LookupHistory types World) (call : Call types World) :
    history.returned ⊆ (history.perform yaml call).returned := by
  obtain ⟨after, -, result⟩ | ⟨ty, name, pointer, -, result⟩ | ⟨ty, name, _, _, -, -, -, result⟩ :=
    perform_cases yaml history call
  · rw [result]
    exact List.Subset.refl _
  · rw [result]
    exact List.subset_cons_self _ _
  · rw [result]
    exact List.subset_cons_self _ _

theorem perform_recorded (yaml : YamlCpp) (history : LookupHistory types World) (call : Call types World)
    (recorded : history.Recorded) : (history.perform yaml call).Recorded := by
  obtain ⟨after, keeps, result⟩ | ⟨ty, name, pointer, existing, result⟩ |
    ⟨ty, name, defaultValue, description, -, valid, -, result⟩ := perform_cases yaml history call
  · rw [result]
    refine ⟨Registry.keeps_well_formed _ _ keeps recorded.wellFormed, ?_, ?_⟩
    · intro other pointer stored
      rw [keeps.1] at stored
      rw [keeps.2]
      exact recorded.entries other pointer stored
    · intro other ty pointer member
      rw [keeps.2]
      exact recorded.pointers other ty pointer member
  · rw [result]
    refine ⟨recorded.wellFormed, ?_, ?_⟩
    · intro other pointer stored
      obtain ⟨otherTy, shape, member⟩ := recorded.entries other pointer stored
      exact ⟨otherTy, shape, List.mem_cons_of_mem _ member⟩
    · intro other otherTy otherPointer member
      rcases List.mem_cons.mp member with same | earlier
      · cases same
        obtain ⟨stored, typed⟩ := (Registry.lookup_existing_iff _ ty name pointer).mp existing
        obtain ⟨actual, shape, -⟩ := recorded.entries name pointer stored
        rw [shape] at typed
        cases typed
        exact shape
      · exact recorded.pointers other otherTy otherPointer earlier
  · rw [result]
    refine ⟨Registry.create_well_formed _ ty name defaultValue description recorded.wellFormed, ?_, ?_⟩
    · intro other pointer stored
      rw [Registry.create_datas history.registry ty name other defaultValue description valid] at stored
      split at stored
      · rename_i same
        cases stored
        subst other
        exact ⟨ty, Registry.create_shape_fresh _ ty name defaultValue description valid, List.mem_cons_self⟩
      · obtain ⟨otherTy, shape, member⟩ := recorded.entries other pointer stored
        exact ⟨otherTy, Registry.create_shape_old _ ty name defaultValue description pointer _ shape,
          List.mem_cons_of_mem _ member⟩
    · intro other otherTy otherPointer member
      rcases List.mem_cons.mp member with same | earlier
      · cases same
        exact Registry.create_shape_fresh _ ty name defaultValue description valid
      · exact Registry.create_shape_old _ ty name defaultValue description otherPointer _
          (recorded.pointers other otherTy otherPointer earlier)

theorem perform_all_stored (yaml : YamlCpp) (history : LookupHistory types World) (call : Call types World)
    (stored : history.AllStored) (first : ¬ history.Reregisters call) : (history.perform yaml call).AllStored := by
  obtain ⟨after, keeps, result⟩ | ⟨ty, name, pointer, existing, result⟩ |
    ⟨ty, name, defaultValue, description, -, valid, free, result⟩ := perform_cases yaml history call
  · rw [result]
    intro other otherTy pointer member
    rw [keeps.1]
    exact stored other otherTy pointer member
  · rw [result]
    intro other otherTy otherPointer member
    rcases List.mem_cons.mp member with same | earlier
    · cases same
      exact ((Registry.lookup_existing_iff _ ty name pointer).mp existing).1
    · exact stored other otherTy otherPointer earlier
  · have absent : history.registry.datas[name]? = none := free.resolve_right first
    rw [result]
    intro other otherTy otherPointer member
    rw [Registry.create_datas history.registry ty name other defaultValue description valid]
    rcases List.mem_cons.mp member with same | earlier
    · cases same
      exact if_pos rfl
    · have held := stored other otherTy otherPointer earlier
      have different : name ≠ other := by
        intro same
        rw [← same, absent] at held
        cases held
      rw [if_neg different]
      exact held

theorem reregister_splits (yaml : YamlCpp) (history : LookupHistory types World) (call : Call types World)
    (recorded : history.Recorded) (again : history.Reregisters call) : (history.perform yaml call).Split := by
  cases call with
  | lookup ty name defaultValue description =>
      obtain ⟨pointer, existing⟩ := again
      obtain ⟨stored, typed⟩ := (Registry.lookup_existing_iff _ ty name pointer).mp existing
      obtain ⟨actual, shape, member⟩ := recorded.entries name pointer stored
      have same : actual = ty := by simpa [shape] using typed
      subst actual
      have valid := (recorded.wellFormed name pointer stored).1
      rw [perform_creates yaml history ty name defaultValue description valid (.inr ⟨pointer, existing⟩)]
      refine ⟨name, ty, pointer, history.registry.vars.size, List.mem_cons_of_mem _ member, List.mem_cons_self, ?_⟩
      exact Nat.ne_of_lt (Registry.shape_at_bound history.registry pointer _ shape)
  | lookupExisting _ _ => exact again.elim
  | loadFromYaml _ => exact again.elim
  | setValue _ _ _ => exact again.elim
  | addListener _ _ _ => exact again.elim

theorem calls_keep_split (yaml : YamlCpp) (calls : List (Call types World)) (history : LookupHistory types World)
    (divided : history.Split) : (calls.foldl (perform yaml) history).Split := by
  induction calls generalizing history with
  | nil => exact divided
  | cons call rest ih =>
      obtain ⟨name, ty, a, b, left, right, different⟩ := divided
      have grows := perform_returned_grows yaml history call
      exact ih _ ⟨name, ty, a, b, grows left, grows right, different⟩

theorem calls_one_variable_iff (yaml : YamlCpp) (calls : List (Call types World)) (history : LookupHistory types World)
    (recorded : history.Recorded) (stored : history.AllStored) :
    (calls.foldl (perform yaml) history).OneVariable ↔
      Along (fun current call => some (perform yaml current call)) (fun current call => ¬ current.Reregisters call)
        history calls := by
  induction calls generalizing history with
  | nil => exact iff_of_true (all_stored_one_variable history stored) trivial
  | cons call rest ih =>
      by_cases again : history.Reregisters call
      · have divided := reregister_splits yaml history call recorded again
        apply iff_of_false (split_not_one_variable _ (calls_keep_split yaml rest _ divided))
        exact fun along => along.1 again
      · have next := ih (history.perform yaml call) (perform_recorded yaml history call recorded)
          (perform_all_stored yaml history call stored again)
        rw [List.foldl_cons, next]
        exact ⟨fun along => ⟨again, along⟩, fun along => along.2⟩

theorem returned_pointers_one_variable (yaml : YamlCpp) (world : World) (calls : List (Call types World)) :
    (calls.foldl (perform yaml) (start world)).OneVariable ↔
      Along (fun current call => some (perform yaml current call)) (fun current call => ¬ current.Reregisters call)
        (start world) calls :=
  calls_one_variable_iff yaml calls (start world) (start_recorded world) (by simp [AllStored, start])

theorem perform_type_kept (yaml : YamlCpp) (history : LookupHistory types World) (call : Call types World)
    (recorded : history.Recorded) (name : String) (ty : Ty) (typed : history.registry.typeAt name = some ty) :
    (history.perform yaml call).registry.typeAt name = some ty := by
  obtain ⟨after, keeps, result⟩ | ⟨_, _, _, -, result⟩ | ⟨newTy, created, defaultValue, description, isLookup, valid,
    free, result⟩ := perform_cases yaml history call
  · rw [result, Registry.keeps_type_at history.registry after keeps name]
    exact typed
  · rw [result]
    exact typed
  · rw [result, Registry.create_type_at history.registry recorded.wellFormed newTy created name defaultValue description
      valid]
    split
    · rename_i same
      subst same
      -- The name is taken, so only a Lookup at the registered type gets here.
      have again : history.Reregisters call := by
        refine free.resolve_left fun absent => ?_
        simp only [Registry.typeAt, absent, Option.bind_none] at typed
        cases typed
      rw [isLookup] at again
      obtain ⟨pointer, existing⟩ := again
      obtain ⟨stored, same⟩ := (Registry.lookup_existing_iff _ newTy created pointer).mp existing
      simp only [Registry.typeAt, stored, Option.bind_some, same] at typed
      exact typed
    · exact typed

theorem calls_recorded (yaml : YamlCpp) (calls : List (Call types World)) (history : LookupHistory types World)
    (recorded : history.Recorded) : (calls.foldl (perform yaml) history).Recorded := by
  induction calls generalizing history with
  | nil => exact recorded
  | cons call rest ih => exact ih _ (perform_recorded yaml history call recorded)

theorem calls_type_kept (yaml : YamlCpp) (calls : List (Call types World)) (history : LookupHistory types World)
    (recorded : history.Recorded) (name : String) (ty : Ty) (typed : history.registry.typeAt name = some ty) :
    (calls.foldl (perform yaml) history).registry.typeAt name = some ty := by
  induction calls generalizing history with
  | nil => exact typed
  | cons call rest ih =>
      exact ih _ (perform_recorded yaml history call recorded)
        (perform_type_kept yaml history call recorded name ty typed)

-- The run is cut at any point: what a name is registered as there, it stays.
theorem registry_invariant (yaml : YamlCpp) (world : World) (before after : List (Call types World)) :
    let middle := before.foldl (perform yaml) (start world)
    let final := after.foldl (perform yaml) middle
    final.registry.EntriesNamed ∧
      (∀ name ty, middle.registry.typeAt name = some ty → final.registry.typeAt name = some ty) ∧
      ∀ ty name defaultValue description registry outcome,
        final.registry.lookup ty name defaultValue description = (registry, outcome) →
          (outcome = .ok none ∨ ∃ thrown, outcome = .error thrown) → registry = final.registry := by
  intro middle final
  have recorded : middle.Recorded := calls_recorded yaml before _ (start_recorded world)
  refine ⟨Registry.well_formed_entries_named _ (calls_recorded yaml after middle recorded).wellFormed,
    calls_type_kept yaml after middle recorded, ?_⟩
  intro ty name defaultValue description registry outcome called refused
  apply Registry.lookup_without_pointer final.registry registry ty name defaultValue description outcome called
  intro pointer returned
  subst returned
  rcases refused with null | ⟨thrown, error⟩
  · cases null
  · cases error

def portLookups : List (Call (fun _ : Unit => intType) Unit) :=
  [.lookup () "system.port" (8080 : Int) "system port", .lookup () "system.port" (9090 : Int) "system port"]

theorem repeated_lookup_divides :
    ¬ ∃ yaml : YamlCpp, (portLookups.foldl (perform yaml) (start ())).OneVariable := by
  rintro ⟨yaml, one⟩
  have handed : (portLookups.foldl (perform yaml) (start ())).returned =
      [("system.port", (), 1), ("system.port", (), 0)] := rfl
  have same := one "system.port" () 0 1 (by simp [handed]) (by simp [handed])
  exact absurd same.1 (by decide)

end LookupHistory

end Sylar.Config
