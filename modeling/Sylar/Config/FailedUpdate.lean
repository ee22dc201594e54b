import Sylar.Config.Containers

set_option autoImplicit false

namespace Sylar.Config

open Lib (Ordered)
open Yaml (Exception Node YamlCpp)

variable {Val World Note : Type}

-- A listener that first writes the call down and then does what it did before.
def OnChange.recorded (note : Val → Val → Note) (cb : OnChange Val World) : OnChange Val (World × List Note) :=
  fun old new state => (((cb old new state.1).1, state.2 ++ [note old new]), (cb old new state.1).2)

namespace ConfigVar

def recorded (note : Val → Val → Note) (var : ConfigVar Val World) : ConfigVar Val (World × List Note) where
  name := var.name
  description := var.description
  val := var.val
  cbs := var.cbs.map fun _ cb => OnChange.recorded note cb

-- Told one after the other, a listener throws.
def SomeThrows (old new : Val) : List (Nat × OnChange Val World) → World → Prop
  | [], _ => False
  | (_, cb) :: rest, world => (cb old new world).2 ≠ none ∨ SomeThrows old new rest (cb old new world).1

-- A listener throws when it is told of the value.
def Vetoed [BEq Val] (var : ConfigVar Val World) (new : Val) (world : World) : Prop :=
  (var.val == new) = false ∧ SomeThrows var.val new var.cbs.toList world

theorem notify_throws_iff (old new : Val) (cbs : List (Nat × OnChange Val World)) (world : World) :
    (notify old new cbs world).2 ≠ none ↔ SomeThrows old new cbs world := by
  induction cbs generalizing world with
  | nil => simp [notify, SomeThrows]
  | cons entry rest ih =>
      obtain ⟨key, cb⟩ := entry
      rw [notify, SomeThrows]
      split
      · rename_i returned
        rw [ih]
        simp [returned]
      · rename_i returned
        simp [returned]

-- The recorded run is the run itself with the calls written down: one for each
-- listener up to the one that throws.
theorem notify_recorded (note : Val → Val → Note) (old new : Val) (cbs : List (Nat × OnChange Val World)) (world : World)
    (calls : List Note) :
    ∃ count, (count = 0 ↔ cbs = []) ∧
      notify old new (cbs.map fun entry => (entry.1, OnChange.recorded note entry.2)) (world, calls) =
        (((notify old new cbs world).1, calls ++ List.replicate count (note old new)), (notify old new cbs world).2) := by
  induction cbs generalizing world calls with
  | nil => exact ⟨0, by simp, by simp [notify]⟩
  | cons entry rest ih =>
      obtain ⟨key, cb⟩ := entry
      cases returned : cb old new world with
      | mk next thrown =>
          cases thrown with
          | some exception =>
              refine ⟨1, by simp, ?_⟩
              simp [notify, OnChange.recorded, returned]
          | none =>
              obtain ⟨count, -, same⟩ := ih next (calls ++ [note old new])
              refine ⟨count + 1, by simp, ?_⟩
              have told : OnChange.recorded note cb old new (world, calls) = ((next, calls ++ [note old new]), none) := by
                simp [OnChange.recorded, returned]
              simp only [List.map_cons, notify, told, same, returned, List.append_assoc, List.replicate_succ,
                List.singleton_append]

theorem recorded_cbs (note : Val → Val → Note) (var : ConfigVar Val World) :
    (var.recorded note).cbs.toList = var.cbs.toList.map fun entry => (entry.1, OnChange.recorded note entry.2) :=
  Std.TreeMap.toList_map

variable [BEq Val]

theorem set_value_thrown_iff (var : ConfigVar Val World) (new : Val) (world : World) :
    (var.setValue new world).2.2 ≠ none ↔ var.Vetoed new world := by
  rw [setValue, Vetoed, ← notify_throws_iff]
  split
  · rename_i same
    simp [same]
  · rename_i different
    split <;> simp_all

theorem set_value_refused (var : ConfigVar Val World) (new : Val) (world : World) (vetoed : var.Vetoed new world) :
    (var.setValue new world).1 = var := by
  have thrown := (set_value_thrown_iff var new world).mpr vetoed
  revert thrown
  rw [setValue]
  split
  · simp
  · split
    · simp
    · simp

theorem set_value_recorded (note : Val → Val → Note) (var : ConfigVar Val World) (new : Val) (world : World)
    (calls : List Note) :
    ∃ count, (count = 0 ↔ var.val == new ∨ var.cbs.toList = []) ∧
      (var.recorded note).setValue new (world, calls) =
        ((var.setValue new world).1.recorded note,
          ((var.setValue new world).2.1, calls ++ List.replicate count (note var.val new)), (var.setValue new world).2.2) := by
  by_cases same : var.val == new
  · refine ⟨0, by simp [same], ?_⟩
    simp [setValue, recorded, same]
  · obtain ⟨count, zero, run⟩ := notify_recorded note var.val new var.cbs.toList world calls
    refine ⟨count, by simp [same, zero], ?_⟩
    have start : (var.recorded note).val = var.val := rfl
    cases told : notify var.val new var.cbs.toList world with
    | mk next thrown =>
        rw [told] at run
        simp only [setValue, start, same, Bool.false_eq_true, if_false, recorded_cbs, run, told]
        cases thrown <;> rfl

section FromString

variable (fromStr : String → Except Exception Val) (var : ConfigVar Val World) (text : String) (world : World)

theorem from_string_error (thrown : Exception) (failed : fromStr text = .error thrown) :
    var.fromString fromStr text world = (var, world, false) := by
  simp only [fromString, failed]

theorem from_string_converted (new : Val) (converted : fromStr text = .ok new) :
    var.fromString fromStr text world =
      ((var.setValue new world).1, (var.setValue new world).2.1, (var.setValue new world).2.2.isNone) := by
  simp only [fromString, converted]
  cases result : var.setValue new world with
  | mk next rest =>
      obtain ⟨nextWorld, thrown⟩ := rest
      cases thrown <;> rfl

theorem from_string_false_iff (new : Val) (converted : fromStr text = .ok new) :
    (var.fromString fromStr text world).2.2 = false ↔ var.Vetoed new world := by
  rw [from_string_converted fromStr var text world new converted, ← set_value_thrown_iff, Option.isNone_eq_false_iff,
    Option.isSome_iff_ne_none]

theorem from_string_recorded (note : Val → Val → Note) (new : Val) (converted : fromStr text = .ok new)
    (calls : List Note) :
    ∃ count, (count = 0 ↔ var.val == new ∨ var.cbs.toList = []) ∧
      (var.recorded note).fromString fromStr text (world, calls) =
        ((var.fromString fromStr text world).1.recorded note,
          ((var.fromString fromStr text world).2.1, calls ++ List.replicate count (note var.val new)),
          (var.fromString fromStr text world).2.2) := by
  obtain ⟨count, zero, run⟩ := set_value_recorded note var new world calls
  refine ⟨count, zero, ?_⟩
  rw [from_string_converted fromStr (var.recorded note) text (world, calls) new converted, run,
    from_string_converted fromStr var text world new converted]

-- An update that calls no listener.
def Still : Prop := ∀ new, fromStr text = .ok new → var.val == new ∨ var.cbs.toList = []

theorem from_string_noted (note : Val → Val → Note) (calls : List Note) :
    ∃ told, (told = [] ↔ var.Still fromStr text) ∧
      (var.recorded note).fromString fromStr text (world, calls) =
        ((var.fromString fromStr text world).1.recorded note, ((var.fromString fromStr text world).2.1, calls ++ told),
          (var.fromString fromStr text world).2.2) := by
  cases converted : fromStr text with
  | error thrown =>
      refine ⟨[], by simp [Still, converted], ?_⟩
      rw [from_string_error fromStr var text world thrown converted,
        from_string_error fromStr (var.recorded note) text (world, calls) thrown converted, List.append_nil]
  | ok new =>
      obtain ⟨count, zero, run⟩ := from_string_recorded fromStr var text world note new converted calls
      refine ⟨_, ?_, run⟩
      simp only [List.replicate_eq_nil_iff, zero, Still, converted, Except.ok.injEq, forall_eq']

theorem vetoed_listener (new : Val) (vetoed : var.Vetoed new world) : var.cbs.toList ≠ [] := by
  intro none
  have throws := vetoed.2
  rw [none] at throws
  exact throws

def NoTrace : Prop :=
  let result := (var.recorded Prod.mk).fromString fromStr text (world, [])
  result.2.2 = false → result.1.val = var.val ∧ ∀ call ∈ result.2.1.2, fromStr text ≠ .ok call.2

-- The value is never touched by an update that fails. The listeners are told
-- before it is known whether all of them agree.
theorem failed_update_iff :
    ((var.fromString fromStr text world).2.2 = false → (var.fromString fromStr text world).1.val = var.val) ∧
      (NoTrace fromStr var text world ↔ ∀ new, fromStr text = .ok new → ¬ var.Vetoed new world) := by
  cases converted : fromStr text with
  | error thrown =>
      rw [from_string_error fromStr var text world thrown converted]
      refine ⟨fun _ => rfl, iff_of_true ?_ (by simp)⟩
      rw [NoTrace, from_string_error fromStr (var.recorded Prod.mk) text (world, []) thrown converted]
      exact fun _ => ⟨rfl, by simp⟩
  | ok new =>
      obtain ⟨count, zero, run⟩ := from_string_recorded fromStr var text world Prod.mk new converted []
      have refused := from_string_false_iff fromStr var text world new converted
      have kept (failed : (var.fromString fromStr text world).2.2 = false) :
          (var.fromString fromStr text world).1 = var := by
        rw [from_string_converted fromStr var text world new converted]
        exact set_value_refused var new world (refused.mp failed)
      refine ⟨fun failed => congrArg ConfigVar.val (kept failed), ?_⟩
      simp only [NoTrace, run, converted, Except.ok.injEq, forall_eq', List.nil_append]
      constructor
      · intro traceless vetoed
        obtain ⟨-, untold⟩ := traceless (refused.mpr vetoed)
        have positive : count ≠ 0 := by
          intro none
          rcases zero.mp none with same | empty
          · rw [vetoed.1] at same
            cases same
          · exact vetoed_listener var world new vetoed empty
        exact untold (var.val, new) (List.mem_replicate.mpr ⟨positive, rfl⟩) rfl
      · intro agreed failed
        exact absurd (refused.mp failed) agreed

end FromString

-- The first listener is told of 9090, the second one throws.
def vetoedPort : ConfigVar Int Unit :=
  let port : ConfigVar Int Unit := ConfigVar.new "system.port" 8080 "system port"
  ((port.addListener 0 fun _ _ world => (world, none)).1.addListener 1 fun _ _ world => (world, some "out of range")).1

theorem told_before_veto :
    ¬ ∀ (var : ConfigVar Int Unit) (text : String) (world : Unit), NoTrace lexicalCastInt var text world := by
  intro claimed
  have converted : lexicalCastInt "9090" = .ok (9090 : Int) := rfl
  obtain ⟨count, zero, run⟩ := from_string_recorded lexicalCastInt vetoedPort "9090" () Prod.mk 9090 converted []
  have positive : count ≠ 0 := by
    intro none
    rcases zero.mp none with same | empty
    · exact absurd same (by decide)
    · cases empty
  have traceless := claimed vetoedPort "9090" ()
  rw [NoTrace, run] at traceless
  exact (traceless rfl).2 (8080, 9090) (List.mem_append_right _ (List.mem_replicate.mpr ⟨positive, rfl⟩)) converted

end ConfigVar

-- The containers that a ConfigVar is instantiated with, over any element type.
inductive ContainerCast (yaml : YamlCpp) : {Val : Type} → (String → Except Exception Val) → Prop where
  | vector {α : Type} (fromStr : String → Except Exception α) : ContainerCast yaml (vectorFromString yaml fromStr)
  | list {α : Type} (fromStr : String → Except Exception α) : ContainerCast yaml (listFromString yaml fromStr)
  | set {α : Type} [LinearOrder α] (fromStr : String → Except Exception α) : ContainerCast yaml (setFromString yaml fromStr)
  | map {α : Type} (fromStr : String → Except Exception α) : ContainerCast yaml (mapFromString yaml fromStr)
  | unorderedMap {α : Type} (fromStr : String → Except Exception α) (hashing : Hashing) :
      ContainerCast yaml (unorderedMapFromString yaml fromStr hashing)

section WrongShape

theorem scalar_elements {α : Type} (yaml : YamlCpp) (fromStr : String → Except Exception α) (text scalar : String)
    (loaded : yaml.load text = .ok (.scalar scalar)) : elements yaml fromStr text = .ok [] := by
  simp only [elements, loaded]
  rfl

theorem scalar_entries {α : Type} (yaml : YamlCpp) (fromStr : String → Except Exception α) (text scalar : String)
    (loaded : yaml.load text = .ok (.scalar scalar)) : entries yaml fromStr text = .ok [] := by
  simp only [entries, loaded]
  rfl

-- No element is converted, so nothing throws: a scalar reads as no elements.
theorem scalar_converts (yaml : YamlCpp) (fromStr : String → Except Exception Val) (container : ContainerCast yaml fromStr)
    (text scalar : String) (loaded : yaml.load text = .ok (.scalar scalar)) : ∃ empty, fromStr text = .ok empty := by
  cases container with
  | vector fromStr => exact ⟨_, scalar_elements yaml fromStr text scalar loaded⟩
  | list fromStr => exact ⟨_, scalar_elements yaml fromStr text scalar loaded⟩
  | set fromStr => exact ⟨_, by rw [setFromString, scalar_elements yaml fromStr text scalar loaded]; rfl⟩
  | map fromStr => exact ⟨_, by rw [mapFromString, scalar_entries yaml fromStr text scalar loaded]; rfl⟩
  | unorderedMap fromStr hashing =>
      exact ⟨_, by rw [unorderedMapFromString, scalar_entries yaml fromStr text scalar loaded]; rfl⟩

def Rejected [BEq Val] (fromStr : String → Except Exception Val) (var : ConfigVar Val World) (text : String)
    (world : World) : Prop :=
  let result := (var.recorded Prod.mk).fromString fromStr text (world, [])
  result.2.2 = false ∧ result.2.1.2 = [] ∧ result.1.val = var.val

theorem wrong_shape_not_rejected [BEq Val] (yaml : YamlCpp) (fromStr : String → Except Exception Val)
    (container : ContainerCast yaml fromStr) (var : ConfigVar Val World) (text scalar : String) (world : World)
    (loaded : yaml.load text = .ok (.scalar scalar)) : ¬ Rejected fromStr var text world := by
  obtain ⟨empty, converted⟩ := scalar_converts yaml fromStr container text scalar loaded
  obtain ⟨count, zero, run⟩ := ConfigVar.from_string_recorded fromStr var text world Prod.mk empty converted []
  intro rejected
  obtain ⟨failed, untold, -⟩ := rejected
  rw [run] at failed untold
  have vetoed := (ConfigVar.from_string_false_iff fromStr var text world empty converted).mp failed
  have none : count = 0 := by simpa using untold
  rcases zero.mp none with same | silent
  · rw [vetoed.1] at same
    cases same
  · exact ConfigVar.vetoed_listener var world empty vetoed silent

def scalarYaml : YamlCpp where
  emit := Node.scalarText
  load text := .ok (.scalar text)
  asIndex := String.toNat?

def vecVar : ConfigVar (List Int) Unit := ConfigVar.new "system.vec" [1, 2, 3] "system vec"

theorem wrong_shape_not_rejected_word : ¬ Rejected (vectorFromString scalarYaml lexicalCastInt) vecVar "none" () :=
  wrong_shape_not_rejected scalarYaml _ (.vector lexicalCastInt) vecVar "none" "none" () rfl

theorem word_wipes_list :
    ¬ ∀ (yaml : YamlCpp) (var : ConfigVar (List Int) Unit) (text scalar : String),
      yaml.load text = .ok (.scalar scalar) → Rejected (vectorFromString yaml lexicalCastInt) var text () := by
  intro claimed
  obtain ⟨failed, -⟩ := claimed scalarYaml vecVar "none" "none" rfl
  have succeeded : ((vecVar.recorded Prod.mk).fromString (vectorFromString scalarYaml lexicalCastInt) "none" ((), [])).2.2 =
      true := rfl
  rw [succeeded] at failed
  cases failed

end WrongShape

end Sylar.Config
