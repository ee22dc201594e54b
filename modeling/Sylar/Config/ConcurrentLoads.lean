import Sylar.Config.ConfigVarHistory
import Sylar.Config.Reload

set_option autoImplicit false

namespace Sylar.Config.ConfigVarStatements

open Function (update)
open Lib (Address Fine overwriteAll run)
open Lib.Sections (Observation fineStep settled wholeStep)
open Registry (converted heardPort portDocument portYaml textsAt)
open Yaml (Exception Node YamlCpp)

section Requests

variable {Val : Type} [BEq Val] {toStr : Val → Except Exception String} (memory : Memory Val toStr)
variable (fromStr : String → Except Exception Val)

-- The values that calls ask for, and that a call in its write section still has to write.
def requests (calls : List (Call Val)) : List Val :=
  calls.filterMap fun
    | .setValue new => some new
    | .fromString text => (fromStr text).toOption
    | _ => none

def Phase.pending : Phase Val → List Val
  | .idle => []
  | .writing new => [new]

def owed (state : Calling memory) (thread : Nat) : List Val :=
  (state.locals thread).phase.pending ++ requests fromStr (state.locals thread).calls

section Steps

variable (initial : Initial Val) (programs : Nat → List (Call Val)) (state next : Calling memory) (thread : Nat)

omit [BEq Val] in
theorem requests_from_string (text : String) (rest : List (Call Val)) :
    requests fromStr (fromString fromStr text rest) = requests fromStr (.fromString text :: rest) := by
  rw [fromString]
  cases converts : fromStr text with
  | error thrown => simp [requests, converts, Except.toOption]
  | ok new => simp [requests, converts, Except.toOption]

-- Where no listener throws, a step leaves what is asked for as it is, or takes
-- the next value away, which the variable is then equal to.
theorem advances_owed [EquivBEq Val] (quiet : ∀ count, (state.locals thread).verdicts count = false) (data : Guarded Val)
    (phase : Phase Val) (calls : List (Call Val)) (events : List (Event Val)) (advances : Advances memory fromStr state thread data phase calls events) :
    (phase.pending ++ requests fromStr calls = owed memory fromStr state thread ∧ data.val = (state.data ()).val) ∨
      ∃ new, owed memory fromStr state thread = new :: (phase.pending ++ requests fromStr calls) ∧ (data.val == new) = true := by
  cases advances with
  | converted text rest idle calls =>
      refine .inl ⟨?_, rfl⟩
      rw [owed, idle, calls, requests_from_string]
  | shown rest idle calls | added rest idle calls | removed key rest idle calls | cleared rest idle calls =>
      refine .inl ⟨?_, rfl⟩
      rw [owed, idle, calls]
      rfl
  | equal new rest idle calls equal =>
      refine .inr ⟨new, ?_, equal⟩
      rw [owed, idle, calls]
      rfl
  | notified new rest idle calls differs =>
      refine .inl ⟨?_, rfl⟩
      rw [owed, idle, calls]
      rfl
  | refused new rest told idle calls differs throws =>
      obtain ⟨count, threw⟩ := throws
      rw [quiet count] at threw
      cases threw
  | wrote new writing =>
      refine .inr ⟨new, ?_, BEq.refl new⟩
      rw [owed, writing]
      rfl

-- Some thread has still to write, or the variable is equal to its last value.
structure Settling : Prop where
  quiet : ∀ other count, (state.locals other).verdicts count = false
  left : ∀ other, owed memory fromStr state other <:+ requests fromStr (programs other)
  untouched : (∀ other, requests fromStr (programs other) = []) → (state.data ()).val = initial.val
  settles : (∃ other, requests fromStr (programs other) ≠ []) → ∃ other last,
    (requests fromStr (programs other)).getLast? = some last ∧
      (owed memory fromStr state other ≠ [] ∨ ((state.data ()).val == last) = true)

theorem owed_next (data : Guarded Val) (own : Thread memory) (phase : Phase Val) (calls : List (Call Val))
    (noted : List (Nat × Event Val)) (goes : Goes memory (state.locals thread) own phase calls noted) (other : Nat) :
    owed memory fromStr ⟨(), fun _ => data, update state.locals thread own⟩ other =
      if other = thread then phase.pending ++ requests fromStr calls else owed memory fromStr state other := by
  by_cases same : other = thread
  · subst same
    simp [owed, goes.phase, goes.calls]
  · simp [owed, same]

theorem step_settling [EquivBEq Val] (settling : Settling memory fromStr initial programs state)
    (stepped : wholeStep (moves memory fromStr) state thread = some next) : Settling memory fromStr initial programs next := by
  obtain ⟨data, phase, calls, events, own, advances, goes, rfl⟩ := step_cases memory fromStr state next thread stepped
  have later := owed_next memory fromStr state thread data own phase calls _ goes
  have quiet (other count : Nat) : (update state.locals thread own other).verdicts count = false := by
    by_cases same : other = thread
    · subst same
      rw [Function.update_self, goes.verdicts]
      exact settling.quiet other count
    · rw [Function.update_of_ne same]
      exact settling.quiet other count
  rcases advances_owed memory fromStr state thread (settling.quiet thread) data phase calls events advances with
    ⟨same, val⟩ | ⟨new, taken, equal⟩
  · have kept (other : Nat) : owed memory fromStr ⟨(), fun _ => data, update state.locals thread own⟩ other =
        owed memory fromStr state other := by
      rw [later]
      split
      · rename_i mine
        rw [mine, same]
      · rfl
    refine ⟨quiet, fun other => kept other ▸ settling.left other, fun none => val.trans (settling.untouched none), fun asked => ?_⟩
    obtain ⟨other, last, ends, still⟩ := settling.settles asked
    refine ⟨other, last, ends, ?_⟩
    rw [kept]
    exact val ▸ still
  · have suffix : new :: (phase.pending ++ requests fromStr calls) <:+ requests fromStr (programs thread) :=
      taken ▸ settling.left thread
    have nonempty : requests fromStr (programs thread) ≠ [] := by
      intro none
      rw [none] at suffix
      simpa using suffix.length_le
    refine ⟨quiet, ?_, fun none => absurd (none thread) nonempty, fun _ => ?_⟩
    · intro other
      rw [later]
      split
      · rename_i mine
        subst mine
        exact (List.suffix_cons _ _).trans suffix
      · exact settling.left other
    · -- The value that was taken is the last of its thread, or the thread goes on.
      obtain ⟨before, whole⟩ := suffix
      cases rest : phase.pending ++ requests fromStr calls with
      | nil =>
          refine ⟨thread, new, ?_, .inr equal⟩
          rw [← whole, rest, List.getLast?_append]
          rfl
      | cons first others =>
          refine ⟨thread, (first :: others).getLast (List.cons_ne_nil _ _), ?_, .inl ?_⟩
          · rw [← whole, rest, List.getLast?_append, List.getLast?_cons_cons,
              List.getLast?_eq_some_getLast (List.cons_ne_nil _ _)]
            rfl
          · rw [later, if_pos rfl, rest]
            exact List.cons_ne_nil _ _

def noneThrows (_ _ : Nat) : Bool := false

theorem owed_start (other : Nat) :
    owed memory fromStr (start memory initial noneThrows programs) other = requests fromStr (programs other) := rfl

theorem start_settling : Settling memory fromStr initial programs (start memory initial noneThrows programs) where
  quiet := fun _ _ => rfl
  left := fun other => owed_start memory fromStr initial programs other ▸ List.suffix_refl _
  untouched := fun _ => rfl
  settles := by
    rintro ⟨other, asked⟩
    exact ⟨other, _, List.getLast?_eq_some_getLast asked, .inl asked⟩

def Finished (final : Fine Unit Unit (Guarded Val) (Thread memory)) : Prop :=
  ∀ other, final.inside other = none ∧ (final.locals other).phase = .idle ∧ (final.locals other).calls = []

theorem finished_settles [EquivBEq Val] (schedule : List Nat) (final : Fine Unit Unit (Guarded Val) (Thread memory))
    (completed : run (fineStep (moves memory fromStr)) (settled (start memory initial noneThrows programs)) schedule = some final)
    (finished : Finished memory final) :
    ((∀ other, requests fromStr (programs other) = []) ∧ (final.data ()).val = initial.val) ∨
      ∃ other last, (requests fromStr (programs other)).getLast? = some last ∧ ((final.data ()).val == last) = true := by
  obtain ⟨whole, settling, simulates⟩ := Lib.Sections.fine_invariant (moves memory fromStr)
    (Settling memory fromStr initial programs)
    (fun state thread next settling stepped => step_settling memory fromStr initial programs state next thread settling stepped)
    (start memory initial noneThrows programs) (start_settling memory fromStr initial programs) schedule final completed
  have data : final.data () = whole.data () := by
    apply simulates.unwritten
    exact fun writer _ => Lib.Sections.through_outside final writer (finished writer).1
  have done (other : Nat) : owed memory fromStr whole other = [] := by
    obtain ⟨outside, idle, calls⟩ := finished other
    rw [owed, ← simulates.through other (Lib.Sections.through_outside final other outside), idle, calls]
    rfl
  rw [data]
  by_cases asked : ∃ other, requests fromStr (programs other) ≠ []
  · obtain ⟨other, last, ends, still⟩ := settling.settles asked
    exact .inr ⟨other, last, ends, still.resolve_left fun owing => owing (done other)⟩
  · have none : ∀ other, requests fromStr (programs other) = [] := by simpa using asked
    exact .inl ⟨none, settling.untouched none⟩

end Steps

end Requests

section Loads

variable {Ty World : Type} {types : Ty → ConfigType} (yaml : YamlCpp) (registry : Registry types World)

-- What LoadFromYaml does with the variable of that name; its other calls go to
-- other variables.
def loads {Val : Type} (name : String) (roots : Nat → Option Node) (thread : Nat) : List (Call Val) :=
  match roots thread with
  | none => []
  | some root => (textsAt yaml name (listAllMember "" root)).map .fromString

-- The variable with the listeners it has; they act outside the configuration.
def observed {Val : Type} (var : ConfigVar Val World) (funId : Nat) : Initial Val where
  val := var.val
  cbs := var.cbs.keys
  funId := funId
  distinct := Std.TreeMap.nodup_keys

theorem requests_loads {Val : Type} (fromStr : String → Except Exception Val) (texts : List String) :
    requests fromStr (texts.map .fromString) = converted fromStr texts := by
  rw [requests, List.filterMap_map, converted]
  rfl

theorem loaded_value (wf : registry.WellFormed) (name : String) (pointer : Address)
    (stored : registry.datas[name]? = some pointer) (ty : Ty) (var : ConfigVar (types ty).Val World)
    (read : registry.vars.read pointer = some ⟨ty, var⟩) (quiet : var.Quiet) (root : Node) :
    (registry.loadFromYaml yaml root).valueAt pointer =
      some ⟨ty, overwriteAll var.val (converted (types ty).fromStr (textsAt yaml name (listAllMember "" root)))⟩ := by
  have quietAt : registry.QuietAt pointer := by
    intro cell there
    cases read.symm.trans there
    exact quiet
  have before : registry.valueAt pointer = some ⟨ty, var.val⟩ := by rw [Registry.valueAt, read, Option.map_some]
  have assigned (value : (types ty).Val) (texts : List String) :
      texts.foldl (ConfigVar.assign (types ty).fromStr) value = overwriteAll value (converted (types ty).fromStr texts) := by
    induction texts generalizing value with
    | nil => rfl
    | cons text rest ih =>
        rw [List.foldl_cons, ih, ConfigVar.assign_overwrites, converted, converted, List.filterMap_cons]
        cases ((types ty).fromStr text).toOption <;> rfl
  rw [Registry.loadFromYaml, Registry.load_members_value yaml name pointer _ _ wf (list_all_member_valid "" root) stored quietAt,
    before, Option.map_some, Registry.assign_texts_value, assigned]

-- When all are done, a variable is equal to what one of the loads alone leaves;
-- threads that load one document do not get in each other's way.
theorem concurrent_loads_settle (wf : registry.WellFormed) (name : String) (pointer : Address)
    (stored : registry.datas[name]? = some pointer) (ty : Ty) (var : ConfigVar (types ty).Val World)
    (read : registry.vars.read pointer = some ⟨ty, var⟩) (quiet : var.Quiet) [EquivBEq (types ty).Val]
    {toStr : (types ty).Val → Except Exception String} (memory : Memory (types ty).Val toStr) (roots : Nat → Option Node)
    (loaded : ∃ thread root, roots thread = some root) (schedule : List Nat)
    (final : Fine Unit Unit (Guarded (types ty).Val) (Thread memory))
    (completed : run (fineStep (moves memory (types ty).fromStr)) (settled (start memory (observed var (registry.funId ty))
      noneThrows (loads yaml name roots))) schedule = some final)
    (finished : Finished memory final) :
    ∃ thread root, roots thread = some root ∧ ∃ alone, (registry.loadFromYaml yaml root).valueAt pointer = some ⟨ty, alone⟩ ∧
      ((final.data ()).val == alone) = true := by
  rcases finished_settles memory (types ty).fromStr (observed var (registry.funId ty)) (loads yaml name roots) schedule final
    completed finished with ⟨none, val⟩ | ⟨thread, last, ends, equal⟩
  · obtain ⟨thread, root, given⟩ := loaded
    refine ⟨thread, root, given, _, loaded_value yaml registry wf name pointer stored ty var read quiet root, ?_⟩
    have nothing := none thread
    rw [loads, given, requests_loads] at nothing
    rw [nothing, val]
    exact BEq.refl var.val
  · cases given : roots thread with
    | none =>
        rw [loads, given] at ends
        cases ends
    | some root =>
        refine ⟨thread, root, given, _, loaded_value yaml registry wf name pointer stored ty var read quiet root, ?_⟩
        rw [loads, given, requests_loads] at ends
        obtain ⟨before, whole⟩ := List.getLast?_eq_some_iff.mp ends
        rw [whole]
        exact BEq.trans equal (BEq.symm (Lib.overwrite_all_holds var.val last before))

end Loads

-- An int is read at once, and written at once.
def observeInt {Result : Type} (of : Int → Result) : Observation Int Int of where
  body := .step (fun val _ => some (val, val)) fun _ => .done
  result := of
  reads := ⟨by rintro val own result ⟨⟩; rfl, fun _ => trivial⟩
  observed := fun val _ => ⟨val, rfl, rfl⟩

def int (toStr : Int → Except Exception String) : Memory Int toStr where
  Scratch := Int
  empty := 0
  compare := fun new => observeInt fun val => val == new
  copy := observeInt fun val => val
  print := observeInt toStr
  assign := fun new => .step (fun _ own => some (new, own)) fun _ => .done
  assigned := fun _ _ own => ⟨own, rfl⟩

def decimal (val : Int) : Except Exception String := .ok (toString val)

def otherPort : Node := .map [(.scalar "system", .map [(.scalar "port", .scalar "7070")])]

def twoRoots : Nat → Option Node
  | 0 => some portDocument
  | 1 => some otherPort
  | _ => none

def listenedVar : ConfigVar Int Unit :=
  ((ConfigVar.new "system.port" (8080 : Int) "port").addListener 0 fun _ _ world => (world, none)).1

abbrev twoLoads := settled (start (int decimal) (observed listenedVar (heardPort.funId ())) noneThrows
  (loads portYaml "system.port" twoRoots))

def loadTurns : List Nat := (List.replicate 9 [0, 1]).flatten ++ List.replicate 4 0 ++ List.replicate 4 1

-- Both threads compare with 8080 and call the listener before either of them writes.
theorem concurrent_loads_settle_port : ∃ final,
    run (fineStep (moves (int decimal) Config.intType.fromStr)) twoLoads loadTurns = some final ∧
      (final.data ()).val = (7070 : Int) ∧ (final.locals 1).events = [(0, .notified 7070 [(1, 8080)]), (2, .wrote 7070)] ∧
      ∃ thread root, twoRoots thread = some root ∧ ∃ alone : Int,
        (heardPort.loadFromYaml portYaml root).valueAt 0 = some ⟨(), alone⟩ ∧ ((final.data ()).val == alone) = true := by
  have ran : ∃ final,
      run (fineStep (moves (int decimal) Config.intType.fromStr)) twoLoads loadTurns = some final ∧
        (final.data ()).val = (7070 : Int) ∧ (final.locals 1).events = [(0, .notified 7070 [(1, 8080)]), (2, .wrote 7070)] ∧
        Finished (int decimal) final := by
    refine ⟨_, rfl, rfl, rfl, fun other => ?_⟩
    match other with
    | 0 => exact ⟨rfl, rfl, rfl⟩
    | 1 => exact ⟨rfl, rfl, rfl⟩
    | other + 2 => exact ⟨rfl, rfl, rfl⟩
  obtain ⟨final, completed, val, told, finished⟩ := ran
  have : EquivBEq Config.intType.Val := Registry.int_equal ()
  exact ⟨final, completed, val, told, concurrent_loads_settle portYaml heardPort
    (Registry.keeps_well_formed _ _ (Registry.add_listener_keeps _ _ _ _) (Registry.port_registry_well_formed "system.port"))
    "system.port" 0 rfl () listenedVar rfl (Registry.heard_port_quiet 0 _ rfl) (int decimal) twoRoots ⟨0, portDocument, rfl⟩ _ final
    completed finished⟩

end Sylar.Config.ConfigVarStatements
