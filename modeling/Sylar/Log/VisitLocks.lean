import Sylar.Log.DeadlockFree

set_option autoImplicit false

namespace Sylar.Log.VisitLocks

open Lib (Address)
open Lib.LockOrder
open LockPrograms
open Sylar.Config (ConfigType)
open Yaml (Exception YamlCpp)

variable {Ty : Type} {yaml : YamlCpp} {types : Ty → ConfigType}

section Program

variable [DecidableEq Ty]

namespace ConfigVar

def getValue (pointer : Address) : Code yaml types Unit :=
  .guarded (.configVar pointer) .shared (ignore (.read fun world => world.vars.read pointer))

def delListenner (tag : Option Ty) (pointer : Address) (key : Nat) : Code yaml types Unit :=
  .guarded (.configVar pointer) .exclusive
    (LockPrograms.ConfigVar.modify tag pointer fun var => { var with cbs := var.cbs.erase key })

def clearListener (tag : Option Ty) (pointer : Address) : Code yaml types Unit :=
  .guarded (.configVar pointer) .exclusive (LockPrograms.ConfigVar.modify tag pointer fun var => { var with cbs := ∅ })

end ConfigVar

-- What may be done with a variable, also by a callback of Visit; log is a line
-- to the root logger.
inductive VarCall (yaml : YamlCpp) (types : Ty → ConfigType) where
  | toString
  | fromString (text : String)
  | getValue
  | setValue (tag : Option Ty) (new : (typeOf yaml types tag).Val)
  | addListener
  | delListenner (tag : Option Ty) (key : Nat)
  | clearListener (tag : Option Ty)
  | log (level : Level)

variable (toStr : ∀ tag, (typeOf yaml types tag).Val → Except Exception String)

def perform (pointer : Address) : VarCall yaml types → Code yaml types Unit
  | .toString => LockPrograms.ConfigVar.toString toStr pointer
  | .fromString text => LockPrograms.ConfigVar.fromString pointer text
  | .getValue => ConfigVar.getValue pointer
  | .setValue tag new => LockPrograms.ConfigVar.setValue tag pointer new
  | .addListener => LockPrograms.ConfigVar.addListener pointer
  | .delListenner tag key => ConfigVar.delListenner tag pointer key
  | .clearListener tag => ConfigVar.clearListener tag pointer
  | .log level => logRoot level

-- Config::Visit: the callback runs for one variable after another, in the order
-- of their names, while the read lock of the registry is held.
def visit (cb : Address → List (VarCall yaml types)) : Code yaml types Unit :=
  .guarded .registry .shared do
    let vars ← .read fun world => world.datas.toList.map Prod.snd
    .forEach (fun pointer => .forEach (perform toStr pointer) (cb pointer)) vars

inductive Call (yaml : YamlCpp) (types : Ty → ConfigType) where
  | usual (call : LockPrograms.Call yaml types)
  | var (pointer : Address) (call : VarCall yaml types)
  | visit (cb : Address → List (VarCall yaml types))

def program : Call yaml types → Code yaml types Unit
  | .usual call => LockPrograms.program toStr call
  | .var pointer call => perform toStr pointer call
  | .visit cb => visit toStr cb

def possible (world : World yaml types) : Call yaml types → Bool
  | .usual call => LockPrograms.possible world call
  | .var pointer _ => pointer < world.vars.size
  | .visit _ => true

end Program

-- As before, with the registry above the variables.
def rank (root : Address) : Lock → Nat
  | .registry => 5
  | lock => LockPrograms.rank root lock

theorem rank_finer (root : Address) (low high : Lock) (less : LockPrograms.rank root low < LockPrograms.rank root high) :
    rank root low < rank root high := by
  have top (lock : Lock) : LockPrograms.rank root lock ≤ 4 := by
    cases lock with
    | logger logger => exact Nat.le_trans (rank_logger_le root logger) (by decide)
    | registry | configVar | manager | appender => simp [LockPrograms.rank]
  cases low with
  | registry => exact absurd less (Nat.not_lt.mpr (top high))
  | configVar pointer => exact absurd less (Nat.not_lt.mpr (top high))
  | manager | logger low | appender low =>
      cases high with
      | registry => exact Nat.lt_trans less (Nat.lt_succ_self 4)
      | configVar | manager | logger | appender => exact less

abbrev Safe {α : Type} (root : Address) (held : List Lock) (code : Code yaml types α) (post : α → Prop) : Prop :=
  Nests (Rooted root) (rank root) held code post

theorem safe_finer {α : Type} (root : Address) (held : List Lock) (code : Code yaml types α) (post : α → Prop)
    (safe : LockPrograms.Safe root held code post) : Safe root held code post :=
  descends_finer (rank root) (rank_finer root) code held _ safe

section Nesting

variable (root : Address) (held : List Lock) (within : ∀ lock ∈ held, lock = .registry)
include within

-- Called from Visit or from anywhere else.
theorem below_var (pointer : Address) : ∀ other ∈ held, rank root (.configVar pointer) < rank root other := by
  intro other member
  rw [within other member]
  exact Nat.lt_succ_self 4

theorem above_within (bound : Nat) (less : bound < 4) : Above root bound held := by
  intro other member
  rw [within other member]
  exact less

theorem above_var (bound : Nat) (less : bound < 4) (pointer : Address) : Above root bound (.configVar pointer :: held) :=
  above_cons root bound _ held less (above_within root held within bound less)

theorem safe_log_root (level : Level) : Safe root held (logRoot level : Code yaml types Unit) fun _ => True :=
  safe_finer root held _ _ (nests_log_root root held (above_within root held within 1 (by decide)) level)

theorem safe_locked {α : Type} (pointer : Address) (mode : Mode) (body : Code yaml types α)
    (inner : Safe root (.configVar pointer :: held) body fun _ => True) :
    Safe root held (.guarded (.configVar pointer) mode body) fun _ => True :=
  nests_guarded held _ _ _ _ (below_var root held within pointer) inner

variable [DecidableEq Ty] (toStr : ∀ tag, (typeOf yaml types tag).Val → Except Exception String)

theorem safe_modify_var (tag : Option Ty) (pointer : Address) (mode : Mode)
    (update : Variable (typeOf yaml types tag).Val → Variable (typeOf yaml types tag).Val) :
    Safe root held (.guarded (.configVar pointer) mode (LockPrograms.ConfigVar.modify tag pointer update : Code yaml types Unit))
      fun _ => True :=
  safe_locked root held within pointer mode _ (safe_finer root _ _ _ (nests_modify_var root _ tag pointer update))

-- The listeners run under the variable's read lock, and under the registry's in a Visit.
theorem safe_notify (tag : Option Ty) (pointer : Address) (new : (typeOf yaml types tag).Val) :
    Safe root held (LockPrograms.ConfigVar.notify tag pointer new : Code yaml types Bool) fun _ => True := by
  have inside := above_var root held within 2 (by decide) pointer
  refine safe_locked root held within pointer _ _ (safe_finer root _ _ _ ?_)
  refine nests_then _ _ _ _ (nests_look root _ _) fun found => ?_
  split
  · exact nests_pure _ _ _ trivial
  · split
    · exact nests_pure _ _ _ trivial
    · exact nests_then _ _ _ _ (nests_for_each _ _ _ fun key _ => nests_on_change root _ inside tag _ new) fun _ =>
        nests_pure _ _ _ trivial

theorem safe_set_value (tag : Option Ty) (pointer : Address) (new : (typeOf yaml types tag).Val) :
    Safe root held (LockPrograms.ConfigVar.setValue tag pointer new : Code yaml types Unit) fun _ => True := by
  refine nests_then held _ _ _ (safe_notify root held within tag pointer new) fun changed => ?_
  split
  · exact safe_modify_var root held within tag pointer _ _
  · exact nests_pure held () _ trivial

theorem safe_perform (pointer : Address) (call : VarCall yaml types) :
    Safe root held (perform toStr pointer call) fun _ => True := by
  cases call with
  | toString =>
      refine nests_then held _ _ _ (safe_locked root held within pointer _ _
        (safe_finer root _ _ _ (nests_look root _ _))) fun converted => ?_
      split
      · exact safe_log_root root held within .error
      · exact nests_pure held () _ trivial
  | fromString text =>
      refine nests_then held _ _ _ (safe_finer root _ _ _ (nests_look root held _)) fun found => ?_
      split
      · exact nests_pure held () _ trivial
      · split
        · exact safe_log_root root held within .error
        · exact safe_set_value root held within _ pointer _
  | getValue =>
      refine safe_locked root held within pointer _ _ (nests_then _ _ _ _ ?_ fun _ => nests_pure _ () _ trivial)
      exact safe_finer root _ _ _ (nests_look root _ _)
  | setValue tag new => exact safe_set_value root held within tag pointer new
  | addListener =>
      refine safe_locked root held within pointer _ _ (safe_finer root _ _ _ ?_)
      refine nests_then _ _ _ _ (nests_modify _ _ fun world rooted => ⟨rooted.own, rooted.there, rooted.falls⟩) fun _ => ?_
      exact nests_then _ _ _ _ (nests_look root _ _) fun key => nests_modify_var root _ none pointer _
  | delListenner tag key => exact safe_modify_var root held within tag pointer _ _
  | clearListener tag => exact safe_modify_var root held within tag pointer _ _
  | log level => exact safe_log_root root held within level

end Nesting

section Threads

variable [DecidableEq Ty] (toStr : ∀ tag, (typeOf yaml types tag).Val → Except Exception String)

theorem safe_program (root : Address) (call : Call yaml types) : Safe root [] (program toStr call) fun _ => True := by
  cases call with
  | usual call => exact safe_finer root [] _ _ (nests_program toStr root call)
  | var pointer call => exact safe_perform root [] (by simp) toStr pointer call
  | visit cb =>
      refine nests_guarded [] _ _ _ _ (by simp) (nests_then _ _ _ _ (safe_finer root _ _ _ (nests_look root _ _)) fun vars => ?_)
      refine nests_for_each _ _ _ fun pointer _ => nests_for_each _ _ _ fun call _ => ?_
      exact safe_perform root [.registry] (by simp) toStr pointer call

-- With Visit and its callbacks among the calls it is still true that no thread
-- waits for itself or in a circle, and that someone can always go on.
theorem visit_deadlock_free (count : Nat) (schedule : List (Action (Call yaml types))) (final : State (World yaml types) Lock)
    (completed : Lib.run (step possible (program toStr)) (idle (start yaml types) count) schedule = some final) :
    (∀ thread ∈ final.threads, ∀ lock mode, thread.awaits = some (lock, mode) →
      ∀ taken ∈ thread.held, rank 0 lock < rank 0 taken.1) ∧
      (∀ index, ¬ Relation.TransGen (Waits final.threads) index index) ∧
      ∀ thread ∈ final.threads, thread.awaits ≠ none → ∃ current ∈ final.threads,
        (move final.world final.threads current).isSome ∨ current.prog = .halt := by
  have ordered := ordered_run (Rooted 0) (rank 0) possible (program toStr) (safe_program toStr 0) (start yaml types) count
    start_rooted schedule final completed
  refine ⟨awaits_below (Rooted 0) (rank 0) final ordered, no_wait_cycle (Rooted 0) (rank 0) final ordered, ?_⟩
  intro thread member waiting
  obtain ⟨⟨lock, mode⟩, awaited⟩ := Option.ne_none_iff_exists'.mp waiting
  exact some_thread_moves (Rooted 0) (rank 0) final ordered thread member lock mode awaited

-- Thread 0 is in the callback for the one variable, holding the registry;
-- thread 1 wants to register another.
def visitingCalls : List (Action (Call nullYaml (Empty.elim : Empty → ConfigType))) :=
  [.start 0 (.usual (.lookup none "logs" LogDefineSet.empty "")), .move 0, .move 0, .move 0, .move 0,
    .start 0 (.visit fun _ => [.toString, .log .info]), .move 0, .move 0, .move 0,
    .start 1 (.usual (.lookup none "other" LogDefineSet.empty ""))]

theorem visit_deadlock_free_visiting : ∃ final,
    Lib.run (step possible (program nullText)) (idle (start nullYaml Empty.elim) 2) visitingCalls = some final ∧
      Waits final.threads 1 0 ∧ ¬ Relation.TransGen (Waits final.threads) 1 1 := by
  have completed :
      Lib.run (step possible (program nullText)) (idle (start nullYaml Empty.elim) 2) visitingCalls = some _ := rfl
  refine ⟨_, completed, ?_, (visit_deadlock_free nullText 2 visitingCalls _ completed).2.1 1⟩
  exact ⟨_, _, .registry, .exclusive, rfl, rfl, rfl, .inl ⟨.shared, by simp⟩⟩

end Threads

end Sylar.Log.VisitLocks
