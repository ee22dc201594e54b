import Sylar.Lib.Runs

set_option autoImplicit false

namespace Sylar.ThreadRelease

open Lib (run run_cons run_append_some)

inductive PthreadCall where
  | join (handle : UInt64)
  | detach (handle : UInt64)
deriving DecidableEq, Repr

def PthreadCall.handle : PthreadCall → UInt64
  | .join handle => handle
  | .detach handle => handle

-- The member of class Thread that names its pthread, 0 for none.
structure Thread where
  thread : UInt64
deriving DecidableEq, Repr

structure Owned where
  object : Option Thread
  calls : List PthreadCall
deriving DecidableEq, Repr

inductive Use where
  | join
  | destroy
deriving DecidableEq, Repr

-- Thread::Thread with what pthread_create answers: its result and the handle it
-- writes to m_thread. A constructor that throws leaves no object.
def construct (rt : Int) (handle : UInt64) : Except String Owned :=
  if rt ≠ 0 then .error "pthread_create error" else .ok ⟨some ⟨handle⟩, []⟩

-- Thread::join. m_thread keeps its value.
def join (object : Thread) (calls : List PthreadCall) : Owned :=
  ⟨some object, calls ++ [.join object.thread]⟩

def destroy (object : Thread) (calls : List PthreadCall) : Owned :=
  ⟨none, if object.thread ≠ 0 then calls ++ [.detach object.thread] else calls⟩

def step (owned : Owned) (use : Use) : Option Owned :=
  owned.object.map fun object =>
    match use with
    | .join => join object owned.calls
    | .destroy => destroy object owned.calls

-- Any number of join() calls, then the destructor.
def uses (joins : Nat) : List Use := List.replicate joins .join ++ [.destroy]

def ReleasedOnce (calls : List PthreadCall) : Prop := (calls.map PthreadCall.handle).Nodup

def Released (handle : UInt64) (calls : List PthreadCall) : Prop := handle ∈ calls.map PthreadCall.handle

section Handle

variable (handle : UInt64) (joins : Nat)

theorem join_step (calls : List PthreadCall) :
    step ⟨some ⟨handle⟩, calls⟩ .join = some ⟨some ⟨handle⟩, calls ++ [.join handle]⟩ := rfl

theorem run_joins (calls : List PthreadCall) :
    run step ⟨some ⟨handle⟩, calls⟩ (List.replicate joins .join) =
      some ⟨some ⟨handle⟩, calls ++ List.replicate joins (.join handle)⟩ := by
  induction joins generalizing calls with
  | zero => simp
  | succ joins ih =>
      rw [List.replicate_succ, run_cons, join_step, Option.bind_some, ih, List.append_assoc, List.replicate_succ,
        List.singleton_append]

def callsMade (handle : UInt64) (joins : Nat) : List PthreadCall :=
  List.replicate joins (.join handle) ++ if handle ≠ 0 then [.detach handle] else []

theorem run_uses : run step ⟨some ⟨handle⟩, []⟩ (uses joins) = some ⟨none, callsMade handle joins⟩ := by
  rw [uses, run_append_some step _ _ _ _ (run_joins handle joins [])]
  by_cases zero : handle = 0
  · simp [run_cons, step, destroy, callsMade, zero]
  · simp [run_cons, step, destroy, callsMade, zero]

def callCount (handle : UInt64) (joins : Nat) : Nat := joins + if handle ≠ 0 then 1 else 0

theorem calls_made_handles :
    (callsMade handle joins).map PthreadCall.handle = List.replicate (callCount handle joins) handle := by
  by_cases zero : handle = 0
  · simp [callsMade, callCount, zero, PthreadCall.handle]
  · simp [callsMade, callCount, zero, PthreadCall.handle, List.replicate_add]

theorem released_once_iff_count : ReleasedOnce (callsMade handle joins) ↔ callCount handle joins ≤ 1 := by
  rw [ReleasedOnce, calls_made_handles, List.nodup_replicate]

theorem released_iff_count : Released handle (callsMade handle joins) ↔ 1 ≤ callCount handle joins := by
  rw [Released, calls_made_handles, List.mem_replicate, and_iff_left rfl, Nat.one_le_iff_ne_zero]

theorem call_count_one_iff : callCount handle joins = 1 ↔ handle ≠ 0 ∧ joins = 0 ∨ handle = 0 ∧ joins = 1 := by
  by_cases zero : handle = 0
  · simp [callCount, zero]
  · simp [callCount, zero]

end Handle

theorem handle_released_once_iff (rt : Int) (handle : UInt64) (joins : Nat) (created : Owned)
    (constructed : construct rt handle = .ok created) :
    ∃ final, run step created (uses joins) = some final ∧ final.object = none ∧
      (ReleasedOnce final.calls ∧ Released handle final.calls ↔ handle ≠ 0 ∧ joins = 0 ∨ handle = 0 ∧ joins = 1) := by
  rw [construct] at constructed
  split at constructed
  · cases constructed
  · cases constructed
    refine ⟨_, run_uses handle joins, rfl, ?_⟩
    rw [released_once_iff_count, released_iff_count, ← call_count_one_iff]
    exact Nat.le_antisymm_iff.symm

theorem handle_released_once_iff_detached :
    ∃ final, run step ⟨some ⟨140737348200192⟩, []⟩ (uses 0) = some final ∧ final.object = none ∧
      (ReleasedOnce final.calls ∧ Released 140737348200192 final.calls ↔
        (140737348200192 : UInt64) ≠ 0 ∧ (0 : Nat) = 0 ∨ (140737348200192 : UInt64) = 0 ∧ (0 : Nat) = 1) :=
  handle_released_once_iff 0 140737348200192 0 _ rfl

-- The use in the tests: create, join, destroy.
theorem joined_then_detached :
    ¬ ∀ (rt : Int) (handle : UInt64) (joins : Nat) (created final : Owned), construct rt handle = .ok created →
      run step created (uses joins) = some final → ReleasedOnce final.calls ∧ Released handle final.calls := by
  intro once
  have released := (once 0 140737348200192 1 _ _ rfl (run_uses 140737348200192 1)).1
  rw [released_once_iff_count] at released
  exact absurd released (by decide)

end Sylar.ThreadRelease
