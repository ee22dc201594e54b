import Sylar.Lib.Heap
import Sylar.Lib.Runs

set_option autoImplicit false

namespace Sylar.ScopedLock

open Lib (Address Heap run run_invariant along_true)

-- ReadScopedLockImpl or WriteScopedLockImpl.
inductive Mode where
  | read
  | write
deriving DecidableEq, Repr

-- RWMutex, by what pthread_rwlock keeps.
structure RWMutex where
  readers : Nat
  writer : Bool
deriving DecidableEq, Repr

namespace RWMutex

-- A call that blocks answers none.
def rdlock (mutex : RWMutex) : Option RWMutex :=
  if mutex.writer = true then none else some { mutex with readers := mutex.readers + 1 }

def wrlock (mutex : RWMutex) : Option RWMutex :=
  if mutex.writer = true ∨ mutex.readers ≠ 0 then none else some { mutex with writer := true }

def unlock (mutex : RWMutex) : RWMutex :=
  if mutex.writer = true then { mutex with writer := false } else { mutex with readers := mutex.readers - 1 }

def acquire (mutex : RWMutex) : Mode → Option RWMutex
  | .read => mutex.rdlock
  | .write => mutex.wrlock

end RWMutex

-- The members of a guard; destroy is the destructor, which is unlock.
inductive Member where
  | construct
  | lock
  | unlock
  | destroy
deriving DecidableEq, Repr

def Member.acquires : Member → Bool
  | .construct => true
  | .lock => true
  | .unlock => false
  | .destroy => false

-- The statement that comes next in a member: its test of m_locked, its call of
-- the mutex, its write of m_locked.
inductive Statement where
  | test
  | mutex
  | flag
deriving DecidableEq, Repr

structure Activity where
  thread : Nat
  member : Member
  next : Statement
deriving DecidableEq, Repr

-- m_locked is none until the constructor has written it.
structure Guard where
  mode : Mode
  locked : Option Bool
  activity : Option Activity
  destroyed : Bool
deriving DecidableEq, Repr

structure Holder where
  guard : Address
  mode : Mode
deriving DecidableEq, Repr

-- A call of RWMutex::unlock, and whether its guard held the lock.
structure UnlockCall where
  guard : Address
  held : Bool
deriving DecidableEq, Repr

-- One RWMutex with its guards. The holders are the guards whose rdlock or wrlock
-- has returned and that have not called unlock since; the code keeps no such list.
structure Shared where
  mutex : RWMutex
  guards : Heap Guard
  holders : List Holder
  unlocks : List UnlockCall

inductive Action where
  | construct (thread : Nat) (mode : Mode)
  | enter (thread : Nat) (guard : Address) (member : Member)
  | advance (guard : Address)
deriving DecidableEq, Repr

def start : Shared := ⟨⟨0, false⟩, .empty, [], []⟩

-- A thread is in one member function at a time.
def idle (shared : Shared) (thread : Nat) : Bool :=
  shared.guards.cells.all fun guard => guard.activity.all fun activity => activity.thread != thread

def put (shared : Shared) (address : Address) (guard : Guard) : Shared :=
  { shared with guards := shared.guards.modify address fun _ => guard }

namespace Guard

def goOn (guard : Guard) (activity : Activity) (next : Statement) : Guard :=
  { guard with activity := some { activity with next := next } }

def leave (guard : Guard) (member : Member) : Guard :=
  { guard with activity := none, destroyed := decide (member = .destroy) }

-- lock() goes on where m_locked is false, unlock() where it is true.
def test (guard : Guard) (activity : Activity) : Guard :=
  if guard.locked = some !activity.member.acquires then guard.goOn activity .mutex else guard.leave activity.member

def setFlag (guard : Guard) (activity : Activity) : Guard :=
  { guard with locked := some activity.member.acquires }.leave activity.member

end Guard

def callMutex (shared : Shared) (address : Address) (guard : Guard) (activity : Activity) : Option Shared :=
  if activity.member.acquires = true then
    (shared.mutex.acquire guard.mode).map fun mutex =>
      { put shared address (guard.goOn activity .flag) with
        mutex := mutex
        holders := ⟨address, guard.mode⟩ :: shared.holders }
  else
    some { put shared address (guard.goOn activity .flag) with
      mutex := shared.mutex.unlock
      holders := shared.holders.erase ⟨address, guard.mode⟩
      unlocks := shared.unlocks ++ [⟨address, decide (⟨address, guard.mode⟩ ∈ shared.holders)⟩] }

def advanceStep (shared : Shared) (address : Address) (guard : Guard) (activity : Activity) : Option Shared :=
  match activity.next with
  | .test => some (put shared address (guard.test activity))
  | .mutex => callMutex shared address guard activity
  | .flag => some (put shared address (guard.setFlag activity))

-- A thread calls a member of a guard that exists and that no thread is using.
def enterStep (shared : Shared) (thread : Nat) (address : Address) (member : Member) (guard : Guard) : Option Shared :=
  if idle shared thread = true ∧ guard.activity = none ∧ guard.destroyed = false ∧ member ≠ .construct then
    some (put shared address { guard with activity := some ⟨thread, member, .test⟩ })
  else none

def constructed (thread : Nat) (mode : Mode) : Guard := ⟨mode, none, some ⟨thread, .construct, .mutex⟩, false⟩

def step (shared : Shared) : Action → Option Shared
  | .construct thread mode =>
      if idle shared thread = true then some { shared with guards := shared.guards.alloc (constructed thread mode) } else none
  | .enter thread address member => (shared.guards.read address).bind (enterStep shared thread address member)
  | .advance address => (shared.guards.read address).bind fun guard => guard.activity.bind (advanceStep shared address guard)

def Member.found : Member → Option Bool
  | .construct => none
  | .lock => some false
  | .unlock => some true
  | .destroy => some true

-- Between the call of the mutex and the write of m_locked the member decides,
-- at any other time m_locked does.
def Guard.holds (guard : Guard) : Bool :=
  match guard.activity with
  | some ⟨_, member, .flag⟩ => member.acquires
  | _ => decide (guard.locked = some true)

structure Guard.Sound (guard : Guard) : Prop where
  tests : ∀ activity, guard.activity = some activity → activity.next = .test → activity.member ≠ .construct
  found : ∀ activity, guard.activity = some activity → activity.next ≠ .test → guard.locked = activity.member.found
  gone : guard.destroyed = true → guard.activity = none ∧ guard.locked ≠ some true

-- The lock's state counts its holders: readers, or one writer alone.
def Counts (mutex : RWMutex) (holders : List Holder) : Prop :=
  (mutex.writer = false ∧ mutex.readers = holders.length ∧ ∀ holder ∈ holders, holder.mode = .read) ∨
    (mutex.writer = true ∧ mutex.readers = 0 ∧ ∃ holder, holders = [holder] ∧ holder.mode = .write)

structure Balanced (shared : Shared) : Prop where
  sound : ∀ address guard, shared.guards.read address = some guard → guard.Sound
  nodup : shared.holders.Nodup
  holders : ∀ holder, holder ∈ shared.holders ↔
    ∃ guard, shared.guards.read holder.guard = some guard ∧ guard.mode = holder.mode ∧ guard.holds = true
  counts : Counts shared.mutex shared.holders
  unlocks : ∀ call ∈ shared.unlocks, call.held = true

section Mutex

variable (mutex next : RWMutex) (holders : List Holder) (holder : Holder)

theorem acquire_counts (counts : Counts mutex holders) (acquired : mutex.acquire holder.mode = some next) :
    Counts next (holder :: holders) := by
  cases mode : holder.mode with
  | read =>
      simp only [mode, RWMutex.acquire, RWMutex.rdlock, Option.ite_none_left_eq_some, Option.some.injEq] at acquired
      obtain ⟨free, rfl⟩ := acquired
      rcases counts with ⟨writer, readers, modes⟩ | ⟨writer, -⟩
      · refine .inl ⟨writer, by rw [readers, List.length_cons], ?_⟩
        intro found member
        rcases List.mem_cons.mp member with rfl | old
        · exact mode
        · exact modes found old
      · exact absurd writer free
  | write =>
      simp only [mode, RWMutex.acquire, RWMutex.wrlock, Option.ite_none_left_eq_some, Option.some.injEq, not_or,
        Decidable.not_not] at acquired
      obtain ⟨⟨free, none⟩, rfl⟩ := acquired
      rcases counts with ⟨-, readers, -⟩ | ⟨writer, -⟩
      · rw [none] at readers
        have empty := List.length_eq_zero_iff.mp readers.symm
        exact .inr ⟨rfl, none, holder, by rw [empty], mode⟩
      · exact absurd writer free

theorem unlock_counts (counts : Counts mutex holders) (held : holder ∈ holders) :
    Counts mutex.unlock (holders.erase holder) := by
  rcases counts with ⟨writer, readers, modes⟩ | ⟨writer, readers, alone, only, mode⟩
  · left
    rw [RWMutex.unlock, if_neg (by rw [writer]; decide)]
    refine ⟨writer, ?_, fun found member => modes found (List.mem_of_mem_erase member)⟩
    rw [List.length_erase_of_mem held, readers]
  · left
    subst only
    rw [List.mem_singleton] at held
    subst held
    rw [RWMutex.unlock, if_pos writer, List.erase_cons_head]
    exact ⟨rfl, readers, by simp⟩

end Mutex

section Guards

variable (guard : Guard) (activity : Activity)

theorem holds_of_statement (active : guard.activity = some activity) (next : activity.next ≠ .flag) :
    guard.holds = decide (guard.locked = some true) := by
  obtain ⟨thread, member, statement⟩ := activity
  cases statement with
  | flag => exact absurd rfl next
  | test => simp [Guard.holds, active]
  | mutex => simp [Guard.holds, active]

theorem holds_at_flag (active : guard.activity = some activity) (next : activity.next = .flag) :
    guard.holds = activity.member.acquires := by
  obtain ⟨thread, member, statement⟩ := activity
  cases next
  simp [Guard.holds, active]

theorem leave_holds (member : Member) : (guard.leave member).holds = decide (guard.locked = some true) := rfl

theorem leave_sound (member : Member) (free : member = .destroy → guard.locked ≠ some true) : (guard.leave member).Sound := by
  constructor
  · intro activity active
    cases active
  · intro activity active
    cases active
  · intro gone
    exact ⟨rfl, free (of_decide_eq_true gone)⟩

theorem go_on_sound (statement : Statement) (later : statement ≠ .test) (active : guard.activity = some activity)
    (sound : guard.Sound) (found : guard.locked = activity.member.found) : (guard.goOn activity statement).Sound := by
  constructor
  · intro moved same tests
    cases same
    exact absurd tests later
  · intro moved same _
    cases same
    exact found
  · intro gone
    have none := (sound.gone gone).1
    rw [active] at none
    cases none

-- A constructor does not test m_locked; every other member finds it written.
theorem found_of_test (tests : activity.member ≠ .construct) (opens : guard.locked = some !activity.member.acquires) :
    guard.locked = activity.member.found := by
  rw [opens]
  cases member : activity.member with
  | construct => exact absurd member tests
  | _ => rfl

theorem set_flag_sound : (guard.setFlag activity).Sound := by
  apply leave_sound
  intro destroys
  simp [destroys, Member.acquires]

end Guards

section Steps

variable (shared : Shared) (address : Address) (guard changed : Guard)

theorem read_put (stored : shared.guards.read address = some guard) (other : Address) :
    (put shared address changed).guards.read other = if other = address then some changed else shared.guards.read other := by
  by_cases same : other = address
  · rw [if_pos same, same, put, Heap.read_modify_here, stored, Option.map_some]
  · rw [if_neg same, put, Heap.read_modify_elsewhere _ _ _ _ same]

theorem put_sound (balanced : Balanced shared) (stored : shared.guards.read address = some guard) (sound : changed.Sound)
    (other : Address) (found : Guard) (read : (put shared address changed).guards.read other = some found) : found.Sound := by
  rw [read_put shared address guard changed stored] at read
  split at read
  · cases read
    exact sound
  · exact balanced.sound other found read

theorem put_holds (balanced : Balanced shared) (stored : shared.guards.read address = some guard)
    (mode : changed.mode = guard.mode) (holder : Holder) :
    (∃ found, (put shared address changed).guards.read holder.guard = some found ∧ found.mode = holder.mode ∧
        found.holds = true) ↔
      if holder = ⟨address, guard.mode⟩ then changed.holds = true else holder ∈ shared.holders := by
  rw [read_put shared address guard changed stored]
  obtain ⟨other, held⟩ := holder
  by_cases same : other = address
  · subst same
    by_cases equal : guard.mode = held
    · subst equal
      simp [mode]
    · have differ : held ≠ guard.mode := Ne.symm equal
      simp [mode, equal, differ, balanced.holders, stored]
  · simp [same, balanced.holders]

theorem put_balanced (balanced : Balanced shared) (stored : shared.guards.read address = some guard) (sound : changed.Sound)
    (mode : changed.mode = guard.mode) (holds : changed.holds = guard.holds) : Balanced (put shared address changed) := by
  refine ⟨put_sound shared address guard changed balanced stored sound, balanced.nodup, fun holder => ?_, balanced.counts,
    balanced.unlocks⟩
  rw [put_holds shared address guard changed balanced stored mode holder]
  split
  · rename_i same
    subst same
    rw [holds]
    simp [put, balanced.holders, stored]
  · rfl

theorem acquire_balanced (balanced : Balanced shared) (stored : shared.guards.read address = some guard)
    (sound : changed.Sound) (mode : changed.mode = guard.mode) (free : guard.holds = false) (holds : changed.holds = true)
    (mutex : RWMutex) (acquired : shared.mutex.acquire guard.mode = some mutex) :
    Balanced { put shared address changed with mutex := mutex, holders := ⟨address, guard.mode⟩ :: shared.holders } := by
  have fresh : (⟨address, guard.mode⟩ : Holder) ∉ shared.holders := by
    simp [balanced.holders, stored, free]
  refine ⟨put_sound shared address guard changed balanced stored sound, List.nodup_cons.mpr ⟨fresh, balanced.nodup⟩,
    fun holder => ?_, acquire_counts shared.mutex mutex shared.holders ⟨address, guard.mode⟩ balanced.counts acquired,
    balanced.unlocks⟩
  refine Iff.trans ?_ (put_holds shared address guard changed balanced stored mode holder).symm
  rw [List.mem_cons]
  split
  · rename_i same
    exact iff_of_true (.inl same) holds
  · rename_i differ
    exact or_iff_right differ

theorem release_balanced (balanced : Balanced shared) (stored : shared.guards.read address = some guard)
    (sound : changed.Sound) (mode : changed.mode = guard.mode) (held : guard.holds = true) (holds : changed.holds = false) :
    Balanced { put shared address changed with
      mutex := shared.mutex.unlock
      holders := shared.holders.erase ⟨address, guard.mode⟩
      unlocks := shared.unlocks ++ [⟨address, decide (⟨address, guard.mode⟩ ∈ shared.holders)⟩] } := by
  have member : (⟨address, guard.mode⟩ : Holder) ∈ shared.holders := by
    simp [balanced.holders, stored, held]
  refine ⟨put_sound shared address guard changed balanced stored sound, balanced.nodup.erase _, fun holder => ?_,
    unlock_counts shared.mutex shared.holders _ balanced.counts member, fun call called => ?_⟩
  · refine Iff.trans ?_ (put_holds shared address guard changed balanced stored mode holder).symm
    rw [balanced.nodup.mem_erase_iff]
    split
    · rename_i same
      exact iff_of_false (fun still => still.1 same) (by rw [holds]; decide)
    · rename_i differ
      exact and_iff_right differ
  · rcases List.mem_append.mp called with old | new
    · exact balanced.unlocks call old
    · rw [List.mem_singleton] at new
      subst new
      exact decide_eq_true member

theorem construct_balanced (balanced : Balanced shared) (thread : Nat) (mode : Mode) :
    Balanced { shared with guards := shared.guards.alloc (constructed thread mode) } := by
  refine ⟨fun other found read => ?_, balanced.nodup, fun holder => ?_, balanced.counts, balanced.unlocks⟩
  · by_cases fresh : other = shared.guards.size
    · subst fresh
      rw [Heap.read_alloc_fresh] at read
      cases read
      constructor <;> simp [constructed, Member.found]
    · exact balanced.sound other found (Heap.read_alloc_known _ _ _ _ fresh read)
  · rw [balanced.holders]
    by_cases fresh : holder.guard = shared.guards.size
    · rw [fresh, Heap.read_size, Heap.read_alloc_fresh]
      simp [constructed, Guard.holds]
    · constructor
      · intro ⟨found, read, same⟩
        exact ⟨found, Heap.read_alloc_keeps _ _ _ _ read, same⟩
      · intro ⟨found, read, same⟩
        exact ⟨found, Heap.read_alloc_known _ _ _ _ fresh read, same⟩

theorem enter_balanced (balanced : Balanced shared) (thread : Nat) (member : Member) (next : Shared)
    (stored : shared.guards.read address = some guard) (entered : enterStep shared thread address member guard = some next) :
    Balanced next := by
  rw [enterStep, Option.ite_none_right_eq_some, Option.some.injEq] at entered
  obtain ⟨⟨-, rests, alive, member⟩, rfl⟩ := entered
  apply put_balanced shared address guard _ balanced stored
  · constructor
    · intro activity active _
      cases active
      exact member
    · intro activity active later
      cases active
      exact absurd rfl later
    · intro gone
      rw [alive] at gone
      cases gone
  · rfl
  · simp [Guard.holds, rests]

theorem test_balanced (balanced : Balanced shared) (activity : Activity) (stored : shared.guards.read address = some guard)
    (active : guard.activity = some activity) (next : activity.next = .test) :
    Balanced (put shared address (guard.test activity)) := by
  have sound := balanced.sound address guard stored
  have tests := sound.tests activity active next
  have before := holds_of_statement guard activity active (by rw [next]; decide)
  rw [Guard.test]
  split
  · rename_i opens
    apply put_balanced shared address guard _ balanced stored
    · exact go_on_sound guard activity .mutex (by decide) active sound (found_of_test guard activity tests opens)
    · rfl
    · rw [before]
      rfl
  · rename_i shuts
    apply put_balanced shared address guard _ balanced stored
    · apply leave_sound
      intro destroys
      rw [destroys] at shuts
      exact shuts
    · rfl
    · rw [leave_holds, before]

theorem call_mutex_balanced (balanced : Balanced shared) (activity : Activity) (next : Shared)
    (stored : shared.guards.read address = some guard) (active : guard.activity = some activity)
    (calls : activity.next = .mutex) (called : callMutex shared address guard activity = some next) : Balanced next := by
  have sound := balanced.sound address guard stored
  have found := sound.found activity active (by rw [calls]; decide)
  have before := holds_of_statement guard activity active (by rw [calls]; decide)
  have soundNext := go_on_sound guard activity .flag (by decide) active sound found
  rw [callMutex] at called
  split at called
  · rename_i acquires
    obtain ⟨mutex, acquired, rfl⟩ := Option.map_eq_some_iff.mp called
    apply acquire_balanced shared address guard _ balanced stored soundNext rfl _ acquires mutex acquired
    rw [before, found]
    cases member : activity.member <;> simp_all [Member.acquires, Member.found]
  · rename_i releases
    cases called
    apply release_balanced shared address guard _ balanced stored soundNext rfl _ (Bool.eq_false_iff.mpr releases)
    rw [before, found]
    cases member : activity.member <;> simp_all [Member.acquires, Member.found]

theorem advance_balanced (balanced : Balanced shared) (activity : Activity) (next : Shared)
    (stored : shared.guards.read address = some guard) (active : guard.activity = some activity)
    (advanced : advanceStep shared address guard activity = some next) : Balanced next := by
  cases statement : activity.next with
  | test =>
      simp only [advanceStep, statement, Option.some.injEq] at advanced
      subst advanced
      exact test_balanced shared address guard balanced activity stored active statement
  | mutex =>
      simp only [advanceStep, statement] at advanced
      exact call_mutex_balanced shared address guard balanced activity next stored active statement advanced
  | flag =>
      simp only [advanceStep, statement, Option.some.injEq] at advanced
      subst advanced
      apply put_balanced shared address guard _ balanced stored (set_flag_sound guard activity) rfl
      rw [holds_at_flag guard activity active statement, Guard.setFlag, leave_holds]
      simp

theorem step_balanced (balanced : Balanced shared) (action : Action) (next : Shared)
    (stepped : step shared action = some next) : Balanced next := by
  cases action with
  | construct thread mode =>
      simp only [step, Option.ite_none_right_eq_some, Option.some.injEq] at stepped
      obtain ⟨-, rfl⟩ := stepped
      exact construct_balanced shared balanced thread mode
  | enter thread address member =>
      obtain ⟨guard, stored, entered⟩ := Option.bind_eq_some_iff.mp stepped
      exact enter_balanced shared address guard balanced thread member next stored entered
  | advance address =>
      obtain ⟨guard, stored, rest⟩ := Option.bind_eq_some_iff.mp stepped
      obtain ⟨activity, active, advanced⟩ := Option.bind_eq_some_iff.mp rest
      exact advance_balanced shared address guard balanced activity next stored active advanced

end Steps

theorem start_balanced : Balanced start := by
  refine ⟨fun address guard stored => ?_, List.nodup_nil, fun holder => ?_, .inl ⟨rfl, rfl, by simp [start]⟩, by simp [start]⟩
  · cases stored
  · simp [start]

-- What the guards keep of their lock: who holds it, that a writer is alone, that
-- only a holder calls unlock, and that the lock is free when they are gone.
structure Guarded (shared : Shared) : Prop where
  settled : ∀ address guard, shared.guards.read address = some guard →
    (∀ activity, guard.activity = some activity → activity.next ≠ .flag) →
      (⟨address, guard.mode⟩ ∈ shared.holders ↔ guard.locked = some true)
  between : ∀ address guard activity, shared.guards.read address = some guard → guard.activity = some activity →
    activity.next = .flag → (⟨address, guard.mode⟩ ∈ shared.holders ↔ activity.member.acquires = true)
  known : ∀ holder ∈ shared.holders, ∃ guard, shared.guards.read holder.guard = some guard ∧ guard.mode = holder.mode
  counts : Counts shared.mutex shared.holders
  unlocks : ∀ call ∈ shared.unlocks, call.held = true
  free : (∀ address guard, shared.guards.read address = some guard → guard.destroyed = true) →
    shared.holders = [] ∧ shared.mutex = ⟨0, false⟩

theorem balanced_guarded (shared : Shared) (balanced : Balanced shared) : Guarded shared := by
  constructor
  · intro address guard stored settled
    have holds : guard.holds = decide (guard.locked = some true) := by
      cases active : guard.activity with
      | none => simp [Guard.holds, active]
      | some activity => exact holds_of_statement guard activity active (settled activity active)
    simp [balanced.holders, stored, holds]
  · intro address guard activity stored active flag
    simp [balanced.holders, stored, holds_at_flag guard activity active flag]
  · intro holder member
    obtain ⟨guard, stored, mode, -⟩ := (balanced.holders holder).mp member
    exact ⟨guard, stored, mode⟩
  · exact balanced.counts
  · exact balanced.unlocks
  · intro gone
    have none : shared.holders = [] := by
      apply List.eq_nil_iff_forall_not_mem.mpr
      intro holder member
      obtain ⟨guard, stored, -, holds⟩ := (balanced.holders holder).mp member
      obtain ⟨rests, unlocked⟩ := (balanced.sound holder.guard guard stored).gone (gone holder.guard guard stored)
      simp [Guard.holds, rests, unlocked] at holds
    refine ⟨none, ?_⟩
    have counts := balanced.counts
    rw [none] at counts
    rcases counts with ⟨writer, readers, -⟩ | ⟨-, -, holder, only, -⟩
    · cases mutex : shared.mutex with
      | mk readersLeft writerLeft =>
          rw [mutex] at writer readers
          cases writer
          cases readers
          rfl
    · cases only

theorem guarded_throughout (schedule : List Action) (final : Shared) (completed : run step start schedule = some final) :
    Guarded final := by
  have kept (shared : Shared) (action : Action) (next : Shared) (balanced : Balanced shared) (_ : True)
      (stepped : step shared action = some next) : Balanced next := step_balanced shared balanced action next stepped
  exact balanced_guarded final (run_invariant step (fun _ _ => True) Balanced kept schedule start final start_balanced
    (along_true step start schedule) completed)

-- A reader comes and goes while a writer waits for it.
def readThenWrite : List Action :=
  [.construct 0 .read, .advance 0, .advance 0, .construct 1 .write, .enter 0 0 .destroy, .advance 0, .advance 0, .advance 0,
    .advance 1, .advance 1, .enter 1 1 .destroy, .advance 1, .advance 1, .advance 1]

theorem guarded_throughout_read_then_write : ∃ final, run step start readThenWrite = some final ∧ Guarded final :=
  ⟨_, rfl, guarded_throughout readThenWrite _ rfl⟩

-- The first writer has called the mutex's unlock and has not yet cleared its
-- m_locked when the second writer gets the lock and sets its own.
def unlockOvertaken : List Action :=
  [.construct 0 .write, .advance 0, .advance 0, .enter 0 0 .unlock, .advance 0, .advance 0, .construct 1 .write, .advance 1,
    .advance 1]

theorem both_flags_set :
    ¬ ∀ (schedule : List Action) (final : Shared), run step start schedule = some final →
      ∀ address guard, final.guards.read address = some guard →
        (⟨address, guard.mode⟩ ∈ final.holders ↔ guard.locked = some true) := by
  intro flags
  have first := (flags unlockOvertaken _ rfl 0 ⟨.write, some true, some ⟨0, .unlock, .flag⟩, false⟩ rfl).mpr rfl
  exact absurd first (by decide)

end Sylar.ScopedLock
