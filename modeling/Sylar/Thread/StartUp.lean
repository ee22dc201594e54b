import Sylar.Lib.Heap
import Sylar.Lib.Runs

set_option autoImplicit false

namespace Sylar.ThreadStart

open Lib (Address Heap run)

-- An empty std::function is none.
structure Thread (Cb : Type) where
  id : Int
  cb : Option Cb
  name : String
  semaphore : Nat
deriving DecidableEq, Repr

inductive Statement where
  | setThis
  | setName
  | setId
  | setOsName
  | swapCb
  | notify
  | call
  | finished
deriving DecidableEq, Repr

structure Child (Cb : Type) where
  tid : Int
  this : Option Address
  name : String
  osName : List UInt8
  cb : Option Cb
  next : Statement
deriving DecidableEq, Repr

-- lateAccess is set when run uses the object after the constructor has
-- returned or after the object is gone.
structure Creation (Cb : Type) where
  object : Option (Thread Cb)
  returned : Bool
  child : Child Cb
  givenCb : Cb
  givenName : String
  lateAccess : Bool
deriving DecidableEq, Repr

structure Invocation (Cb : Type) where
  child : Address
  cb : Cb
  this : Option Address
  name : String
deriving DecidableEq, Repr

structure System (Cb : Type) where
  creations : Heap (Creation Cb)
  invocations : List (Invocation Cb)

inductive Action (Cb : Type) where
  | construct (cb : Cb) (name : String) (tid : Int)
  | wait (thread : Address)
  | run (thread : Address)
  | destroy (thread : Address)
deriving DecidableEq, Repr

section StartUp

variable {Cb : Type}

def start : System Cb := ⟨.empty, []⟩

-- substr(0, 15) counts bytes, and a C string ends at the first zero among them.
def systemName (name : String) : List UInt8 := (name.toUTF8.data.toList.take 15).takeWhile (· ≠ 0)

def constructedName (name : String) : String := if name.isEmpty then "UNKNOW" else name

def construct (cb : Cb) (name : String) (tid : Int) : Creation Cb where
  object := some ⟨-1, some cb, constructedName name, 0⟩
  returned := false
  child := ⟨tid, none, "UNKNOW", [], none, .setThis⟩
  givenCb := cb
  givenName := name
  lateAccess := false

def access (creation : Creation Cb) (statement : Thread Cb → Thread Cb × Child Cb) : Creation Cb :=
  match creation.object with
  | none => { creation with lateAccess := true }
  | some object =>
      { creation with
        object := some (statement object).1
        child := (statement object).2
        lateAccess := creation.lateAccess || creation.returned }

-- The callback is one call here; what it does to other threads are actions of
-- its own.
def runStatement (thread : Address) (creation : Creation Cb) : Option (Creation Cb × List (Invocation Cb)) :=
  let child := creation.child
  match child.next with
  | .setThis => some ({ creation with child := { child with this := some thread, next := .setName } }, [])
  | .setName =>
      some (access creation fun object => (object, { child with name := object.name, next := .setId }), [])
  | .setId =>
      some (access creation fun object => ({ object with id := child.tid }, { child with next := .setOsName }), [])
  | .setOsName =>
      some (access creation fun object =>
        (object, { child with osName := systemName object.name, next := .swapCb }), [])
  | .swapCb =>
      some (access creation fun object =>
        ({ object with cb := child.cb }, { child with cb := object.cb, next := .notify }), [])
  | .notify =>
      some (access creation fun object =>
        ({ object with semaphore := object.semaphore + 1 }, { child with next := .call }), [])
  | .call =>
      child.cb.map fun cb =>
        ({ creation with child := { child with next := .finished } }, [⟨thread, cb, child.this, child.name⟩])
  | .finished => none

def waitStep (creation : Creation Cb) : Option (Creation Cb) :=
  if creation.returned then none
  else
    match creation.object with
    | none => none
    | some object =>
        if object.semaphore = 0 then none
        else some { creation with object := some { object with semaphore := object.semaphore - 1 }, returned := true }

-- The owner may destroy the object as soon as the constructor has returned.
def destroyStep (creation : Creation Cb) : Option (Creation Cb) :=
  if creation.returned && creation.object.isSome then some { creation with object := none } else none

def replace (system : System Cb) (thread : Address) (creation : Creation Cb) (called : List (Invocation Cb)) : System Cb :=
  ⟨system.creations.modify thread fun _ => creation, system.invocations ++ called⟩

def step (system : System Cb) : Action Cb → Option (System Cb)
  | .construct cb name tid => some { system with creations := system.creations.alloc (construct cb name tid) }
  | .wait thread => (system.creations.read thread).bind fun creation =>
      (waitStep creation).map fun next => replace system thread next []
  | .run thread => (system.creations.read thread).bind fun creation =>
      (runStatement thread creation).map fun next => replace system thread next.1 next.2
  | .destroy thread => (system.creations.read thread).bind fun creation =>
      (destroyStep creation).map fun next => replace system thread next []

def Statement.rank : Statement → Nat
  | .setThis => 0
  | .setName => 1
  | .setId => 2
  | .setOsName => 3
  | .swapCb => 4
  | .notify => 5
  | .call => 6
  | .finished => 7

def Statement.past (next : Statement) : Bool := 5 < next.rank

structure Sound (thread : Address) (creation : Creation Cb) : Prop where
  present : creation.returned = false → creation.object.isSome
  ahead : creation.child.next.past = false → creation.returned = false
  count : ∀ object, creation.object = some object →
    object.semaphore = if creation.child.next.past && !creation.returned then 1 else 0
  name : ∀ object, creation.object = some object → object.name = constructedName creation.givenName
  this : 0 < creation.child.next.rank → creation.child.this = some thread
  ownName : 1 < creation.child.next.rank → creation.child.name = constructedName creation.givenName
  id : 2 < creation.child.next.rank → ∀ object, creation.object = some object → object.id = creation.child.tid
  waiting : creation.child.next.rank ≤ 4 →
    creation.child.cb = none ∧ ∀ object, creation.object = some object → object.cb = some creation.givenCb
  taken : 4 < creation.child.next.rank →
    creation.child.cb = some creation.givenCb ∧ ∀ object, creation.object = some object → object.cb = none
  onTime : creation.lateAccess = false

def calls (thread : Address) (creation : Creation Cb) : List (Invocation Cb) :=
  if creation.child.next = .finished then
    [⟨thread, creation.givenCb, some thread, constructedName creation.givenName⟩]
  else []

section Statements

variable (thread : Address) (creation next : Creation Cb) (called : List (Invocation Cb))

theorem construct_sound (cb : Cb) (name : String) (tid : Int) : Sound thread (construct cb name tid) := by
  constructor <;> simp [construct, Statement.rank, Statement.past]

theorem access_early (sound : Sound thread creation) (early : creation.child.next.past = false)
    (statement : Thread Cb → Thread Cb × Child Cb) :
    ∃ object, creation.object = some object ∧ creation.returned = false ∧
      access creation statement = { creation with object := some (statement object).1, child := (statement object).2 } := by
  have waits := sound.ahead early
  obtain ⟨object, present⟩ := Option.isSome_iff_exists.mp (sound.present waits)
  refine ⟨object, present, waits, ?_⟩
  simp [access, present, waits]

theorem access_sound (sound : Sound thread creation) (early : creation.child.next.past = false)
    (statement : Thread Cb → Thread Cb × Child Cb) (ran : runStatement thread creation = some (access creation statement, []))
    (stepped : runStatement thread creation = some (next, called))
    (kept : ∀ object, creation.object = some object → creation.returned = false →
      Sound thread { creation with object := some (statement object).1, child := (statement object).2 } ∧
        (statement object).2.next ≠ .finished) :
    Sound thread next ∧ calls thread next = calls thread creation ++ called ∧
      next.givenCb = creation.givenCb ∧ next.givenName = creation.givenName := by
  obtain ⟨object, stored, waits, accessed⟩ := access_early thread creation sound early statement
  obtain ⟨soundNext, unfinished⟩ := kept object stored waits
  rw [ran, accessed, Option.some.injEq, Prod.mk.injEq] at stepped
  obtain ⟨rfl, rfl⟩ := stepped
  have before : creation.child.next ≠ .finished := by
    intro finished
    rw [finished] at early
    cases early
  refine ⟨soundNext, ?_, rfl, rfl⟩
  rw [calls, calls, if_neg unfinished, if_neg before]
  rfl

theorem statement_sound (sound : Sound thread creation) (stepped : runStatement thread creation = some (next, called)) :
    Sound thread next ∧ calls thread next = calls thread creation ++ called ∧
      next.givenCb = creation.givenCb ∧ next.givenName = creation.givenName := by
  obtain ⟨present, ahead, count, name, this, ownName, id, waiting, taken, onTime⟩ := id sound
  cases here : creation.child.next with
  | setThis =>
      simp only [runStatement, here, Option.some.injEq, Prod.mk.injEq] at stepped
      obtain ⟨rfl, rfl⟩ := stepped
      refine ⟨?_, by simp [calls, here], rfl, rfl⟩
      constructor <;> simp_all [Statement.rank, Statement.past]
  | setName =>
      refine access_sound thread creation next called sound (by rw [here]; rfl) _ (by rw [runStatement, here])
        stepped fun object stored waits => ⟨?_, by simp⟩
      constructor <;> simp_all [Statement.rank, Statement.past]
  | setId =>
      refine access_sound thread creation next called sound (by rw [here]; rfl) _ (by rw [runStatement, here])
        stepped fun object stored waits => ⟨?_, by simp⟩
      constructor <;> simp_all [Statement.rank, Statement.past]
  | setOsName =>
      refine access_sound thread creation next called sound (by rw [here]; rfl) _ (by rw [runStatement, here])
        stepped fun object stored waits => ⟨?_, by simp⟩
      constructor <;> simp_all [Statement.rank, Statement.past]
  | swapCb =>
      refine access_sound thread creation next called sound (by rw [here]; rfl) _ (by rw [runStatement, here])
        stepped fun object stored waits => ⟨?_, by simp⟩
      constructor <;> simp_all [Statement.rank, Statement.past]
  | notify =>
      refine access_sound thread creation next called sound (by rw [here]; rfl) _ (by rw [runStatement, here])
        stepped fun object stored waits => ⟨?_, by simp⟩
      constructor <;> simp_all [Statement.rank, Statement.past]
  | call =>
      simp only [runStatement, here, Option.map_eq_some_iff, Prod.mk.injEq] at stepped
      obtain ⟨cb, held, rfl, rfl⟩ := stepped
      refine ⟨?_, by simp_all [calls, Statement.rank], rfl, rfl⟩
      constructor <;> simp_all [Statement.rank, Statement.past]
  | finished =>
      simp only [runStatement, here] at stepped
      cases stepped

theorem wait_sound (sound : Sound thread creation) (stepped : waitStep creation = some next) :
    Sound thread next ∧ next.child = creation.child ∧ next.givenCb = creation.givenCb ∧ next.givenName = creation.givenName ∧
      creation.child.next.past = true := by
  obtain ⟨present, ahead, count, name, this, ownName, id, waiting, taken, onTime⟩ := id sound
  rw [waitStep] at stepped
  split at stepped
  · cases stepped
  · rename_i waits
    split at stepped
    · cases stepped
    · rename_i object stored
      split at stepped
      · cases stepped
      · rename_i signalled
        cases stepped
        have past : creation.child.next.past = true := by
          by_contra early
          rw [count object stored] at signalled
          simp [early] at signalled
        refine ⟨?_, rfl, rfl, rfl, past⟩
        constructor <;> simp_all

theorem destroy_sound (sound : Sound thread creation) (stepped : destroyStep creation = some next) :
    Sound thread next ∧ next.child = creation.child ∧ next.givenCb = creation.givenCb ∧ next.givenName = creation.givenName := by
  obtain ⟨present, ahead, count, name, this, ownName, id, waiting, taken, onTime⟩ := id sound
  simp only [destroyStep, Option.ite_none_right_eq_some, Bool.and_eq_true] at stepped
  obtain ⟨⟨returned, -⟩, made⟩ := stepped
  cases made
  refine ⟨?_, rfl, rfl, rfl⟩
  constructor <;> simp_all

theorem access_raises (sound : Sound thread creation) (early : creation.child.next.past = false)
    (statement : Thread Cb → Thread Cb × Child Cb) (ran : runStatement thread creation = some (access creation statement, []))
    (raised : ∀ object, (statement object).2.next.rank = creation.child.next.rank + 1) :
    ∃ changed calling, runStatement thread creation = some (changed, calling) ∧
      changed.child.next.rank = creation.child.next.rank + 1 ∧ changed.returned = creation.returned := by
  obtain ⟨object, -, -, accessed⟩ := access_early thread creation sound early statement
  refine ⟨_, _, ran, ?_, ?_⟩
  · rw [accessed]
    exact raised object
  · rw [accessed]

theorem statement_raises (sound : Sound thread creation) (unfinished : creation.child.next ≠ .finished) :
    ∃ changed calling, runStatement thread creation = some (changed, calling) ∧
      changed.child.next.rank = creation.child.next.rank + 1 ∧ changed.returned = creation.returned := by
  cases here : creation.child.next with
  | setThis =>
      exact ⟨{ creation with child := { creation.child with this := some thread, next := .setName } }, [],
        by simp only [runStatement, here], rfl, rfl⟩
  | call =>
      have held := (sound.taken (by rw [here]; decide)).1
      exact ⟨{ creation with child := { creation.child with next := .finished } },
        [⟨thread, creation.givenCb, creation.child.this, creation.child.name⟩],
        by simp only [runStatement, here, held, Option.map_some], rfl, rfl⟩
  | finished => exact absurd here unfinished
  | _ =>
      rw [← here]
      exact access_raises thread creation sound (by rw [here]; rfl) _ (by rw [runStatement, here])
        fun object => by rw [here]; rfl

theorem notified_returns (sound : Sound thread creation) (past : creation.child.next.past = true)
    (waits : creation.returned = false) :
    ∃ changed, waitStep creation = some changed ∧ changed.child = creation.child ∧ changed.returned = true := by
  obtain ⟨object, stored⟩ := Option.isSome_iff_exists.mp (sound.present waits)
  have count := sound.count object stored
  simp only [past, waits, Bool.not_false, Bool.and_self, if_true] at count
  simp [waitStep, waits, stored, count]

end Statements

def callsOf (thread : Address) (invocations : List (Invocation Cb)) : List (Invocation Cb) :=
  invocations.filter fun invocation => invocation.child = thread

structure Consistent (system : System Cb) : Prop where
  sound : ∀ thread creation, system.creations.read thread = some creation → Sound thread creation
  called : ∀ thread creation, system.creations.read thread = some creation →
    callsOf thread system.invocations = calls thread creation
  known : ∀ invocation ∈ system.invocations, invocation.child < system.creations.size

section Runs

variable (system next : System Cb)

theorem calls_of_append (thread : Address) (before after : List (Invocation Cb)) :
    callsOf thread (before ++ after) = callsOf thread before ++ callsOf thread after := List.filter_append ..

theorem calls_of_unknown (thread : Address) (invocations : List (Invocation Cb))
    (none : ∀ invocation ∈ invocations, invocation.child ≠ thread) : callsOf thread invocations = [] := by
  simpa [callsOf, List.filter_eq_nil_iff] using none

theorem replace_consistent (consistent : Consistent system) (thread : Address) (creation changed : Creation Cb)
    (called : List (Invocation Cb)) (here : system.creations.read thread = some creation) (sound : Sound thread changed)
    (made : calls thread changed = calls thread creation ++ called) (own : ∀ invocation ∈ called, invocation.child = thread) :
    Consistent (replace system thread changed called) := by
  have same : (replace system thread changed called).creations.read thread = some changed := by
    simp only [replace, Heap.read_modify_here, here, Option.map_some]
  have others (other : Address) (different : other ≠ thread) :
      (replace system thread changed called).creations.read other = system.creations.read other :=
    Heap.read_modify_elsewhere _ _ _ _ different
  refine ⟨fun other found stored => ?_, fun other found stored => ?_, fun invocation member => ?_⟩
  · by_cases equal : other = thread
    · subst equal
      rw [same] at stored
      cases stored
      exact sound
    · rw [others other equal] at stored
      exact consistent.sound other found stored
  · rw [replace, calls_of_append]
    by_cases equal : other = thread
    · subst equal
      rw [same] at stored
      cases stored
      have all : callsOf other called = called := List.filter_eq_self.mpr (by simpa using own)
      rw [consistent.called other creation here, made, all]
    · rw [others other equal] at stored
      rw [calls_of_unknown other called (fun invocation member => by rw [own invocation member]; exact Ne.symm equal),
        List.append_nil]
      exact consistent.called other found stored
  · simp only [replace, Heap.size_modify]
    rcases List.mem_append.mp member with old | new
    · exact consistent.known invocation old
    · rw [own invocation new]
      exact Heap.read_bound _ _ _ here

theorem construct_consistent (consistent : Consistent system) (cb : Cb) (name : String) (tid : Int) :
    Consistent { system with creations := system.creations.alloc (construct cb name tid) } := by
  refine ⟨fun thread creation stored => ?_, fun thread creation stored => ?_, fun invocation member => ?_⟩
  · by_cases fresh : thread = system.creations.size
    · subst fresh
      rw [Heap.read_alloc_fresh] at stored
      cases stored
      exact construct_sound _ cb name tid
    · exact consistent.sound thread creation (Heap.read_alloc_known _ _ _ _ fresh stored)
  · by_cases fresh : thread = system.creations.size
    · subst fresh
      rw [Heap.read_alloc_fresh] at stored
      cases stored
      exact calls_of_unknown _ _ fun invocation member => Nat.ne_of_lt (consistent.known invocation member)
    · exact consistent.called thread creation (Heap.read_alloc_known _ _ _ _ fresh stored)
  · rw [Heap.size_alloc]
    exact Nat.lt_succ_of_lt (consistent.known invocation member)

theorem statement_own (thread : Address) (creation changed : Creation Cb) (called : List (Invocation Cb))
    (stepped : runStatement thread creation = some (changed, called)) : ∀ invocation ∈ called, invocation.child = thread := by
  rw [runStatement] at stepped
  split at stepped
  case h_7 =>
    obtain ⟨cb, -, made⟩ := Option.map_eq_some_iff.mp stepped
    cases made
    simp
  case h_8 => cases stepped
  all_goals
    cases stepped
    simp

theorem step_consistent (consistent : Consistent system) (action : Action Cb) (stepped : step system action = some next) :
    Consistent next := by
  cases action with
  | construct cb name tid =>
      cases stepped
      exact construct_consistent system consistent cb name tid
  | wait thread =>
      obtain ⟨creation, here, waited⟩ := Option.bind_eq_some_iff.mp stepped
      obtain ⟨changed, waitStepped, rfl⟩ := Option.map_eq_some_iff.mp waited
      obtain ⟨sound, child, cb, name, -⟩ := wait_sound thread creation changed (consistent.sound thread creation here) waitStepped
      exact replace_consistent system consistent thread creation changed [] here sound
        (by rw [calls, calls, child, cb, name, List.append_nil]) (by simp)
  | run thread =>
      obtain ⟨creation, here, ran⟩ := Option.bind_eq_some_iff.mp stepped
      obtain ⟨⟨changed, called⟩, statement, rfl⟩ := Option.map_eq_some_iff.mp ran
      obtain ⟨sound, made, -, -⟩ := statement_sound thread creation changed called (consistent.sound thread creation here) statement
      exact replace_consistent system consistent thread creation changed called here sound made
        (statement_own thread creation changed called statement)
  | destroy thread =>
      obtain ⟨creation, here, destroyed⟩ := Option.bind_eq_some_iff.mp stepped
      obtain ⟨changed, destroyStepped, rfl⟩ := Option.map_eq_some_iff.mp destroyed
      obtain ⟨sound, child, cb, name⟩ := destroy_sound thread creation changed (consistent.sound thread creation here) destroyStepped
      exact replace_consistent system consistent thread creation changed [] here sound
        (by rw [calls, calls, child, cb, name, List.append_nil]) (by simp)

theorem replace_here (thread : Address) (creation changed : Creation Cb) (called : List (Invocation Cb))
    (here : system.creations.read thread = some creation) :
    (replace system thread changed called).creations.read thread = some changed := by
  simp only [replace, Heap.read_modify_here, here, Option.map_some]

theorem run_advances (consistent : Consistent system) (thread : Address) (creation : Creation Cb)
    (here : system.creations.read thread = some creation) (unfinished : creation.child.next ≠ .finished) :
    ∃ after later, step system (.run thread) = some after ∧ after.creations.read thread = some later ∧
      later.child.next.rank = creation.child.next.rank + 1 ∧ later.returned = creation.returned ∧
      ∀ other, other ≠ thread → after.creations.read other = system.creations.read other := by
  obtain ⟨changed, calling, ran, raised, returned⟩ :=
    statement_raises thread creation (consistent.sound thread creation here) unfinished
  exact ⟨replace system thread changed calling, changed, by rw [step, here, Option.bind_some, ran]; rfl,
    replace_here system thread creation changed calling here, raised, returned,
    fun other apart => Heap.read_modify_elsewhere _ _ _ _ apart⟩

theorem wait_returns (consistent : Consistent system) (thread : Address) (creation : Creation Cb)
    (here : system.creations.read thread = some creation) (past : creation.child.next.past = true)
    (waits : creation.returned = false) :
    ∃ after later, step system (.wait thread) = some after ∧ after.creations.read thread = some later ∧
      later.child = creation.child ∧ later.returned = true ∧
      ∀ other, other ≠ thread → after.creations.read other = system.creations.read other := by
  obtain ⟨changed, waited, child, returned⟩ :=
    notified_returns thread creation (consistent.sound thread creation here) past waits
  exact ⟨replace system thread changed [], changed, by rw [step, here, Option.bind_some, waited]; rfl,
    replace_here system thread creation changed [] here, child, returned,
    fun other apart => Heap.read_modify_elsewhere _ _ _ _ apart⟩

def left (thread : Address) : Nat :=
  match system.creations.read thread with
  | none => 0
  | some creation => 7 - creation.child.next.rank + if creation.returned then 0 else 1

theorem Statement.finished_iff (next : Statement) : next = .finished ↔ next.rank = 7 := by
  cases next <;> simp [Statement.rank]

theorem rank_le (next : Statement) : next.rank ≤ 7 := by
  cases next <;> simp [Statement.rank]

theorem left_elsewhere (after : System Cb) (other : Address)
    (same : after.creations.read other = system.creations.read other) : left after other = left system other := by
  rw [left, left, same]

theorem left_zero (thread : Address) (creation : Creation Cb) (here : system.creations.read thread = some creation) :
    left system thread = 0 ↔ creation.child.next = .finished ∧ creation.returned = true := by
  have bound := rank_le creation.child.next
  simp only [Statement.finished_iff, left, here]
  cases returned : creation.returned with
  | false => simp
  | true =>
      simp only [if_true, and_true]
      omega

theorem thread_moves (consistent : Consistent system) (thread : Address) (unfinished : left system thread ≠ 0) :
    ∃ action after, step system action = some after ∧ left after thread < left system thread ∧
      ∀ other, left after other ≤ left system other := by
  obtain ⟨creation, here⟩ : ∃ creation, system.creations.read thread = some creation := by
    cases stored : system.creations.read thread with
    | none => exact absurd (by rw [left, stored]) unfinished
    | some creation => exact ⟨creation, rfl⟩
  have least (after : System Cb) (less : left after thread < left system thread)
      (others : ∀ other, other ≠ thread → after.creations.read other = system.creations.read other) (other : Address) :
      left after other ≤ left system other := by
    by_cases same : other = thread
    · rw [same]
      exact Nat.le_of_lt less
    · exact Nat.le_of_eq (left_elsewhere system after other (others other same))
  by_cases done : creation.child.next = .finished
  · have waits : creation.returned = false := by
      by_contra returned
      exact unfinished ((left_zero system thread creation here).mpr ⟨done, by simpa using returned⟩)
    obtain ⟨after, later, stepped, there, child, returned, others⟩ :=
      wait_returns system consistent thread creation here (by rw [done]; rfl) waits
    have less : left after thread < left system thread := by
      simp [left, here, there, child, returned, waits]
    exact ⟨.wait thread, after, stepped, less, least after less others⟩
  · obtain ⟨after, later, stepped, there, raised, returned, others⟩ :=
      run_advances system consistent thread creation here done
    have less : left after thread < left system thread := by
      have bound := rank_le later.child.next
      simp only [left, here, there, returned]
      omega
    exact ⟨.run thread, after, stepped, less, least after less others⟩

def Kept (first system : System Cb) : Prop := ∀ thread creation, first.creations.read thread = some creation →
  ∃ now, system.creations.read thread = some now ∧ now.givenCb = creation.givenCb ∧ now.givenName = creation.givenName

theorem replace_kept (first : System Cb) (kept : Kept first system) (thread : Address) (creation changed : Creation Cb)
    (called : List (Invocation Cb)) (here : system.creations.read thread = some creation)
    (cb : changed.givenCb = creation.givenCb) (name : changed.givenName = creation.givenName) :
    Kept first (replace system thread changed called) := by
  intro other found stored
  obtain ⟨now, there, sameCb, sameName⟩ := kept other found stored
  by_cases equal : other = thread
  · subst equal
    rw [here] at there
    cases there
    exact ⟨changed, replace_here system other creation changed called here, cb.trans sameCb, name.trans sameName⟩
  · exact ⟨now, by rw [replace, Heap.read_modify_elsewhere _ _ _ _ equal, there], sameCb, sameName⟩

theorem step_kept (first : System Cb) (kept : Kept first system) (consistent : Consistent system) (action : Action Cb)
    (stepped : step system action = some next) : Kept first next := by
  cases action with
  | construct cb name tid =>
      cases stepped
      intro thread creation stored
      obtain ⟨now, there, same⟩ := kept thread creation stored
      exact ⟨now, Heap.read_alloc_keeps _ _ _ _ there, same⟩
  | wait thread =>
      obtain ⟨creation, here, waited⟩ := Option.bind_eq_some_iff.mp stepped
      obtain ⟨changed, waitStepped, rfl⟩ := Option.map_eq_some_iff.mp waited
      obtain ⟨-, -, cb, name, -⟩ := wait_sound thread creation changed (consistent.sound thread creation here) waitStepped
      exact replace_kept system first kept thread creation changed [] here cb name
  | run thread =>
      obtain ⟨creation, here, ran⟩ := Option.bind_eq_some_iff.mp stepped
      obtain ⟨⟨changed, called⟩, statement, rfl⟩ := Option.map_eq_some_iff.mp ran
      obtain ⟨-, -, cb, name⟩ := statement_sound thread creation changed called (consistent.sound thread creation here) statement
      exact replace_kept system first kept thread creation changed called here cb name
  | destroy thread =>
      obtain ⟨creation, here, destroyed⟩ := Option.bind_eq_some_iff.mp stepped
      obtain ⟨changed, destroyStepped, rfl⟩ := Option.map_eq_some_iff.mp destroyed
      obtain ⟨-, -, cb, name⟩ := destroy_sound thread creation changed (consistent.sound thread creation here) destroyStepped
      exact replace_kept system first kept thread creation changed [] here cb name

end Runs

def invocation (thread : Address) (creation : Creation Cb) : Invocation Cb :=
  ⟨thread, creation.givenCb, some thread, constructedName creation.givenName⟩

structure Started (system : System Cb) (thread : Address) (creation : Creation Cb) : Prop where
  returned : creation.returned = true → creation.child.this = some thread ∧
    creation.child.name = constructedName creation.givenName ∧ creation.child.next.past = true ∧
    ∀ object, creation.object = some object → object.id = creation.child.tid ∧ object.cb = none
  onTime : creation.lateAccess = false
  once : callsOf thread system.invocations = if creation.child.next = .finished then [invocation thread creation] else []
  advances : creation.child.next ≠ .finished → ∃ after later, step system (.run thread) = some after ∧
    after.creations.read thread = some later ∧ later.child.next.rank = creation.child.next.rank + 1
  returns : creation.returned = false → creation.child.next.past = true → ∃ after later,
    step system (.wait thread) = some after ∧ after.creations.read thread = some later ∧ later.returned = true

structure Served (system : System Cb) (thread : Address) (creation : Creation Cb) : Prop where
  ended : ∃ later, system.creations.read thread = some later ∧ later.child.next = .finished ∧ later.returned = true
  once : callsOf thread system.invocations = [invocation thread creation]

theorem started_of_consistent (system : System Cb) (consistent : Consistent system) (thread : Address)
    (creation : Creation Cb) (stored : system.creations.read thread = some creation) : Started system thread creation := by
  have sound := consistent.sound thread creation stored
  refine ⟨fun returned => ?_, sound.onTime, consistent.called thread creation stored, fun unfinished => ?_,
    fun waits past => ?_⟩
  · have past : creation.child.next.past = true := by
      by_contra early
      rw [sound.ahead (by simpa using early)] at returned
      cases returned
    have rank : 5 < creation.child.next.rank := by simpa [Statement.past] using past
    exact ⟨sound.this (by omega), sound.ownName (by omega), past,
      fun object here => ⟨sound.id (by omega) object here, (sound.taken (by omega)).2 object here⟩⟩
  · obtain ⟨after, later, stepped, there, raised, -⟩ := run_advances system consistent thread creation stored unfinished
    exact ⟨after, later, stepped, there, raised⟩
  · obtain ⟨after, later, stepped, there, -, returned, -⟩ := wait_returns system consistent thread creation stored past waits
    exact ⟨after, later, stepped, there, returned⟩

theorem served_of_left (system last : System Cb) (consistent : Consistent last) (kept : Kept system last)
    (thread : Address) (creation : Creation Cb) (stored : system.creations.read thread = some creation)
    (none : left last thread = 0) : Served last thread creation := by
  obtain ⟨later, there, cb, name⟩ := kept thread creation stored
  have ended := (left_zero last thread later there).mp none
  refine ⟨⟨later, there, ended⟩, ?_⟩
  rw [consistent.called thread later there, calls, if_pos ended.1, invocation, cb, name]

theorem started_everywhere (schedule : List (Action Cb)) (final : System Cb)
    (completed : run step start schedule = some final) :
    (∀ thread creation, final.creations.read thread = some creation → Started final thread creation) ∧
      ∃ more last, run step final more = some last ∧
        ∀ thread creation, final.creations.read thread = some creation → Served last thread creation := by
  have initial : Consistent (start : System Cb) := ⟨by simp [start], by simp [start], by simp [start]⟩
  have consistent := Lib.run_invariant step (fun _ _ => True) Consistent
    (fun system action next holds _ stepped => step_consistent system next holds action stepped)
    schedule start final initial (Lib.along_true _ _ _) completed
  refine ⟨started_of_consistent final consistent, ?_⟩
  obtain ⟨more, last, ran, ⟨holds, kept⟩, done, -⟩ := Lib.run_finishes_all step
    (fun system => Consistent system ∧ Kept final system) left
    (fun system thread holds unfinished => by
      obtain ⟨action, after, stepped, less, others⟩ := thread_moves system holds.1 thread unfinished
      exact ⟨action, after, stepped, ⟨step_consistent system after holds.1 action stepped,
        step_kept system after final holds.2 holds.1 action stepped⟩, less, others⟩)
    (List.range final.creations.size) final ⟨consistent, fun thread creation stored => ⟨creation, stored, rfl, rfl⟩⟩
  exact ⟨more, last, ran, fun thread creation stored => served_of_left final last holds kept thread creation stored
    (done thread (List.mem_range.mpr (Heap.read_bound _ _ _ stored)))⟩

end StartUp

def twoThreads : List (Action String) :=
  [.construct "job" "worker" 11, .construct "idle" "" 12] ++ List.replicate 6 (.run 0) ++ [.wait 0, .run 1, .destroy 0, .run 0]

-- The callback of thread 0 is called after its object is gone; thread 1 still
-- has all but one of its statements to go.
theorem started_everywhere_two :
    ∃ (final : System String) (first second : Creation String), run step start twoThreads = some final ∧
      final.creations.read 0 = some first ∧ final.creations.read 1 = some second ∧
      first.returned = true ∧ first.object = none ∧ final.invocations = [⟨0, "job", some 0, "worker"⟩] ∧
      second.returned = false ∧ second.child.next = .setName ∧ Started final 0 first ∧ Started final 1 second ∧
      ∃ more last, run step final more = some last ∧ callsOf 0 last.invocations = [⟨0, "job", some 0, "worker"⟩] ∧
        callsOf 1 last.invocations = [⟨1, "idle", some 1, "UNKNOW"⟩] := by
  obtain ⟨started, more, last, ran, served⟩ := started_everywhere twoThreads _ rfl
  exact ⟨_, _, _, rfl, rfl, rfl, rfl, rfl, rfl, rfl, rfl, started 0 _ rfl, started 1 _ rfl, more, last, ran,
    (served 0 _ rfl).once, (served 1 _ rfl).once⟩

end Sylar.ThreadStart
