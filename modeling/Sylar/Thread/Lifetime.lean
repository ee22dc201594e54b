import Sylar.Thread.StartUp

set_option autoImplicit false

namespace Sylar.ThreadLifetime

open Lib (Address Heap run Along run_invariant run_append run_cons run_cons_some along_true along_of_reached)
open ThreadStart (Action Child Creation Invocation Statement System)

inductive StaticCall where
  | getThis
  | getName
  | setName (name : String)
deriving DecidableEq, Repr

def StaticCall.usesThis : StaticCall → Bool
  | .getThis => true
  | .getName => false
  | .setName _ => true

structure Answer where
  child : Address
  call : StaticCall
  this : Option Address
  alive : Bool
  name : String
deriving DecidableEq, Repr

-- The threads, how many of its calls each callback has made, and the calls made
-- so far. A callback that ThreadStart counts as finished has been called; its
-- calls are steps of their own here.
structure Process where
  threads : System (List StaticCall)
  made : Heap Nat
  answers : List Answer

inductive Event where
  | thread (action : Action (List StaticCall))
  | join (thread : Address)
  | call (thread : Address)
deriving DecidableEq, Repr

def begin : Process := ⟨ThreadStart.start, .empty, []⟩

def alive (threads : System (List StaticCall)) (this : Option Address) : Bool :=
  ((this.bind threads.creations.read).bind Creation.object).isSome

def remaining (creation : Creation (List StaticCall)) (made : Nat) : List StaticCall :=
  (creation.child.cb.getD []).drop made

-- t_thread->m_name = name, which a destroyed object has no place for.
def writeName (name : String) (creation : Creation (List StaticCall)) : Creation (List StaticCall) :=
  { creation with object := creation.object.map fun object => { object with name := name } }

def setOwnName (name : String) (creation : Creation (List StaticCall)) : Creation (List StaticCall) :=
  { creation with child := { creation.child with name := name } }

def setName (creations : Heap (Creation (List StaticCall))) (thread : Address) (this : Option Address) (name : String) :
    Heap (Creation (List StaticCall)) :=
  (match this with
    | some object => creations.modify object (writeName name)
    | none => creations).modify thread (setOwnName name)

def answer (threads : System (List StaticCall)) (thread : Address) (child : Child (List StaticCall)) (call : StaticCall) :
    Answer where
  child := thread
  call := call
  this := child.this
  alive := alive threads child.this
  name :=
    match call with
    | .setName name => name
    | _ => child.name

def perform (process : Process) (thread : Address) (child : Child (List StaticCall)) (call : StaticCall) : Process where
  threads :=
    match call with
    | .setName name => { process.threads with creations := setName process.threads.creations thread child.this name }
    | _ => process.threads
  made := process.made.modify thread (· + 1)
  answers := process.answers ++ [answer process.threads thread child call]

def callStep (process : Process) (thread : Address) (creation : Creation (List StaticCall)) (made : Nat) : Option Process :=
  if creation.child.next = .finished then
    (remaining creation made).head?.map (perform process thread creation.child)
  else none

def Done (creation : Creation (List StaticCall)) (made : Nat) : Prop :=
  creation.child.next = .finished ∧ remaining creation made = []

instance (creation : Creation (List StaticCall)) (made : Nat) : Decidable (Done creation made) :=
  inferInstanceAs (Decidable (_ ∧ _))

-- Thread::join is called on an object that exists, and waits for its callback.
def joinStep (process : Process) (creation : Creation (List StaticCall)) (made : Nat) : Option Process :=
  if creation.returned = true ∧ creation.object.isSome = true ∧ Done creation made then some process else none

def onThread (process : Process) (thread : Address) (stepped : Creation (List StaticCall) → Nat → Option Process) :
    Option Process :=
  (process.threads.creations.read thread).bind fun creation => (process.made.read thread).bind fun made => stepped creation made

def madeAfter (made : Heap Nat) : Action (List StaticCall) → Heap Nat
  | .construct _ _ _ => made.alloc 0
  | _ => made

def step (process : Process) : Event → Option Process
  | .thread action =>
      (ThreadStart.step process.threads action).map fun threads =>
        { process with threads := threads, made := madeAfter process.made action }
  | .join thread => onThread process thread (joinStep process)
  | .call thread => onThread process thread (callStep process thread)

def TouchesAlive (answers : List Answer) : Prop :=
  ∀ answer ∈ answers, answer.call.usesThis = true → answer.this.isSome = true → answer.alive = true

def Quiet (process : Process) (thread : Address) : Prop :=
  ∀ creation made, process.threads.creations.read thread = some creation → process.made.read thread = some made →
    ∀ call ∈ remaining creation made, call.usesThis = false

def DestroysQuiet (process : Process) : Event → Prop
  | .thread (.destroy thread) => Quiet process thread
  | _ => True

def Early (creation : Creation (List StaticCall)) : Prop :=
  creation.child.next.past = false →
    creation.returned = false ∧ ∀ object, creation.object = some object → object.semaphore = 0

structure Linked (thread : Address) (creation : Creation (List StaticCall)) (made : Nat) : Prop where
  this : 0 < creation.child.next.rank → creation.child.this = some thread
  early : Early creation
  quiet : creation.object = none → ∀ call ∈ remaining creation made, call.usesThis = false

section Creations

variable (thread : Address) (creation next : Creation (List StaticCall)) (made : Nat)

theorem construct_linked (cb : List StaticCall) (name : String) (tid : Int) :
    Linked thread (ThreadStart.construct cb name tid) 0 := by
  constructor
  · intro later
    exact absurd later (Nat.lt_irrefl 0)
  · simp [Early, ThreadStart.construct]
  · intro gone
    cases gone

theorem statement_keeps (called : List (Invocation (List StaticCall)))
    (stepped : ThreadStart.runStatement thread creation = some (next, called)) :
    (next.object = none → creation.object = none ∧ next.child.cb = creation.child.cb) ∧
      (next.child.this = some thread ∨ 0 < creation.child.next.rank ∧ next.child.this = creation.child.this) := by
  cases here : creation.child.next with
  | setThis =>
      simp only [ThreadStart.runStatement, here, Option.some.injEq, Prod.mk.injEq] at stepped
      obtain ⟨rfl, -⟩ := stepped
      exact ⟨fun gone => ⟨gone, rfl⟩, .inl rfl⟩
  | call =>
      simp only [ThreadStart.runStatement, here, Option.map_eq_some_iff, Prod.mk.injEq] at stepped
      obtain ⟨cb, -, rfl, -⟩ := stepped
      exact ⟨fun gone => ⟨gone, rfl⟩, .inr ⟨by decide, rfl⟩⟩
  | finished =>
      simp only [ThreadStart.runStatement, here] at stepped
      cases stepped
  | _ =>
      simp only [ThreadStart.runStatement, here, ThreadStart.access, Option.some.injEq, Prod.mk.injEq] at stepped
      obtain ⟨rfl, -⟩ := stepped
      cases object : creation.object with
      | none => exact ⟨fun _ => ⟨rfl, rfl⟩, .inr ⟨by decide, rfl⟩⟩
      | some stored =>
          refine ⟨fun gone => ?_, .inr ⟨by decide, rfl⟩⟩
          cases gone

theorem statement_early (called : List (Invocation (List StaticCall))) (early : Early creation)
    (stepped : ThreadStart.runStatement thread creation = some (next, called)) : Early next := by
  cases here : creation.child.next with
  | setThis =>
      simp only [ThreadStart.runStatement, here, Option.some.injEq, Prod.mk.injEq] at stepped
      obtain ⟨rfl, -⟩ := stepped
      exact fun _ => early (by rw [here]; rfl)
  | call =>
      simp only [ThreadStart.runStatement, here, Option.map_eq_some_iff, Prod.mk.injEq] at stepped
      obtain ⟨cb, -, rfl, -⟩ := stepped
      intro before
      cases before
  | finished =>
      simp only [ThreadStart.runStatement, here] at stepped
      cases stepped
  | _ =>
      simp only [ThreadStart.runStatement, here, ThreadStart.access, Option.some.injEq, Prod.mk.injEq] at stepped
      obtain ⟨rfl, -⟩ := stepped
      cases object : creation.object with
      | none => simp_all [Early, Statement.past, Statement.rank]
      | some stored => simp_all [Early, Statement.past, Statement.rank]

theorem statement_linked (called : List (Invocation (List StaticCall))) (linked : Linked thread creation made)
    (stepped : ThreadStart.runStatement thread creation = some (next, called)) : Linked thread next made := by
  obtain ⟨unchanged, this⟩ := statement_keeps thread creation next called stepped
  constructor
  · intro _
    rcases this with own | ⟨later, same⟩
    · exact own
    · rw [same]
      exact linked.this later
  · exact statement_early thread creation next called linked.early stepped
  · intro gone
    obtain ⟨before, cb⟩ := unchanged gone
    rw [remaining, cb]
    exact linked.quiet before

theorem wait_child (stepped : ThreadStart.waitStep creation = some next) :
    next.child = creation.child ∧ next.object.isSome = true := by
  rw [ThreadStart.waitStep] at stepped
  split at stepped
  · cases stepped
  · split at stepped
    · cases stepped
    · split at stepped
      · cases stepped
      · cases stepped
        exact ⟨rfl, rfl⟩

theorem destroy_cases (stepped : ThreadStart.destroyStep creation = some next) :
    creation.returned = true ∧ next = { creation with object := none } := by
  simp only [ThreadStart.destroyStep, Option.ite_none_right_eq_some, Bool.and_eq_true] at stepped
  obtain ⟨⟨returned, -⟩, made⟩ := stepped
  cases made
  exact ⟨returned, rfl⟩

theorem wait_early (early : Early creation) (stepped : ThreadStart.waitStep creation = some next) : Early next := by
  rw [ThreadStart.waitStep] at stepped
  split at stepped
  · cases stepped
  · split at stepped
    · cases stepped
    · rename_i object stored
      split at stepped
      · cases stepped
      · rename_i signalled
        cases stepped
        exact fun before => absurd ((early before).2 object stored) signalled

theorem wait_linked (linked : Linked thread creation made) (stepped : ThreadStart.waitStep creation = some next) :
    Linked thread next made := by
  obtain ⟨child, present⟩ := wait_child creation next stepped
  constructor
  · rw [child]
    exact linked.this
  · exact wait_early creation next linked.early stepped
  · intro gone
    rw [gone] at present
    cases present

theorem destroy_linked (linked : Linked thread creation made) (stepped : ThreadStart.destroyStep creation = some next)
    (quiet : ∀ call ∈ remaining creation made, call.usesThis = false) : Linked thread next made := by
  obtain ⟨-, rfl⟩ := destroy_cases creation next stepped
  constructor
  · exact linked.this
  · intro before
    refine ⟨(linked.early before).1, fun object stored => ?_⟩
    cases stored
  · exact fun _ => quiet

theorem write_name_linked (name : String) (linked : Linked thread creation made) :
    Linked thread (writeName name creation) made := by
  refine ⟨linked.this, fun before => ⟨(linked.early before).1, fun object written => ?_⟩, fun gone => linked.quiet ?_⟩
  · obtain ⟨stored, present, rfl⟩ := Option.map_eq_some_iff.mp written
    exact (linked.early before).2 stored present
  · simpa [writeName] using gone

theorem set_own_name_linked (name : String) (linked : Linked thread creation made) :
    Linked thread (setOwnName name creation) made := ⟨linked.this, linked.early, linked.quiet⟩

theorem counted_linked (linked : Linked thread creation made) : Linked thread creation (made + 1) := by
  refine ⟨linked.this, linked.early, fun gone call member => linked.quiet gone call ?_⟩
  rw [remaining, ← List.drop_drop] at member
  exact List.mem_of_mem_drop member

end Creations

def AllLinked (creations : Heap (Creation (List StaticCall))) (counts : Heap Nat) : Prop :=
  ∀ thread creation made, creations.read thread = some creation → counts.read thread = some made →
    Linked thread creation made

section Heaps

variable (creations : Heap (Creation (List StaticCall))) (counts : Heap Nat)

theorem modify_linked (changed : Address) (update : Creation (List StaticCall) → Creation (List StaticCall))
    (linked : AllLinked creations counts)
    (kept : ∀ creation made, creations.read changed = some creation → counts.read changed = some made →
      Linked changed creation made → Linked changed (update creation) made) :
    AllLinked (creations.modify changed update) counts := by
  intro thread creation made stored counted
  by_cases here : thread = changed
  · subst here
    rw [Heap.read_modify_here, Option.map_eq_some_iff] at stored
    obtain ⟨before, read, rfl⟩ := stored
    exact kept before made read counted (linked thread before made read counted)
  · rw [Heap.read_modify_elsewhere _ _ _ _ here] at stored
    exact linked thread creation made stored counted

theorem set_name_linked (thread : Address) (this : Option Address) (name : String) (linked : AllLinked creations counts) :
    AllLinked (setName creations thread this name) counts := by
  apply modify_linked
  · cases this with
    | none => exact linked
    | some object =>
        exact modify_linked creations counts object (writeName name) linked fun creation made _ _ =>
          write_name_linked object creation made name
  · intro creation made _ _
    exact set_own_name_linked thread creation made name

theorem count_linked (thread : Address) (linked : AllLinked creations counts) :
    AllLinked creations (counts.modify thread (· + 1)) := by
  intro other creation made stored counted
  by_cases here : other = thread
  · subst here
    rw [Heap.read_modify_here, Option.map_eq_some_iff] at counted
    obtain ⟨before, read, rfl⟩ := counted
    exact counted_linked other creation before (linked other creation before stored read)
  · rw [Heap.read_modify_elsewhere _ _ _ _ here] at counted
    exact linked other creation made stored counted

theorem alloc_linked (cb : List StaticCall) (name : String) (tid : Int) (sizes : counts.size = creations.size)
    (linked : AllLinked creations counts) :
    AllLinked (creations.alloc (ThreadStart.construct cb name tid)) (counts.alloc 0) := by
  intro thread creation made stored counted
  by_cases fresh : thread = creations.size
  · subst fresh
    rw [Heap.read_alloc_fresh] at stored
    rw [← sizes, Heap.read_alloc_fresh] at counted
    cases stored
    cases counted
    exact construct_linked _ cb name tid
  · exact linked thread creation made (Heap.read_alloc_known _ _ _ _ fresh stored)
      (Heap.read_alloc_known _ _ _ _ (by rwa [sizes]) counted)

end Heaps

def DoneAt (process : Process) (thread : Address) : Prop :=
  ∃ creation made, process.threads.creations.read thread = some creation ∧ process.made.read thread = some made ∧
    Done creation made

structure Consistent (process : Process) : Prop where
  sizes : process.made.size = process.threads.creations.size
  linked : AllLinked process.threads.creations process.made
  touches : TouchesAlive process.answers

section Processes

variable (process next : Process)

theorem call_cases (thread : Address) (stepped : step process (.call thread) = some next) :
    ∃ creation made call, process.threads.creations.read thread = some creation ∧ process.made.read thread = some made ∧
      creation.child.next = .finished ∧ (remaining creation made).head? = some call ∧
      next = perform process thread creation.child call := by
  obtain ⟨creation, stored, rest⟩ := Option.bind_eq_some_iff.mp stepped
  obtain ⟨made, counted, called⟩ := Option.bind_eq_some_iff.mp rest
  rw [callStep, Option.ite_none_right_eq_some] at called
  obtain ⟨running, called⟩ := called
  obtain ⟨call, first, rfl⟩ := Option.map_eq_some_iff.mp called
  exact ⟨creation, made, call, stored, counted, running, first, rfl⟩

theorem join_cases (thread : Address) (stepped : step process (.join thread) = some next) :
    DoneAt process thread ∧ next = process := by
  obtain ⟨creation, stored, rest⟩ := Option.bind_eq_some_iff.mp stepped
  obtain ⟨made, counted, joined⟩ := Option.bind_eq_some_iff.mp rest
  rw [joinStep, Option.ite_none_right_eq_some, Option.some.injEq] at joined
  obtain ⟨⟨-, -, ended⟩, same⟩ := joined
  exact ⟨⟨creation, made, stored, counted, ended⟩, same.symm⟩

theorem begin_consistent : Consistent begin := by
  refine ⟨rfl, fun thread creation made stored => ?_, by simp [TouchesAlive, begin]⟩
  cases stored

theorem set_name_size (creations : Heap (Creation (List StaticCall))) (thread : Address) (this : Option Address)
    (name : String) : (setName creations thread this name).size = creations.size := by
  refine (Heap.size_modify ..).trans ?_
  cases this with
  | none => rfl
  | some object => exact Heap.size_modify ..

theorem answer_alive (thread : Address) (creation : Creation (List StaticCall)) (made : Nat) (call : StaticCall)
    (stored : process.threads.creations.read thread = some creation) (linked : Linked thread creation made)
    (called : creation.child.next = .finished) (first : (remaining creation made).head? = some call)
    (uses : call.usesThis = true) : (answer process.threads thread creation.child call).alive = true := by
  have this := linked.this (by rw [called]; decide)
  cases object : creation.object with
  | none =>
      have quiet := linked.quiet object call (List.mem_of_mem_head? first)
      rw [uses] at quiet
      cases quiet
  | some present => simp [answer, alive, this, stored, object]

theorem perform_consistent (thread : Address) (creation : Creation (List StaticCall)) (call : StaticCall)
    (consistent : Consistent process)
    (alive : call.usesThis = true → (answer process.threads thread creation.child call).alive = true) :
    Consistent (perform process thread creation.child call) := by
  have counted := count_linked _ _ thread consistent.linked
  constructor
  · cases call with
    | setName name => simp only [perform, Heap.size_modify, set_name_size, consistent.sizes]
    | _ => simp only [perform, Heap.size_modify, consistent.sizes]
  · cases call with
    | setName name => exact set_name_linked _ _ thread creation.child.this name counted
    | _ => exact counted
  · intro given member uses present
    rcases List.mem_append.mp member with old | new
    · exact consistent.touches given old uses present
    · rw [List.mem_singleton] at new
      subst new
      exact alive uses

theorem call_consistent (thread : Address) (consistent : Consistent process)
    (stepped : step process (.call thread) = some next) : Consistent next := by
  obtain ⟨creation, made, call, stored, counted, running, first, rfl⟩ := call_cases process next thread stepped
  apply perform_consistent process thread creation call consistent
  exact answer_alive process thread creation made call stored (consistent.linked thread creation made stored counted) running first

theorem replace_consistent (thread : Address) (creation changed : Creation (List StaticCall))
    (called : List (Invocation (List StaticCall))) (consistent : Consistent process)
    (stored : process.threads.creations.read thread = some creation)
    (kept : ∀ made, process.made.read thread = some made → Linked thread creation made → Linked thread changed made) :
    Consistent { process with threads := ThreadStart.replace process.threads thread changed called } := by
  refine ⟨consistent.sizes.trans (Heap.size_modify ..).symm, ?_, consistent.touches⟩
  apply modify_linked _ _ thread _ consistent.linked
  intro before made read counted linked
  rw [stored, Option.some.injEq] at read
  subst read
  exact kept made counted linked

theorem thread_consistent (action : Action (List StaticCall)) (consistent : Consistent process)
    (quiet : DestroysQuiet process (.thread action)) (stepped : step process (.thread action) = some next) :
    Consistent next := by
  obtain ⟨threads, acted, rfl⟩ := Option.map_eq_some_iff.mp stepped
  cases action with
  | construct cb name tid =>
      cases acted
      refine ⟨?_, alloc_linked _ _ cb name tid consistent.sizes consistent.linked, consistent.touches⟩
      simp only [madeAfter, Heap.size_alloc, consistent.sizes]
  | wait thread =>
      obtain ⟨creation, stored, rest⟩ := Option.bind_eq_some_iff.mp acted
      obtain ⟨changed, waited, rfl⟩ := Option.map_eq_some_iff.mp rest
      exact replace_consistent process thread creation changed [] consistent stored fun made _ linked =>
        wait_linked thread creation changed made linked waited
  | run thread =>
      obtain ⟨creation, stored, rest⟩ := Option.bind_eq_some_iff.mp acted
      obtain ⟨⟨changed, called⟩, ran, rfl⟩ := Option.map_eq_some_iff.mp rest
      exact replace_consistent process thread creation changed called consistent stored fun made _ linked =>
        statement_linked thread creation changed made called linked ran
  | destroy thread =>
      obtain ⟨creation, stored, rest⟩ := Option.bind_eq_some_iff.mp acted
      obtain ⟨changed, destroyed, rfl⟩ := Option.map_eq_some_iff.mp rest
      exact replace_consistent process thread creation changed [] consistent stored fun made counted linked =>
        destroy_linked thread creation changed made linked destroyed (quiet creation made stored counted)

theorem step_consistent (event : Event) (consistent : Consistent process) (quiet : DestroysQuiet process event)
    (stepped : step process event = some next) : Consistent next := by
  cases event with
  | thread action => exact thread_consistent process next action consistent quiet stepped
  | join thread =>
      obtain ⟨-, rfl⟩ := join_cases process next thread stepped
      exact consistent
  | call thread => exact call_consistent process next thread consistent stepped

end Processes

theorem consistent_along (schedule : List Event) (final : Process) (along : Along step DestroysQuiet begin schedule)
    (completed : run step begin schedule = some final) : Consistent final := by
  have kept (process : Process) (event : Event) (next : Process) (consistent : Consistent process)
      (quiet : DestroysQuiet process event) (stepped : step process event = some next) : Consistent next :=
    step_consistent process next event consistent quiet stepped
  exact run_invariant step DestroysQuiet Consistent kept schedule begin final begin_consistent along completed

section Joined

variable (process next : Process) (thread : Address)

theorem done_at_quiet (done : DoneAt process thread) : Quiet process thread := by
  obtain ⟨creation, made, stored, counted, -, ended⟩ := done
  intro found count read counts call member
  rw [stored, Option.some.injEq] at read
  rw [counted, Option.some.injEq] at counts
  subst read counts
  rw [ended] at member
  cases member

theorem replace_done (changed : Creation (List StaticCall)) (other : Address) (creation : Creation (List StaticCall))
    (called : List (Invocation (List StaticCall))) (stored : process.threads.creations.read other = some creation)
    (child : other = thread → changed.child = creation.child) (done : DoneAt process thread) :
    DoneAt { process with threads := ThreadStart.replace process.threads other changed called } thread := by
  obtain ⟨found, made, read, counted, ended⟩ := done
  by_cases same : thread = other
  · subst same
    rw [stored, Option.some.injEq] at read
    subst read
    refine ⟨changed, made, ?_, counted, ?_⟩
    · simp only [ThreadStart.replace, Heap.read_modify_here, stored, Option.map_some]
    · rw [Done, remaining, child rfl]
      exact ended
  · refine ⟨found, made, ?_, counted, ended⟩
    simp only [ThreadStart.replace, Heap.read_modify_elsewhere _ _ _ _ same, read]

theorem finished_stays (creation changed : Creation (List StaticCall)) (made : Nat)
    (called : List (Invocation (List StaticCall))) (ended : Done creation made)
    (stepped : ThreadStart.runStatement thread creation = some (changed, called)) : False := by
  rw [ThreadStart.runStatement, ended.1] at stepped
  cases stepped

theorem set_name_done (creations : Heap (Creation (List StaticCall))) (other : Address) (this : Option Address)
    (name : String) (creation : Creation (List StaticCall)) (made : Nat) (different : thread ≠ other)
    (stored : creations.read thread = some creation) (ended : Done creation made) :
    ∃ changed, (setName creations other this name).read thread = some changed ∧ Done changed made := by
  cases this with
  | none => exact ⟨creation, (Heap.read_modify_elsewhere _ _ _ _ different).trans stored, ended⟩
  | some object =>
      have apart := Heap.read_modify_elsewhere (creations.modify object (writeName name)) other thread (setOwnName name) different
      by_cases same : thread = object
      · subst same
        refine ⟨writeName name creation, apart.trans ?_, ended⟩
        rw [Heap.read_modify_here, stored, Option.map_some]
      · exact ⟨creation, apart.trans ((Heap.read_modify_elsewhere _ _ _ _ same).trans stored), ended⟩

theorem perform_done (other : Address) (child : Child (List StaticCall)) (call : StaticCall) (different : thread ≠ other)
    (done : DoneAt process thread) : DoneAt (perform process other child call) thread := by
  obtain ⟨creation, made, stored, counted, ended⟩ := done
  have count : (process.made.modify other (· + 1)).read thread = some made :=
    (Heap.read_modify_elsewhere _ _ _ _ different).trans counted
  cases call with
  | setName name =>
      obtain ⟨changed, read, still⟩ :=
        set_name_done thread process.threads.creations other child.this name creation made different stored ended
      exact ⟨changed, made, read, count, still⟩
  | _ => exact ⟨creation, made, stored, count, ended⟩

theorem thread_done (action : Action (List StaticCall)) (done : DoneAt process thread)
    (stepped : step process (.thread action) = some next) : DoneAt next thread := by
  obtain ⟨creation, made, stored, counted, ended⟩ := id done
  obtain ⟨threads, acted, rfl⟩ := Option.map_eq_some_iff.mp stepped
  cases action with
  | construct cb name tid =>
      cases acted
      exact ⟨creation, made, Heap.read_alloc_keeps _ _ _ _ stored, Heap.read_alloc_keeps _ _ _ _ counted, ended⟩
  | wait other =>
      obtain ⟨found, read, rest⟩ := Option.bind_eq_some_iff.mp acted
      obtain ⟨changed, waited, rfl⟩ := Option.map_eq_some_iff.mp rest
      exact replace_done process thread changed other found [] read (fun _ => (wait_child found changed waited).1) done
  | run other =>
      obtain ⟨found, read, rest⟩ := Option.bind_eq_some_iff.mp acted
      obtain ⟨⟨changed, called⟩, ran, rfl⟩ := Option.map_eq_some_iff.mp rest
      apply replace_done process thread changed other found called read _ done
      intro same
      subst same
      rw [stored, Option.some.injEq] at read
      subst read
      exact (finished_stays other creation changed made called ended ran).elim
  | destroy other =>
      obtain ⟨found, read, rest⟩ := Option.bind_eq_some_iff.mp acted
      obtain ⟨changed, destroyed, rfl⟩ := Option.map_eq_some_iff.mp rest
      exact replace_done process thread changed other found [] read (fun _ => by rw [(destroy_cases found changed destroyed).2]) done

theorem step_done (event : Event) (done : DoneAt process thread) (stepped : step process event = some next) :
    DoneAt next thread := by
  cases event with
  | thread action => exact thread_done process next thread action done stepped
  | join other =>
      obtain ⟨-, rfl⟩ := join_cases process next other stepped
      exact done
  | call other =>
      obtain ⟨creation, made, call, stored, counted, -, first, rfl⟩ := call_cases process next other stepped
      apply perform_done process thread other creation.child call _ done
      rintro rfl
      obtain ⟨found, count, read, counts, -, ended⟩ := done
      rw [stored, Option.some.injEq] at read
      rw [counted, Option.some.injEq] at counts
      subst read counts
      rw [ended] at first
      cases first

def JoinsFirst (schedule : List Event) : Prop :=
  ∀ before thread after, schedule = before ++ .thread (.destroy thread) :: after → .join thread ∈ before

theorem joined_done (schedule : List Event) (reached : Process) (joined : .join thread ∈ schedule)
    (ran : run step process schedule = some reached) : DoneAt reached thread := by
  obtain ⟨before, after, rfl⟩ := List.append_of_mem joined
  rw [run_append] at ran
  obtain ⟨middle, -, rest⟩ := Option.bind_eq_some_iff.mp ran
  obtain ⟨waited, stepped, later⟩ := run_cons_some step middle reached (.join thread) after rest
  obtain ⟨done, rfl⟩ := join_cases middle waited thread stepped
  have kept (process : Process) (event : Event) (next : Process) (done : DoneAt process thread) (_ : True)
      (stepped : step process event = some next) : DoneAt next thread :=
    step_done process next thread event done stepped
  exact run_invariant step (fun _ _ => True) _ kept after waited reached done (along_true step waited after) later

theorem joins_first_along (schedule : List Event) (joins : JoinsFirst schedule) :
    Along step DestroysQuiet begin schedule := by
  apply along_of_reached
  intro before event after reached shape ran
  cases event with
  | thread action =>
      cases action with
      | destroy thread =>
          exact done_at_quiet reached thread (joined_done begin thread before reached (joins before thread after shape) ran)
      | _ => trivial
  | _ => trivial

end Joined

-- A destructor that comes too early can be followed by the child's own steps up
-- to a call through the dead pointer.
section Unquiet

variable (process next : Process) (thread : Address) (creation : Creation (List StaticCall)) (made : Nat)

theorem dead_answer (call : StaticCall) (this : creation.child.this = some thread)
    (stored : process.threads.creations.read thread = some creation) (gone : creation.object = none)
    (uses : call.usesThis = true) : ¬ TouchesAlive (perform process thread creation.child call).answers := by
  intro touches
  have found := touches (answer process.threads thread creation.child call)
    (List.mem_append_right _ (List.mem_singleton.mpr rfl)) uses (by simp [answer, this])
  simp [answer, alive, this, stored, gone] at found

theorem call_step (call : StaticCall) (rest : List StaticCall) (called : creation.child.next = .finished)
    (stored : process.threads.creations.read thread = some creation) (counted : process.made.read thread = some made)
    (first : remaining creation made = call :: rest) :
    step process (.call thread) = some (perform process thread creation.child call) := by
  simp [step, onThread, stored, counted, callStep, called, first]

theorem remaining_next (call : StaticCall) (rest : List StaticCall) (first : remaining creation made = call :: rest) :
    remaining creation (made + 1) = rest := by
  rw [remaining, ← List.drop_drop, ← remaining, first, List.drop_one, List.tail_cons]

theorem calls_touch (calls : List StaticCall) (left : remaining creation made = calls) (this : creation.child.this = some thread)
    (called : creation.child.next = .finished) (stored : process.threads.creations.read thread = some creation)
    (gone : creation.object = none) (counted : process.made.read thread = some made)
    (uses : ∃ call ∈ calls, call.usesThis = true) :
    ∃ later final, run step process later = some final ∧ ¬ TouchesAlive final.answers := by
  induction calls generalizing process made with
  | nil =>
      obtain ⟨call, member, -⟩ := uses
      cases member
  | cons call rest ih =>
      have stepped := call_step process thread creation made call rest called stored counted left
      by_cases touching : call.usesThis = true
      · exact ⟨[.call thread], _, by rw [run_cons, stepped]; rfl,
          dead_answer process thread creation call this stored gone touching⟩
      · have name : call = .getName := by
          cases call with
          | getName => rfl
          | _ => exact absurd rfl touching
        subst name
        obtain ⟨found, member, touches⟩ := uses
        have later : found ∈ rest := by
          rcases List.mem_cons.mp member with rfl | old
          · exact absurd touches touching
          · exact old
        obtain ⟨later, final, ran, dead⟩ := ih (perform process thread creation.child .getName) (made + 1)
          (remaining_next creation made .getName rest left) stored
          (by simp only [perform, Heap.read_modify_here, counted, Option.map_some]) ⟨found, later, touches⟩
        exact ⟨.call thread :: later, final, by rw [run_cons, stepped, Option.bind_some, ran], dead⟩

theorem past_cases (statement : Statement) (past : statement.past = true) : statement = .call ∨ statement = .finished := by
  cases statement with
  | call => exact .inl rfl
  | finished => exact .inr rfl
  | _ => cases past

def entered (creation : Creation (List StaticCall)) : Creation (List StaticCall) :=
  { creation with child := { creation.child with next := .finished } }

def enter (process : Process) (thread : Address) (creation : Creation (List StaticCall)) (cb : List StaticCall) : Process :=
  { process with
    threads := ThreadStart.replace process.threads thread (entered creation)
      [⟨thread, cb, creation.child.this, creation.child.name⟩] }

theorem started_touches (linked : creation.child.this = some thread) (past : creation.child.next.past = true)
    (stored : process.threads.creations.read thread = some creation) (gone : creation.object = none)
    (counted : process.made.read thread = some made) (uses : ∃ call ∈ remaining creation made, call.usesThis = true) :
    ∃ later final, run step process later = some final ∧ ¬ TouchesAlive final.answers := by
  rcases past_cases creation.child.next past with here | here
  · cases held : creation.child.cb with
    | none =>
        obtain ⟨call, member, -⟩ := uses
        rw [remaining, held, Option.getD_none, List.drop_nil] at member
        cases member
    | some cb =>
        have stepped : step process (.thread (.run thread)) = some (enter process thread creation cb) := by
          simp [step, ThreadStart.step, stored, ThreadStart.runStatement, here, held, madeAfter, enter, entered]
        have inside : (enter process thread creation cb).threads.creations.read thread = some (entered creation) := by
          simp only [enter, ThreadStart.replace, Heap.read_modify_here, stored, Option.map_some]
        obtain ⟨later, final, ran, dead⟩ := calls_touch (enter process thread creation cb) thread (entered creation) made _ rfl
          linked rfl inside gone counted uses
        exact ⟨.thread (.run thread) :: later, final, by rw [run_cons, stepped, Option.bind_some, ran], dead⟩
  · exact calls_touch process thread creation made _ rfl linked here stored gone counted uses

theorem unquiet_destroy_touches (schedule : List Event) (along : Along step DestroysQuiet begin schedule)
    (completed : run step begin schedule = some process) (stepped : step process (.thread (.destroy thread)) = some next)
    (unquiet : ¬ Quiet process thread) :
    ∃ later final, run step next later = some final ∧ ¬ TouchesAlive final.answers := by
  have consistent := consistent_along schedule process along completed
  rw [Quiet] at unquiet
  push Not at unquiet
  obtain ⟨creation, made, stored, counted, call, member, uses⟩ := unquiet
  obtain ⟨threads, acted, rfl⟩ := Option.map_eq_some_iff.mp stepped
  obtain ⟨found, read, rest⟩ := Option.bind_eq_some_iff.mp acted
  obtain ⟨changed, destroyed, rfl⟩ := Option.map_eq_some_iff.mp rest
  rw [stored, Option.some.injEq] at read
  subst read
  obtain ⟨returned, rfl⟩ := destroy_cases creation changed destroyed
  have linked := consistent.linked thread creation made stored counted
  have past : creation.child.next.past = true := by
    by_contra early
    have waits := (linked.early (Bool.not_eq_true _ ▸ early)).1
    rw [returned] at waits
    cases waits
  have later : 0 < creation.child.next.rank := by
    rcases past_cases creation.child.next past with here | here <;> rw [here] <;> decide
  have inside : (ThreadStart.replace process.threads thread { creation with object := none } []).creations.read thread =
      some { creation with object := none } := by
    simp only [ThreadStart.replace, Heap.read_modify_here, stored, Option.map_some]
  exact started_touches _ thread { creation with object := none } made (linked.this later) past inside rfl counted
    ⟨call, member, by simpa using uses⟩

end Unquiet

theorem touches_alive_along (schedule : List Event) (final : Process) (along : Along step DestroysQuiet begin schedule)
    (completed : run step begin schedule = some final) : TouchesAlive final.answers :=
  (consistent_along schedule final along completed).touches

def createOne (calls : List StaticCall) : List Event :=
  [.thread (.construct calls "io" 41), .thread (.run 0), .thread (.run 0), .thread (.run 0), .thread (.run 0),
    .thread (.run 0), .thread (.run 0), .thread (.wait 0), .thread (.run 0)]

def joinsFirst : List Event :=
  createOne [.setName "worker", .getThis] ++ [.call 0, .call 0, .join 0, .thread (.destroy 0)]

instance (process : Process) (thread : Address) : Decidable (Quiet process thread) :=
  match stored : process.threads.creations.read thread, counted : process.made.read thread with
  | some creation, some made =>
      decidable_of_iff (∀ call ∈ remaining creation made, call.usesThis = false)
        ⟨fun quiet _ _ read count => by
            rw [stored] at read
            rw [counted] at count
            cases read
            cases count
            exact quiet,
          fun quiet => quiet creation made stored counted⟩
  | none, _ => .isTrue fun _ _ read => by rw [stored] at read; cases read
  | some _, none => .isTrue fun _ _ _ count => by rw [counted] at count; cases count

instance (process : Process) : (event : Event) → Decidable (DestroysQuiet process event)
  | .thread (.destroy thread) => inferInstanceAs (Decidable (Quiet process thread))
  | .thread (.construct _ _ _) => inferInstanceAs (Decidable True)
  | .thread (.wait _) => inferInstanceAs (Decidable True)
  | .thread (.run _) => inferInstanceAs (Decidable True)
  | .join _ => inferInstanceAs (Decidable True)
  | .call _ => inferInstanceAs (Decidable True)

theorem touches_alive_along_joined : ∃ final, run step begin joinsFirst = some final ∧ TouchesAlive final.answers :=
  ⟨_, rfl, touches_alive_along joinsFirst _ (by decide) rfl⟩

-- The destructor detaches the running thread, which renames itself afterwards.
theorem destroyed_then_renamed :
    ¬ ∀ (schedule : List Event) (final : Process), run step begin schedule = some final → TouchesAlive final.answers := by
  intro touches
  have dead := touches (createOne [.setName "worker"] ++ [.thread (.destroy 0), .call 0]) _ rfl
  have last := dead ⟨0, .setName "worker", some 0, false, "worker"⟩ (List.mem_singleton.mpr rfl) rfl rfl
  cases last

end Sylar.ThreadLifetime
