import Mathlib.Logic.Relation
import Sylar.Lib.Runs

set_option autoImplicit false

namespace Sylar.Lib.LockOrder

inductive Mode where
  | shared
  | exclusive
deriving DecidableEq, Repr

-- A program between whose atomic acts other threads may run: each act changes
-- the world, and the world it has seen decides how the program goes on. A
-- program that halts goes no further and keeps its locks.
inductive Prog (World Lock α : Type) where
  | pure (result : α)
  | acquire (lock : Lock) (mode : Mode) (next : Prog World Lock α)
  | release (lock : Lock) (next : Prog World Lock α)
  | act (update : World → World) (next : World → Prog World Lock α)
  | halt

namespace Prog

variable {World Lock α β : Type}

def bind (prog : Prog World Lock α) (rest : α → Prog World Lock β) : Prog World Lock β :=
  match prog with
  | .pure result => rest result
  | .acquire lock mode next => .acquire lock mode (next.bind rest)
  | .release lock next => .release lock (next.bind rest)
  | .act update next => .act update fun world => (next world).bind rest
  | .halt => .halt

instance : Monad (Prog World Lock) where
  pure := Prog.pure
  bind := Prog.bind

def read (look : World → α) : Prog World Lock α := .act id fun world => .pure (look world)

def modify (update : World → World) : Prog World Lock Unit := .act update fun _ => .pure ()

-- A guard object: the lock is taken here and released where its scope ends.
def guarded (lock : Lock) (mode : Mode) (body : Prog World Lock α) : Prog World Lock α :=
  .acquire lock mode (body.bind fun result => .release lock (.pure result))

def forEach (body : β → Prog World Lock Unit) : List β → Prog World Lock Unit
  | [] => .pure ()
  | item :: rest => (body item).bind fun _ => forEach body rest

-- What the program makes of a world that no other thread touches.
def alone : Prog World Lock α → World → Option (α × World)
  | .pure result, world => some (result, world)
  | .acquire _ _ next, world | .release _ next, world => next.alone world
  | .act update next, world => (next world).alone (update world)
  | .halt, _ => none

section Alone

variable (world : World)

@[simp] theorem alone_pure (result : α) : (Prog.pure result : Prog World Lock α).alone world = some (result, world) := rfl

@[simp] theorem alone_halt : (Prog.halt : Prog World Lock α).alone world = none := rfl

@[simp] theorem alone_read (look : World → α) : (read look : Prog World Lock α).alone world = some (look world, world) := rfl

@[simp] theorem alone_modify (update : World → World) :
    (modify update : Prog World Lock Unit).alone world = some ((), update world) := rfl

@[simp] theorem alone_bind (prog : Prog World Lock α) (rest : α → Prog World Lock β) :
    (prog >>= rest).alone world = (prog.alone world).bind fun reached => (rest reached.1).alone reached.2 := by
  show (prog.bind rest).alone world = _
  induction prog generalizing world with
  | pure result => rfl
  | acquire lock mode next ih => exact ih world
  | release lock next ih => exact ih world
  | act update next ih => exact ih world (update world)
  | halt => rfl

@[simp] theorem alone_guarded (lock : Lock) (mode : Mode) (body : Prog World Lock α) :
    (guarded lock mode body).alone world = body.alone world := by
  show (body >>= fun result => .release lock (.pure result)).alone world = _
  rw [alone_bind]
  cases body.alone world <;> rfl

end Alone

end Prog

section Order

variable {World Lock α β : Type} (invariant : World → Prop) (rank : Lock → Nat)

-- Run with the locks held, the program takes only locks that rank below them
-- and keeps the invariant; the condition holds of its result and of the locks
-- it ends with.
def Descends (prog : Prog World Lock α) (held : List Lock) (post : α → List Lock → Prop) : Prop :=
  match prog with
  | .pure result => post result held
  | .acquire lock _ next => (∀ other ∈ held, rank lock < rank other) ∧ Descends next (lock :: held) post
  | .release lock next => ∃ rest, held = lock :: rest ∧ Descends next rest post
  | .act update next => ∀ world, invariant world → invariant (update world) ∧ Descends (next world) held post
  | .halt => True

def Nests (held : List Lock) (prog : Prog World Lock α) (post : α → Prop) : Prop :=
  Descends invariant rank prog held fun result final => final = held ∧ post result

variable {invariant rank}

theorem descends_bind (prog : Prog World Lock α) (rest : α → Prog World Lock β) (held : List Lock)
    (middle : α → List Lock → Prop) (post : β → List Lock → Prop) (first : Descends invariant rank prog held middle)
    (later : ∀ result final, middle result final → Descends invariant rank (rest result) final post) :
    Descends invariant rank (prog.bind rest) held post := by
  induction prog generalizing held with
  | pure result => exact later result held first
  | acquire lock mode next ih => exact ⟨first.1, ih (lock :: held) first.2⟩
  | release lock next ih =>
      obtain ⟨remaining, same, descends⟩ := first
      exact ⟨remaining, same, ih remaining descends⟩
  | act update next ih => exact fun world holds => ⟨(first world holds).1, ih world held (first world holds).2⟩
  | halt => trivial

theorem descends_mono (prog : Prog World Lock α) (held : List Lock) (strong weak : α → List Lock → Prop)
    (first : Descends invariant rank prog held strong) (implies : ∀ result final, strong result final → weak result final) :
    Descends invariant rank prog held weak := by
  induction prog generalizing held with
  | pure result => exact implies result held first
  | acquire lock mode next ih => exact ⟨first.1, ih (lock :: held) first.2⟩
  | release lock next ih =>
      obtain ⟨remaining, same, descends⟩ := first
      exact ⟨remaining, same, ih remaining descends⟩
  | act update next ih => exact fun world holds => ⟨(first world holds).1, ih world held (first world holds).2⟩
  | halt => trivial

-- A finer order of the locks allows all that a coarser one does.
theorem descends_finer (finer : Lock → Nat) (refines : ∀ low high, rank low < rank high → finer low < finer high)
    (prog : Prog World Lock α) (held : List Lock) (post : α → List Lock → Prop)
    (descends : Descends invariant rank prog held post) : Descends invariant finer prog held post := by
  induction prog generalizing held with
  | pure result => exact descends
  | acquire lock mode next ih =>
      exact ⟨fun other member => refines lock other (descends.1 other member), ih (lock :: held) descends.2⟩
  | release lock next ih =>
      obtain ⟨remaining, same, later⟩ := descends
      exact ⟨remaining, same, ih remaining later⟩
  | act update next ih => exact fun world holds => ⟨(descends world holds).1, ih world held (descends world holds).2⟩
  | halt => trivial

variable (held : List Lock)

theorem nests_pure (result : α) (post : α → Prop) (holds : post result) :
    Nests invariant rank held (Prog.pure result) post := ⟨rfl, holds⟩

theorem nests_bind (prog : Prog World Lock α) (rest : α → Prog World Lock β) (middle : α → Prop) (post : β → Prop)
    (first : Nests invariant rank held prog middle)
    (later : ∀ result, middle result → Nests invariant rank held (rest result) post) :
    Nests invariant rank held (prog >>= rest) post := by
  refine descends_bind prog rest held _ _ first ?_
  rintro result final ⟨rfl, holds⟩
  exact later result holds

theorem nests_then (prog : Prog World Lock α) (rest : α → Prog World Lock β) (post : β → Prop)
    (first : Nests invariant rank held prog fun _ => True) (later : ∀ result, Nests invariant rank held (rest result) post) :
    Nests invariant rank held (prog >>= rest) post :=
  nests_bind held prog rest _ post first fun result _ => later result

theorem nests_read (look : World → α) (post : α → Prop) (holds : ∀ world, invariant world → post (look world)) :
    Nests invariant rank held (Prog.read look) post :=
  fun world kept => ⟨kept, rfl, holds world kept⟩

theorem nests_modify (update : World → World) (kept : ∀ world, invariant world → invariant (update world)) :
    Nests invariant rank held (Prog.modify update) fun _ => True :=
  fun world holds => ⟨kept world holds, rfl, trivial⟩

theorem nests_guarded (lock : Lock) (mode : Mode) (body : Prog World Lock α) (post : α → Prop)
    (below : ∀ other ∈ held, rank lock < rank other) (inner : Nests invariant rank (lock :: held) body post) :
    Nests invariant rank held (Prog.guarded lock mode body) post := by
  refine ⟨below, descends_bind body _ (lock :: held) _ _ inner ?_⟩
  rintro result final ⟨rfl, holds⟩
  exact ⟨held, rfl, rfl, holds⟩

theorem nests_for_each (body : β → Prog World Lock Unit) (list : List β)
    (each : ∀ item ∈ list, Nests invariant rank held (body item) fun _ => True) :
    Nests invariant rank held (Prog.forEach body list) fun _ => True := by
  induction list with
  | nil => exact ⟨rfl, trivial⟩
  | cons item rest ih =>
      exact nests_then held (body item) _ _ (each item List.mem_cons_self) fun _ =>
        ih fun other member => each other (List.mem_cons_of_mem _ member)

end Order

section Threads

variable {World Lock Op : Type} [DecidableEq Lock]

structure Thread (World Lock : Type) where
  held : List (Lock × Mode)
  prog : Prog World Lock Unit

structure State (World Lock : Type) where
  world : World
  threads : List (Thread World Lock)

def idle (world : World) (count : Nat) : State World Lock := ⟨world, List.replicate count ⟨[], .pure ()⟩⟩

inductive Action (Op : Type) where
  | start (thread : Nat) (op : Op)
  | move (thread : Nat)

-- Readers share a lock; whether a waiting writer keeps them out is left open.
def grants (threads : List (Thread World Lock)) (lock : Lock) (mode : Mode) : Bool :=
  threads.all fun thread => thread.held.all fun taken =>
    taken.1 ≠ lock || (mode = .shared && taken.2 = .shared)

def move (world : World) (threads : List (Thread World Lock)) (thread : Thread World Lock) :
    Option (World × Thread World Lock) :=
  match thread.prog with
  | .pure _ => none
  | .acquire lock mode next => if grants threads lock mode then some (world, ⟨(lock, mode) :: thread.held, next⟩) else none
  | .release lock next => some (world, ⟨thread.held.eraseP fun taken => taken.1 = lock, next⟩)
  | .act update next => some (update world, ⟨thread.held, next world⟩)
  | .halt => none

-- A thread that has come to the end of one operation may begin any other.
def step (possible : World → Op → Bool) (program : Op → Prog World Lock Unit) (state : State World Lock) :
    Action Op → Option (State World Lock)
  | .start thread op =>
      match state.threads[thread]? with
      | some ⟨[], .pure _⟩ =>
          if possible state.world op then some { state with threads := state.threads.set thread ⟨[], program op⟩ } else none
      | _ => none
  | .move thread =>
      match state.threads[thread]? with
      | some current =>
          (move state.world state.threads current).map fun next => ⟨next.1, state.threads.set thread next.2⟩
      | none => none

def Thread.awaits (thread : Thread World Lock) : Option (Lock × Mode) :=
  match thread.prog with
  | .acquire lock mode _ => some (lock, mode)
  | _ => none

-- The first thread may have to wait because of the second: for a lock that the
-- second holds, or as a reader behind a writer that waits for the same lock.
def Waits (threads : List (Thread World Lock)) (first second : Nat) : Prop :=
  ∃ waiter blocker lock mode, threads[first]? = some waiter ∧ threads[second]? = some blocker ∧
    waiter.awaits = some (lock, mode) ∧
      ((∃ taken, (lock, taken) ∈ blocker.held) ∨ (mode = .shared ∧ blocker.awaits = some (lock, .exclusive)))

def Ordered (invariant : World → Prop) (rank : Lock → Nat) (state : State World Lock) : Prop :=
  invariant state.world ∧ ∀ thread ∈ state.threads,
    Descends invariant rank thread.prog (thread.held.map Prod.fst) fun _ final => final = []

end Threads

section Safety

variable {World Lock Op : Type} (invariant : World → Prop) (rank : Lock → Nat)

theorem ordered_idle (world : World) (count : Nat) (holds : invariant world) :
    Ordered invariant rank (idle world count : State World Lock) := by
  refine ⟨holds, fun thread member => ?_⟩
  rw [List.eq_of_mem_replicate member]
  rfl

theorem ordered_set (state : State World Lock) (world : World) (index : Nat) (thread : Thread World Lock)
    (ordered : Ordered invariant rank state) (holds : invariant world)
    (descends : Descends invariant rank thread.prog (thread.held.map Prod.fst) fun _ final => final = []) :
    Ordered invariant rank ⟨world, state.threads.set index thread⟩ := by
  refine ⟨holds, fun other member => ?_⟩
  rcases List.mem_or_eq_of_mem_set member with old | rfl
  · exact ordered.2 other old
  · exact descends

theorem awaits_below (state : State World Lock) (ordered : Ordered invariant rank state) (thread : Thread World Lock)
    (member : thread ∈ state.threads) (lock : Lock) (mode : Mode) (awaited : thread.awaits = some (lock, mode)) :
    ∀ taken ∈ thread.held, rank lock < rank taken.1 := by
  have descends := ordered.2 thread member
  obtain ⟨held, prog⟩ := thread
  cases prog <;> cases awaited
  exact fun taken inHeld => descends.1 taken.1 (List.mem_map_of_mem inHeld)

-- Readers stand above writers of the same lock.
def weight (awaited : Lock × Mode) : Nat := 2 * rank awaited.1 + if awaited.2 = .shared then 1 else 0

theorem waits_descend (state : State World Lock) (ordered : Ordered invariant rank state) (first second : Nat)
    (waits : Waits state.threads first second) (blocker : Thread World Lock) (present : state.threads[second]? = some blocker)
    (awaited : Lock × Mode) (waiting : blocker.awaits = some awaited) :
    ∃ waiter wanted, state.threads[first]? = some waiter ∧ waiter.awaits = some wanted ∧
      weight rank awaited < weight rank wanted := by
  obtain ⟨waiter, other, lock, mode, here, there, wants, blocked⟩ := waits
  cases present.symm.trans there
  refine ⟨waiter, (lock, mode), here, wants, ?_⟩
  rcases blocked with ⟨taken, holdsIt⟩ | ⟨rfl, writer⟩
  · have below : rank awaited.1 < rank lock := awaits_below invariant rank state ordered blocker
      (List.mem_of_getElem? there) awaited.1 awaited.2 waiting (lock, taken) holdsIt
    simp only [weight]
    split <;> split <;> omega
  · rw [waiting, Option.some.injEq] at writer
    rw [writer]
    simp [weight]

theorem no_wait_cycle (state : State World Lock) (ordered : Ordered invariant rank state) (index : Nat) :
    ¬ Relation.TransGen (Waits state.threads) index index := by
  have descends (first second : Nat) (path : Relation.TransGen (Waits state.threads) first second)
      (blocker : Thread World Lock) (present : state.threads[second]? = some blocker) (awaited : Lock × Mode)
      (waiting : blocker.awaits = some awaited) : ∃ waiter wanted, state.threads[first]? = some waiter ∧
        waiter.awaits = some wanted ∧ weight rank awaited < weight rank wanted := by
    induction path generalizing blocker awaited with
    | single waits => exact waits_descend invariant rank state ordered _ _ waits blocker present awaited waiting
    | tail path waits ih =>
        obtain ⟨middle, wanted, here, waitingMiddle, less⟩ :=
          waits_descend invariant rank state ordered _ _ waits blocker present awaited waiting
        obtain ⟨waiter, first, there, waitingFirst, lessMiddle⟩ := ih middle here wanted waitingMiddle
        exact ⟨waiter, first, there, waitingFirst, Nat.lt_trans less lessMiddle⟩
  intro cycle
  obtain ⟨next, waits, -⟩ := Relation.TransGen.head'_iff.mp cycle
  obtain ⟨waiter, -, lock, mode, here, -, wants, -⟩ := waits
  obtain ⟨same, wanted, there, waiting, less⟩ := descends index index cycle waiter here (lock, mode) wants
  cases here.symm.trans there
  cases wants.symm.trans waiting
  exact Nat.lt_irrefl _ less

variable [DecidableEq Lock]

theorem move_descends (world next : World) (threads : List (Thread World Lock)) (current thread : Thread World Lock)
    (holds : invariant world)
    (descends : Descends invariant rank current.prog (current.held.map Prod.fst) fun _ final => final = [])
    (moved : move world threads current = some (next, thread)) :
    invariant next ∧ Descends invariant rank thread.prog (thread.held.map Prod.fst) fun _ final => final = [] := by
  obtain ⟨held, prog⟩ := current
  cases prog with
  | pure result => cases moved
  | acquire lock mode rest =>
      simp only [move, Option.ite_none_right_eq_some, Option.some.injEq, Prod.mk.injEq] at moved
      obtain ⟨-, rfl, rfl⟩ := moved
      exact ⟨holds, descends.2⟩
  | release lock rest =>
      cases moved
      obtain ⟨remaining, same, later⟩ := descends
      cases held with
      | nil => cases same
      | cons taken others =>
          rw [List.map_cons, List.cons.injEq] at same
          obtain ⟨rfl, rfl⟩ := same
          exact ⟨holds, by simpa using later⟩
  | act update rest =>
      cases moved
      exact descends world holds
  | halt => cases moved

theorem ordered_step (possible : World → Op → Bool) (program : Op → Prog World Lock Unit)
    (sound : ∀ op, Nests invariant rank [] (program op) fun _ => True) (state next : State World Lock) (action : Action Op)
    (ordered : Ordered invariant rank state) (stepped : step possible program state action = some next) :
    Ordered invariant rank next := by
  cases action with
  | start index op =>
      rw [step] at stepped
      split at stepped
      · split at stepped
        · cases stepped
          exact ordered_set invariant rank state state.world index _ ordered ordered.1
            (descends_mono (program op) [] _ _ (sound op) fun _ _ => And.left)
        · cases stepped
      · cases stepped
  | move index =>
      rw [step] at stepped
      split at stepped
      · rename_i current here
        obtain ⟨⟨world, thread⟩, moved, rfl⟩ := Option.map_eq_some_iff.mp stepped
        obtain ⟨holds, descends⟩ := move_descends invariant rank state.world world state.threads current thread ordered.1
          (ordered.2 current (List.mem_of_getElem? here)) moved
        exact ordered_set invariant rank state world index thread ordered holds descends
      · cases stepped

theorem ordered_run (possible : World → Op → Bool) (program : Op → Prog World Lock Unit)
    (sound : ∀ op, Nests invariant rank [] (program op) fun _ => True) (world : World) (count : Nat) (holds : invariant world)
    (schedule : List (Action Op)) (final : State World Lock)
    (completed : run (step possible program) (idle world count) schedule = some final) : Ordered invariant rank final :=
  run_invariant (step possible program) (fun _ _ => True) (Ordered invariant rank)
    (fun state action next ordered _ stepped => ordered_step invariant rank possible program sound state next action ordered stepped)
    schedule (idle world count) final (ordered_idle invariant rank world count holds) (along_true _ _ _) completed

-- Where someone waits, someone can go on, unless a thread has halted: the
-- holder of the lock is not at its end, and what it waits for ranks lower.
theorem some_thread_moves (state : State World Lock) (ordered : Ordered invariant rank state) (thread : Thread World Lock)
    (member : thread ∈ state.threads) (lock : Lock) (mode : Mode) (awaited : thread.awaits = some (lock, mode)) :
    ∃ current ∈ state.threads, (move state.world state.threads current).isSome ∨ current.prog = .halt := by
  induction order : rank lock using Nat.strongRecOn generalizing thread lock mode with
  | ind bound ih =>
      by_cases granted : grants state.threads lock mode
      · refine ⟨thread, member, .inl ?_⟩
        obtain ⟨held, prog⟩ := thread
        cases prog <;> cases awaited
        simp [move, granted]
      · obtain ⟨holder, inThreads, taken, inHeld, same⟩ : ∃ holder ∈ state.threads, ∃ taken ∈ holder.held, taken.1 = lock := by
          simp only [grants, List.all_eq_true, not_forall] at granted
          obtain ⟨holder, inThreads, taken, inHeld, conflict⟩ := granted
          refine ⟨holder, inThreads, taken, inHeld, ?_⟩
          by_contra different
          simp [different] at conflict
        have below := awaits_below invariant rank state ordered holder inThreads
        have descends := ordered.2 holder inThreads
        obtain ⟨held, prog⟩ := holder
        cases prog with
        | pure result =>
            have none : held = [] := List.map_eq_nil_iff.mp descends
            rw [none] at inHeld
            cases inHeld
        | acquire next otherMode rest =>
            have less := below next otherMode rfl taken inHeld
            rw [same, order] at less
            exact ih _ less ⟨held, .acquire next otherMode rest⟩ inThreads next otherMode rfl rfl
        | release other rest => exact ⟨_, inThreads, .inl rfl⟩
        | act update rest => exact ⟨_, inThreads, .inl rfl⟩
        | halt => exact ⟨_, inThreads, .inr rfl⟩

end Safety

section Uninterrupted

variable {World Lock Op : Type}

theorem others_set (threads : List (Thread World Lock)) (index : Nat) (changed : Thread World Lock)
    (others : ∀ other thread, other ≠ index → threads[other]? = some thread → thread.held = []) (other : Nat)
    (thread : Thread World Lock) (different : other ≠ index) (present : (threads.set index changed)[other]? = some thread) :
    thread.held = [] := by
  rw [List.getElem?_set_ne (Ne.symm different)] at present
  exact others other thread different present

variable [DecidableEq Lock] (invariant : World → Prop) (rank : Lock → Nat) (possible : World → Op → Bool)
  (program : Op → Prog World Lock Unit)

theorem grants_own (threads : List (Thread World Lock)) (index : Nat) (held : List (Lock × Mode))
    (prog : Prog World Lock Unit) (here : threads[index]? = some ⟨held, prog⟩)
    (others : ∀ other thread, other ≠ index → threads[other]? = some thread → thread.held = [])
    (lock : Lock) (mode : Mode) (below : ∀ other ∈ held.map Prod.fst, rank lock < rank other) :
    grants threads lock mode := by
  refine List.all_eq_true.mpr fun thread member => List.all_eq_true.mpr fun taken inHeld => ?_
  obtain ⟨other, present⟩ := List.mem_iff_getElem?.mp member
  by_cases own : other = index
  · rw [own, here] at present
    cases present
    have less := below taken.1 (List.mem_map_of_mem inHeld)
    have different : taken.1 ≠ lock := fun same => Nat.lt_irrefl _ (same ▸ less)
    simp [different]
  · rw [others other thread own present] at inHeld
    cases inHeld

theorem moves_on (index : Nat) (state : State World Lock) (current thread after : Thread World Lock) (world final : World)
    (here : state.threads[index]? = some current) (moved : move state.world state.threads current = some (world, thread))
    (rest : ∃ moves, run (step possible program) ⟨world, state.threads.set index thread⟩ (List.replicate moves (.move index)) =
      some ⟨final, (state.threads.set index thread).set index after⟩) :
    ∃ moves, run (step possible program) state (List.replicate moves (.move index)) =
      some ⟨final, state.threads.set index after⟩ := by
  obtain ⟨moves, completed⟩ := rest
  refine ⟨moves + 1, ?_⟩
  rw [List.replicate_succ, run_cons, step, here]
  simp only [moved, Option.map_some, Option.bind_some, completed, List.set_set]

-- A thread that no other interrupts, while nobody else holds a lock, comes to
-- the end of its program.
theorem uninterrupted_runs (index : Nat) (prog : Prog World Lock Unit) (held : List (Lock × Mode))
    (state : State World Lock) (final : World) (here : state.threads[index]? = some ⟨held, prog⟩)
    (others : ∀ other thread, other ≠ index → state.threads[other]? = some thread → thread.held = [])
    (holds : invariant state.world) (descends : Descends invariant rank prog (held.map Prod.fst) fun _ final => final = [])
    (completes : prog.alone state.world = some ((), final)) :
    ∃ moves, run (step possible program) state (List.replicate moves (.move index)) =
      some ⟨final, state.threads.set index ⟨[], .pure ()⟩⟩ := by
  have bound : index < state.threads.length := (List.getElem?_eq_some_iff.mp here).1
  induction prog generalizing held state with
  | pure result =>
      cases completes
      have empty : held = [] := List.map_eq_nil_iff.mp descends
      rw [empty] at here
      obtain ⟨_, same⟩ := List.getElem?_eq_some_iff.mp here
      exact ⟨0, by rw [← same, List.set_getElem_self]; rfl⟩
  | acquire lock mode next ih =>
      have granted := grants_own rank state.threads index held _ here others lock mode descends.1
      refine moves_on possible program index state _ ⟨(lock, mode) :: held, next⟩ _ state.world final here
        (by simp [move, granted]) (ih ((lock, mode) :: held) _ (by simp [bound]) (others_set state.threads index _ others)
          holds descends.2 completes (by simpa using bound))
  | release lock next ih =>
      obtain ⟨remaining, same, later⟩ := descends
      obtain ⟨taken, rest, rfl, rfl, rfl⟩ := List.map_eq_cons_iff.mp same
      refine moves_on possible program index state _ ⟨rest, next⟩ _ state.world final here (by simp [move])
        (ih rest _ (by simp [bound]) (others_set state.threads index _ others) holds later completes (by simpa using bound))
  | act update next ih =>
      obtain ⟨kept, later⟩ := descends state.world holds
      refine moves_on possible program index state _ ⟨held, next state.world⟩ _ (update state.world) final here rfl
        (ih _ held _ (by simp [bound]) (others_set state.threads index _ others) kept later completes (by simpa using bound))
  | halt => cases completes

theorem operation_alone (sound : ∀ op, Nests invariant rank [] (program op) fun _ => True) (world final : World)
    (count index : Nat) (bound : index < count) (op : Op) (allowed : possible world op = true) (holds : invariant world)
    (completes : (program op).alone world = some ((), final)) :
    ∃ moves, run (step possible program) (idle world count) (.start index op :: List.replicate moves (.move index)) =
      some (idle final count) := by
  have there : (idle world count : State World Lock).threads[index]? = some ⟨[], .pure ()⟩ := by simp [idle, bound]
  have others (other : Nat) (thread : Thread World Lock) (_ : other ≠ index)
      (present : (idle world count : State World Lock).threads[other]? = some thread) : thread.held = [] := by
    rw [List.eq_of_mem_replicate (List.mem_of_getElem? present)]
  obtain ⟨moves, completed⟩ := uninterrupted_runs invariant rank possible program index (program op) []
    ⟨world, (idle world count : State World Lock).threads.set index ⟨[], program op⟩⟩ final (by simp [idle, bound])
    (others_set _ index _ others) holds
    (descends_mono (program op) [] _ _ (sound op) fun _ _ => And.left) completes
  refine ⟨moves, ?_⟩
  rw [run_cons, step, there]
  simp only [idle, allowed, if_true, Option.bind_some]
  rw [idle] at completed
  rw [completed, List.set_set]
  exact congrArg (fun threads => some (⟨final, threads⟩ : State World Lock)) (by simp)

end Uninterrupted

end Sylar.Lib.LockOrder
