import Mathlib.Order.Monotone.Basic
import Sylar.Lib.Sections

set_option autoImplicit false

namespace Sylar.Lib.Linear

open Function (update)
open Sections (execute fineStep settled wholeStep)

variable {Data Op Answer : Type}

-- An object that one lock guards: apply says what a call does to it when
-- nothing else happens, the body how the call goes about it under the lock.
structure Implementation (apply : Op → Data → Data × Answer) where
  Scratch : Type
  empty : Scratch
  mode : Op → Mode
  body : Op → Body Data Scratch
  answer : Op → Scratch → Answer
  reads : ∀ op, mode op = .shared → (body op).Reads
  computes : ∀ op data own, ∃ after,
    execute (body op) data own = some ((apply op data).1, after) ∧ answer op after = (apply op data).2

structure Client (Op Answer Scratch : Type) where
  calls : List Op
  answers : List (Op × Answer)
  scratch : Scratch

def whole : View Data Data where
  get := id
  put := fun part _ => part
  get_put := fun _ _ => rfl
  put_put := fun _ _ _ => rfl
  put_get := fun _ => rfl

def scratch {Scratch : Type} : View Scratch (Client Op Answer Scratch) where
  get := Client.scratch
  put := fun scratch own => { own with scratch := scratch }
  get_put := fun _ _ => rfl
  put_put := fun _ _ _ => rfl
  put_get := fun _ => rfl

-- One call after the other, each with what it answers.
def sequential (apply : Op → Data → Data × Answer) : Data → List Op → Data × List (Op × Answer)
  | data, [] => (data, [])
  | data, op :: rest =>
      let first := apply op data
      let later := sequential apply first.1 rest
      (later.1, (op, first.2) :: later.2)

theorem sequential_append (apply : Op → Data → Data × Answer) (data : Data) (before after : List Op) :
    sequential apply data (before ++ after) =
      ((sequential apply (sequential apply data before).1 after).1,
        (sequential apply data before).2 ++ (sequential apply (sequential apply data before).1 after).2) := by
  induction before generalizing data with
  | nil => rfl
  | cons op rest ih => simp [sequential, ih]

-- An invariant of the single calls that also says what each of them answers.
theorem sequential_invariant (apply : Op → Data → Data × Answer) (invariant : Data → Prop) (fact : Data → Op × Answer → Prop)
    (kept : ∀ data op, invariant data → invariant (apply op data).1)
    (answered : ∀ data op, invariant data → fact (apply op data).1 (op, (apply op data).2))
    (lasts : ∀ data op call, invariant data → fact data call → fact (apply op data).1 call)
    (data : Data) (ops : List Op) (holds : invariant data) :
    invariant (sequential apply data ops).1 ∧
      (∀ call, fact data call → fact (sequential apply data ops).1 call) ∧
      ∀ call ∈ (sequential apply data ops).2, fact (sequential apply data ops).1 call := by
  induction ops generalizing data with
  | nil => exact ⟨holds, fun _ known => known, by simp [sequential]⟩
  | cons op rest ih =>
      obtain ⟨last, stays, later⟩ := ih (apply op data).1 (kept data op holds)
      refine ⟨last, fun call known => stays call (lasts data op call holds known), ?_⟩
      intro call member
      rcases List.mem_cons.mp member with rfl | after
      · exact stays _ (answered data op holds)
      · exact later call after

def ofThread (thread : Nat) (order : List (Nat × Op × Answer)) : List (Op × Answer) :=
  (order.filter fun call => call.1 = thread).map Prod.snd

theorem of_thread_append (thread : Nat) (before after : List (Nat × Op × Answer)) :
    ofThread thread (before ++ after) = ofThread thread before ++ ofThread thread after := by
  simp [ofThread]

theorem mem_of_thread (thread : Nat) (order : List (Nat × Op × Answer)) (call : Op × Answer) :
    call ∈ ofThread thread order ↔ (thread, call) ∈ order := by
  simp [ofThread]

section Calls

variable {apply : Op → Data → Data × Answer} (object : Implementation apply)

abbrev Thread := Client Op Answer object.Scratch

abbrev Calling := Whole Unit Unit Data (Thread object)

def call (op : Op) (rest : List Op) : Body Data (Thread object) :=
  ((object.body op).lift whole scratch).append
    (.step (fun data own => some (data, { own with
      calls := rest, answers := own.answers ++ [(op, object.answer op own.scratch)] })) fun _ => .done)

theorem call_reads (op : Op) (rest : List Op) (shared : object.mode op = .shared) : (call object op rest).Reads := by
  refine Sections.reads_append _ _ (Sections.reads_lift _ _ _ (object.reads op shared)) ⟨?_, fun _ => trivial⟩
  intro data own result executed
  cases executed
  rfl

def moves (own : Thread object) : Option (Move Unit Unit Data (Thread object)) :=
  match own.calls with
  | [] => none
  | op :: rest => some (.enter ⟨(), object.mode op, call object op rest, call_reads object op rest⟩)

def start (data : Data) (programs : Nat → List Op) : Calling object where
  free := ()
  data := fun _ => data
  locals := fun thread => ⟨programs thread, [], object.empty⟩

theorem call_execute (op : Op) (rest : List Op) (data : Data) (own : Thread object) :
    ∃ after, execute (call object op rest) data own = some ((apply op data).1, after) ∧ after.calls = rest ∧
      after.answers = own.answers ++ [(op, (apply op data).2)] := by
  obtain ⟨left, executed, answers⟩ := object.computes op data own.scratch
  refine ⟨{ calls := rest, answers := own.answers ++ [(op, (apply op data).2)], scratch := left }, ?_, rfl, rfl⟩
  rw [call, Sections.execute_append, Sections.execute_lift]
  simp only [whole, scratch, id, executed, Option.map_some, Option.bind_some, execute, answers]

-- The calls that have been answered, in the order in which they were.
structure Ordered (initial : Data) (programs : Nat → List Op) (order : List (Nat × Op × Answer)) (state : Calling object) :
    Prop where
  answered : sequential apply initial (order.map fun call => call.2.1) = (state.data (), order.map Prod.snd)
  own : ∀ thread, (state.locals thread).answers = ofThread thread order
  left : ∀ thread, (ofThread thread order).map Prod.fst ++ (state.locals thread).calls = programs thread

variable (initial : Data) (programs : Nat → List Op)

theorem start_ordered : Ordered object initial programs [] (start object initial programs) := ⟨rfl, fun _ => rfl, fun _ => rfl⟩

theorem step_ordered (order : List (Nat × Op × Answer)) (state next : Calling object) (thread : Nat)
    (ordered : Ordered object initial programs order state) (stepped : wholeStep (moves object) state thread = some next) :
    ∃ later, Ordered object initial programs (order ++ [(thread, later)]) next := by
  rw [wholeStep, moves] at stepped
  cases calls : (state.locals thread).calls with
  | nil =>
      rw [calls] at stepped
      cases stepped
  | cons op rest =>
      obtain ⟨after, executed, remaining, answers⟩ := call_execute object op rest (state.data ()) (state.locals thread)
      rw [calls] at stepped
      simp only [executed, Option.map_some, Option.some.injEq] at stepped
      subst stepped
      refine ⟨(op, (apply op (state.data ())).2), ?_, ?_, ?_⟩
      · rw [List.map_append, sequential_append, ordered.answered]
        simp [sequential]
      · intro other
        rw [of_thread_append]
        by_cases same : other = thread
        · subst same
          simp [answers, ordered.own, ofThread]
        · have different : thread ≠ other := fun equal => same equal.symm
          simp [same, different, ordered.own, ofThread]
      · intro other
        rw [of_thread_append]
        by_cases same : other = thread
        · subst same
          rw [← ordered.left, calls]
          simp [remaining, ofThread]
        · have different : thread ≠ other := fun equal => same equal.symm
          rw [← ordered.left]
          simp [same, different, ofThread]

-- The calls answered so far are those of the order, each answered as it is there.
structure Explains (order : List (Nat × Op × Answer)) (state : Fine Unit Unit Data (Thread object)) : Prop where
  answered : ∃ data, sequential apply initial (order.map fun call => call.2.1) = (data, order.map Prod.snd) ∧
    (Sections.Undisturbed state () → state.data () = data)
  own : ∀ thread, (state.locals thread).answers = ofThread thread order
  left : ∀ thread, (ofThread thread order).map Prod.fst ++ (state.locals thread).calls = programs thread

theorem call_shows_last (op : Op) (rest : List Op) :
    (call object op rest).ShowsLast fun own : Thread object => (own.answers, own.calls) :=
  Sections.shows_last_append _ _ _ (Sections.silent_lift whole scratch _ (fun _ _ => rfl) _)
    ⟨fun _ _ _ _ => .inl rfl, fun _ => trivial⟩

theorem moves_show_last (own : Thread object) (entered : LockedSection Unit Data (Thread object))
    (move : moves object own = some (.enter entered)) :
    entered.body.ShowsLast fun own : Thread object => (own.answers, own.calls) := by
  rw [moves] at move
  split at move
  · cases move
  · cases move
    exact call_shows_last object _ _

theorem simulates_explains (order : List (Nat × Op × Answer)) (state : Calling object)
    (fine : Fine Unit Unit Data (Thread object)) (ordered : Ordered object initial programs order state)
    (simulates : Sections.Simulates (moves object) fine state) : Explains object initial programs order fine := by
  have same (thread : Nat) : ((fine.locals thread).answers, (fine.locals thread).calls) =
      ((state.locals thread).answers, (state.locals thread).calls) :=
    Sections.simulates_shown (moves object) (fun own => (own.answers, own.calls)) (moves_show_last object) fine state
      simulates thread
  refine ⟨⟨state.data (), ordered.answered, fun undisturbed => simulates.unwritten () undisturbed⟩, fun thread => ?_,
    fun thread => ?_⟩
  · rw [(Prod.mk.inj (same thread)).1]
    exact ordered.own thread
  · rw [(Prod.mk.inj (same thread)).2]
    exact ordered.left thread

theorem trace_ordered (trace : Nat → Calling object) (starts : trace 0 = start object initial programs)
    (steps : ∀ count, trace (count + 1) = trace count ∨
      ∃ thread, wholeStep (moves object) (trace count) thread = some (trace (count + 1))) :
    ∃ orders : Nat → List (Nat × Op × Answer), (∀ count, orders count <+: orders (count + 1)) ∧
      ∀ count, Ordered object initial programs (orders count) (trace count) := by
  have grows (count : Nat) (order : List (Nat × Op × Answer)) (ordered : Ordered object initial programs order (trace count)) :
      ∃ next, order <+: next ∧ Ordered object initial programs next (trace (count + 1)) := by
    rcases steps count with same | ⟨thread, stepped⟩
    · exact ⟨order, List.prefix_refl _, same ▸ ordered⟩
    · obtain ⟨later, extended⟩ := step_ordered object initial programs order _ _ thread ordered stepped
      exact ⟨_, List.prefix_append _ _, extended⟩
  choose next longer extended using grows
  let orders : (count : Nat) → { order // Ordered object initial programs order (trace count) } := fun count =>
    count.rec ⟨[], starts ▸ start_ordered object initial programs⟩ fun count before =>
      ⟨next count before.1 before.2, extended count before.1 before.2⟩
  exact ⟨fun count => (orders count).1, fun count => longer count _ _, fun count => (orders count).2⟩

-- There is one order of all calls, and at every moment those answered so far
-- are the first ones of it. So a call that is answered before another one begins
-- stands before it.
theorem in_one_order (schedule : List Nat) :
    ∃ (order : List (Nat × Op × Answer)) (cut : Nat → Nat), Monotone cut ∧ cut schedule.length = order.length ∧
      ∀ before after middle, schedule = before ++ after →
        run (fineStep (moves object)) (settled (start object initial programs)) before = some middle →
        Explains object initial programs (order.take (cut before.length)) middle := by
  obtain ⟨trace, starts, steps, moments⟩ := Sections.fine_run_traced (moves object) schedule _ (start object initial programs)
    (Sections.settled_simulates _ _)
  obtain ⟨orders, grows, ordered⟩ := trace_ordered object initial programs trace starts steps
  have longer (first more : Nat) : orders first <+: orders (first + more) := by
    induction more with
    | zero => exact List.prefix_refl _
    | succ more ih => exact ih.trans (grows (first + more))
  refine ⟨orders schedule.length, fun count => (orders count).length,
    monotone_nat_of_le_succ fun count => (grows count).length_le, rfl, ?_⟩
  intro before after middle split reached
  have first : orders before.length <+: orders schedule.length := by
    rw [split, List.length_append]
    exact longer before.length after.length
  rw [← List.prefix_iff_eq_take.mp first]
  exact simulates_explains object initial programs _ _ middle (ordered before.length) (moments before after middle split reached)

end Calls

end Sylar.Lib.Linear
