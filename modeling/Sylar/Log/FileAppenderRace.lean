import Mathlib.Logic.Function.Basic
import Sylar.Log.FileLogAppender

set_option autoImplicit false

namespace Sylar.Log.FileAppenderRace

open Function (update)
open Lib (run)

-- One call of FileLogAppender::log, and what stands in the buffers of its run of format.
structure Request where
  logger : Logger LogFormatter
  level : Level
  event : LogEvent
  bufs : Nat → String

-- Where a thread stands in FileLogAppender::log: about to take the lock in
-- reopen, about to set m_lastTime, about to take the lock for the write.
inductive Phase where
  | idle
  | reopening (request : Request)
  | stamping (request : Request)
  | writing (request : Request)

-- Any number of threads share one appender; each has the calls it still makes.
-- The log keeps the writes that found the file open, with their threads.
structure Shared where
  appender : FileLogAppender
  phases : Nat → Phase
  calls : Nat → List Request
  logged : List (Nat × Request)

-- A thread that takes its next step, and how much of what waits in the stream
-- the system takes in a step that writes.
structure Turn where
  thread : Nat
  written : Nat

def success (written : Nat) : Outcome := ⟨true, true, true, 0, written⟩

def start (base : LogAppender LogFormatter) (programs : Nat → List Request) : Shared :=
  ⟨.new base, fun _ => .idle, programs, []⟩

def Phase.request : Phase → List Request
  | .idle => []
  | .reopening request | .stamping request | .writing request => [request]

def recordsOf (thread : Nat) (logged : List (Nat × Request)) : List Request :=
  (logged.filter fun entry => entry.1 = thread).map Prod.snd

def passing (base : LogAppender LogFormatter) (request : Request) : Bool := base.level.toNat ≤ request.level.toNat

-- The calls of a thread that are to be written and are not yet.
def pending (base : LogAppender LogFormatter) (state : Shared) (thread : Nat) : List Request :=
  (state.phases thread).request ++ (state.calls thread).filter (passing base)

-- The thread is idle and has no more calls to make.
def Finished (state : Shared) (thread : Nat) : Prop := (state.phases thread).request = [] ∧ state.calls thread = []

def Phase.left : Phase → Nat
  | .idle => 0
  | .writing _ => 1
  | .stamping _ => 2
  | .reopening _ => 3

-- An upper bound on the steps a thread still takes.
def left (state : Shared) (thread : Nat) : Nat := (state.phases thread).left + 4 * (state.calls thread).length

section Race

variable (strftime : String → Nat → String)

def text (formatter : LogFormatter) (request : Request) : String :=
  formatter.format strftime request.bufs request.logger request.level request.event

-- A thread reads m_level and m_lastTime, then takes the branch: what follows
-- goes on from the value it read.
def step (state : Shared) (turn : Turn) : Option Shared :=
  let thread := turn.thread
  match state.phases thread with
  | .idle =>
      match state.calls thread with
      | [] => none
      | request :: rest =>
          let called := { state with calls := update state.calls thread rest }
          if !state.appender.passes request.level then some called
          else if state.appender.due request.event.getTime then
            some { called with phases := update state.phases thread (.reopening request) }
          else some { called with phases := update state.phases thread (.writing request) }
  | .reopening request =>
      some { state with
        appender := (state.appender.reopen (success turn.written)).1
        phases := update state.phases thread (.stamping request) }
  | .stamping request =>
      some { state with
        appender := { state.appender with lastTime := request.event.getTime }
        phases := update state.phases thread (.writing request) }
  | .writing request =>
      state.appender.formatter.map fun formatter => { state with
        appender := { state.appender with
          filestream := state.appender.filestream.write (success turn.written) (text strftime formatter request) }
        phases := update state.phases thread .idle
        logged := if state.appender.filestream.Healthy then state.logged ++ [(thread, request)] else state.logged }

-- m_lastTime is set only after the file was opened, and a file once open stays
-- open; so whoever finds m_lastTime set, or is past reopen, can write.
structure Ready (base : LogAppender LogFormatter) (state : Shared) : Prop where
  base : state.appender.toLogAppender = base
  free : ¬ state.appender.filestream.Stuck
  stamped : state.appender.lastTime ≠ 0 → state.appender.filestream.Healthy
  opened : ∀ thread request, state.phases thread = .stamping request ∨ state.phases thread = .writing request →
    state.appender.filestream.Healthy
  late : ∀ thread, ∀ request ∈ (state.phases thread).request ++ state.calls thread, 3 ≤ request.event.getTime

-- What a thread asked for is what the stream has taken of it and what is still
-- to come; what it has taken stands in the file or is still in its buffer.
structure Kept (base : LogAppender LogFormatter) (programs : Nat → List Request) (state : Shared) : Prop where
  ordered : ∀ thread, recordsOf thread state.logged ++ pending base state thread = (programs thread).filter (passing base)
  taken : ∀ formatter, base.formatter = some formatter → state.appender.filestream.taken =
    state.logged.map fun entry => text strftime formatter entry.2
  content : state.appender.filestream.content = state.appender.filestream.taken.flatMap String.toList

section Steps

variable (base : LogAppender LogFormatter) (state after : Shared) (thread written : Nat)

theorem records_of_snoc (logged : List (Nat × Request)) (other : Nat) (request : Request) :
    recordsOf other (logged ++ [(thread, request)]) =
      if thread = other then recordsOf other logged ++ [request] else recordsOf other logged := by
  by_cases same : thread = other <;> simp [recordsOf, List.filter_append, same]

theorem not_due_stamped (appender : FileLogAppender) (now : UInt64) (late : 3 ≤ now) (recent : ¬ appender.due now = true) :
    appender.lastTime ≠ 0 := by
  intro unset
  rw [FileLogAppender.due, unset] at recent
  simp [late] at recent

theorem start_ready (programs : Nat → List Request)
    (late : ∀ thread, ∀ request ∈ programs thread, 3 ≤ request.event.getTime) : Ready base (start base programs) where
  base := rfl
  free := by simp [start, FileLogAppender.new, Ofstream.new, Ofstream.Stuck]
  stamped := by simp [start, FileLogAppender.new]
  opened := by simp [start]
  late := by simpa [start, Phase.request] using late

theorem start_kept (programs : Nat → List Request) : Kept strftime base programs (start base programs) where
  ordered := by simp [start, recordsOf, pending, Phase.request]
  taken := by simp [start, FileLogAppender.new, Ofstream.new]
  content := by simp [start, FileLogAppender.new, Ofstream.new, Ofstream.content]

theorem late_update (late : ∀ other, ∀ request ∈ (state.phases other).request ++ state.calls other, 3 ≤ request.event.getTime)
    (phase : Phase) (rest : List Request)
    (own : ∀ request ∈ phase.request ++ rest, request ∈ (state.phases thread).request ++ state.calls thread) :
    ∀ other, ∀ request ∈ (update state.phases thread phase other).request ++ update state.calls thread rest other,
      3 ≤ request.event.getTime := by
  intro other request member
  by_cases same : other = thread
  · subst same
    simp only [Function.update_self] at member
    exact late other request (own request member)
  · simp only [Function.update_of_ne same] at member
    exact late other request member

theorem pending_update (phase : Phase) (rest : List Request) (other : Nat) (appender : FileLogAppender)
    (logged : List (Nat × Request)) :
    pending base ⟨appender, update state.phases thread phase, update state.calls thread rest, logged⟩ other =
      if other = thread then phase.request ++ rest.filter (passing base) else pending base state other := by
  by_cases same : other = thread
  · subst same
    simp [pending]
  · simp [pending, same]

theorem step_cases (stepped : step strftime state ⟨thread, written⟩ = some after) :
    (∃ request rest, state.phases thread = .idle ∧ state.calls thread = request :: rest ∧
      state.appender.passes request.level = false ∧ after = { state with calls := update state.calls thread rest }) ∨
    (∃ request rest phase, state.phases thread = .idle ∧ state.calls thread = request :: rest ∧
      state.appender.passes request.level = true ∧
      (phase = .reopening request ∨ phase = .writing request ∧ ¬ state.appender.due request.event.getTime = true) ∧
      after = { state with calls := update state.calls thread rest, phases := update state.phases thread phase }) ∨
    (∃ request, state.phases thread = .reopening request ∧ after = { state with
      appender := (state.appender.reopen (success written)).1, phases := update state.phases thread (.stamping request) }) ∨
    (∃ request, state.phases thread = .stamping request ∧ after = { state with
      appender := { state.appender with lastTime := request.event.getTime }
      phases := update state.phases thread (.writing request) }) ∨
    (∃ request formatter, state.phases thread = .writing request ∧ state.appender.formatter = some formatter ∧
      after = { state with
        appender := { state.appender with
          filestream := state.appender.filestream.write (success written) (text strftime formatter request) }
        phases := update state.phases thread .idle
        logged := if state.appender.filestream.Healthy then state.logged ++ [(thread, request)] else state.logged }) := by
  rw [step] at stepped
  split at stepped
  · rename_i idle
    split at stepped
    · cases stepped
    · rename_i request rest calls
      split at stepped
      · rename_i refused
        cases stepped
        exact .inl ⟨request, rest, idle, calls, by simpa using refused, rfl⟩
      · rename_i admitted
        have passes : state.appender.passes request.level = true := by simpa using admitted
        split at stepped
        · cases stepped
          exact .inr (.inl ⟨request, rest, _, idle, calls, passes, .inl rfl, rfl⟩)
        · rename_i recent
          cases stepped
          exact .inr (.inl ⟨request, rest, _, idle, calls, passes, .inr ⟨rfl, recent⟩, rfl⟩)
  · rename_i request phase
    cases stepped
    exact .inr (.inr (.inl ⟨request, phase, rfl⟩))
  · rename_i request phase
    cases stepped
    exact .inr (.inr (.inr (.inl ⟨request, phase, rfl⟩)))
  · rename_i request phase
    obtain ⟨formatter, given, rfl⟩ := Option.map_eq_some_iff.mp stepped
    exact .inr (.inr (.inr (.inr ⟨request, formatter, phase, given, rfl⟩)))

theorem step_ready (ready : Ready base state) (stepped : step strftime state ⟨thread, written⟩ = some after) :
    Ready base after := by
  have keeps := late_update state thread ready.late
  have onward (phase : Phase) (own : ∀ request ∈ phase.request, request ∈ (state.phases thread).request) :
      ∀ other, ∀ request ∈ (update state.phases thread phase other).request ++ state.calls other, 3 ≤ request.event.getTime := by
    have later := keeps phase (state.calls thread) fun request member => by
      rcases List.mem_append.mp member with mine | still
      · exact List.mem_append_left _ (own request mine)
      · exact List.mem_append_right _ still
    rwa [Function.update_eq_self] at later
  rcases step_cases strftime state after thread written stepped with
    ⟨request, rest, idle, calls, -, rfl⟩ | ⟨request, rest, phase, idle, calls, -, chosen, rfl⟩ | ⟨request, phase, rfl⟩ |
      ⟨request, phase, rfl⟩ | ⟨request, formatter, phase, -, rfl⟩
  · refine ⟨ready.base, ready.free, ready.stamped, ready.opened, ?_⟩
    have later := keeps .idle rest (by simp +contextual [Phase.request, calls])
    rwa [show update state.phases thread .idle = state.phases by rw [← idle, Function.update_eq_self]] at later
  · have mine := ready.late thread request (by simp [calls])
    have carries : phase.request = [request] := by rcases chosen with rfl | ⟨rfl, -⟩ <;> rfl
    refine ⟨ready.base, ready.free, ready.stamped, ?_, keeps phase rest (by simp +contextual [carries, calls])⟩
    rcases chosen with rfl | ⟨rfl, recent⟩
    · intro other held past
      by_cases same : other = thread
      · subst same
        simp at past
      · exact ready.opened other held (by simpa [same] using past)
    · exact fun _ _ _ => ready.stamped (not_due_stamped state.appender _ mine recent)
  · have healthy := Ofstream.reopen_healthy (success written) state.appender.filestream rfl ready.free
    exact ⟨ready.base, fun stuck => healthy.2 stuck.2, fun _ => healthy, fun _ _ _ => healthy,
      onward (.stamping request) (by simp [phase, Phase.request])⟩
  · have healthy := ready.opened thread request (.inl phase)
    exact ⟨ready.base, ready.free, fun _ => healthy, fun _ _ _ => healthy,
      onward (.writing request) (by simp [phase, Phase.request])⟩
  · have healthy := ready.opened thread request (.inr phase)
    have next := Ofstream.write_healthy (success written) (text strftime formatter request) state.appender.filestream healthy rfl
    exact ⟨ready.base, fun stuck => next.2 stuck.2, fun _ => next, fun _ _ _ => next,
      onward .idle (by simp [Phase.request])⟩

theorem pending_onward (phase : Phase) (carried : phase.request = (state.phases thread).request) (other : Nat)
    (appender : FileLogAppender) :
    pending base ⟨appender, update state.phases thread phase, state.calls, state.logged⟩ other = pending base state other := by
  have moved := pending_update base state thread phase (state.calls thread) other appender state.logged
  rw [Function.update_eq_self] at moved
  rw [moved]
  split
  · rename_i equal
    rw [equal, pending, carried]
  · rfl

-- A thread that takes up its next call: what it carries from there on is what
-- the level lets through.
theorem pending_taken (request : Request) (rest : List Request) (phase : Phase) (idle : state.phases thread = .idle)
    (calls : state.calls thread = request :: rest)
    (carries : phase.request = if passing base request then [request] else []) (other : Nat) :
    pending base ⟨state.appender, update state.phases thread phase, update state.calls thread rest, state.logged⟩ other =
      pending base state other := by
  rw [pending_update base state thread phase rest]
  split
  · rename_i equal
    rw [equal, pending, idle, calls, carries, List.filter_cons]
    split <;> rfl
  · rfl

theorem step_kept (programs : Nat → List Request) (ready : Ready base state) (kept : Kept strftime base programs state)
    (stepped : step strftime state ⟨thread, written⟩ = some after) : Kept strftime base programs after := by
  have level (request : Request) : state.appender.passes request.level = passing base request := by
    rw [← ready.base]
    rfl
  have unchanged (next : Shared) (logged : next.logged = state.logged)
      (same : ∀ other, pending base next other = pending base state other)
      (taken : next.appender.filestream.taken = state.appender.filestream.taken)
      (content : next.appender.filestream.content = state.appender.filestream.content) : Kept strftime base programs next := by
    refine ⟨fun other => ?_, fun formatter given => ?_, ?_⟩
    · rw [logged, same other]
      exact kept.ordered other
    · rw [taken, logged]
      exact kept.taken formatter given
    · rw [taken, content]
      exact kept.content
  rcases step_cases strftime state after thread written stepped with
    ⟨request, rest, idle, calls, refused, rfl⟩ | ⟨request, rest, phase, idle, calls, admitted, chosen, rfl⟩ |
      ⟨request, phase, rfl⟩ | ⟨request, phase, rfl⟩ | ⟨request, formatter, phase, given, rfl⟩
  · rw [level] at refused
    have taken := pending_taken base state thread request rest .idle idle calls (by rw [refused]; rfl)
    rw [show update state.phases thread .idle = state.phases by rw [← idle, Function.update_eq_self]] at taken
    exact unchanged _ rfl taken rfl rfl
  · rw [level] at admitted
    have carries : phase.request = [request] := by rcases chosen with rfl | ⟨rfl, -⟩ <;> rfl
    exact unchanged _ rfl (pending_taken base state thread request rest phase idle calls (by rw [carries, admitted]; rfl)) rfl rfl
  · exact unchanged _ rfl (fun other => pending_onward base state thread _ (by rw [phase]; rfl) other _)
      (Ofstream.reopen_taken _ state.appender.filestream) (Ofstream.reopen_content _ state.appender.filestream ⟨rfl, rfl⟩)
  · exact unchanged _ rfl (fun other => pending_onward base state thread _ (by rw [phase]; rfl) other _) rfl rfl
  · have healthy := ready.opened thread request (.inr phase)
    have takes : state.appender.filestream.Takes (success written) (text strftime formatter request) := ⟨healthy, .inl rfl⟩
    have taken := Ofstream.write_taken (success written) (text strftime formatter request) state.appender.filestream
    have content := Ofstream.write_content (success written) (text strftime formatter request) state.appender.filestream ⟨rfl, rfl⟩
    rw [if_pos takes] at taken content
    have left := pending_update base state thread .idle (state.calls thread)
    rw [Function.update_eq_self] at left
    rw [if_pos healthy]
    refine ⟨fun other => ?_, fun mine here => ?_, ?_⟩
    · rw [left, records_of_snoc, ← kept.ordered other]
      by_cases equal : thread = other
      · subst equal
        simp [pending, phase, Phase.request]
      · simp [equal, Ne.symm equal]
    · have ownFormatter : state.appender.formatter = base.formatter := by rw [← ready.base]
      rw [given, here, Option.some.injEq] at ownFormatter
      rw [taken, kept.taken mine here, List.map_append, ownFormatter]
      rfl
    · rw [content, taken, kept.content, List.flatMap_append, List.flatMap_singleton]

theorem unfinished_steps (formatter : LogFormatter) (given : state.appender.formatter = some formatter)
    (unfinished : ¬ Finished state thread) : (step strftime state ⟨thread, written⟩).isSome := by
  cases phase : state.phases thread with
  | idle =>
      cases calls : state.calls thread with
      | nil => exact absurd ⟨by rw [phase]; rfl, calls⟩ unfinished
      | cons request rest =>
          simp only [step, phase, calls]
          split
          · rfl
          · split <;> rfl
  | reopening request => simp [step, phase]
  | stamping request => simp [step, phase]
  | writing request => simp [step, phase, given]

theorem finished_iff : Finished state thread ↔ left state thread = 0 := by
  rw [Finished, left]
  cases state.phases thread <;> cases state.calls thread <;> simp [Phase.request, Phase.left]

theorem left_update (phase : Phase) (rest : List Request) (appender : FileLogAppender) (logged : List (Nat × Request))
    (other : Nat) : left ⟨appender, update state.phases thread phase, update state.calls thread rest, logged⟩ other =
      if other = thread then phase.left + 4 * rest.length else left state other := by
  by_cases same : other = thread
  · subst same
    simp [left]
  · simp [left, same]

-- Each step leaves its thread less to do, and the others as much as before.
theorem step_left (stepped : step strftime state ⟨thread, written⟩ = some after) :
    left after thread < left state thread ∧ ∀ other, other ≠ thread → left after other = left state other := by
  have changed (phase : Phase) (rest : List Request) (appender : FileLogAppender) (logged : List (Nat × Request))
      (less : phase.left + 4 * rest.length < left state thread) :
      left ⟨appender, update state.phases thread phase, update state.calls thread rest, logged⟩ thread < left state thread ∧
        ∀ other, other ≠ thread →
          left ⟨appender, update state.phases thread phase, update state.calls thread rest, logged⟩ other = left state other := by
    refine ⟨?_, fun other apart => ?_⟩
    · rwa [left_update, if_pos rfl]
    · rw [left_update, if_neg apart]
  have sameCalls : update state.calls thread (state.calls thread) = state.calls := Function.update_eq_self ..
  have samePhases : update state.phases thread (state.phases thread) = state.phases := Function.update_eq_self ..
  rcases step_cases strftime state after thread written stepped with
    ⟨request, rest, idle, calls, -, rfl⟩ | ⟨request, rest, phase, idle, calls, -, chosen, rfl⟩ | ⟨request, phase, rfl⟩ |
      ⟨request, phase, rfl⟩ | ⟨request, formatter, phase, -, rfl⟩
  · have later := changed (state.phases thread) rest state.appender state.logged (by simp [left, calls])
    rwa [samePhases] at later
  · refine changed phase rest state.appender state.logged ?_
    rw [left, idle, calls, List.length_cons]
    rcases chosen with rfl | ⟨rfl, -⟩ <;> simp only [Phase.left] <;> omega
  · have later := changed (.stamping request) (state.calls thread) (state.appender.reopen (success written)).1 state.logged
      (by simp [left, phase, Phase.left])
    rwa [sameCalls] at later
  · have later := changed (.writing request) (state.calls thread) { state.appender with lastTime := request.event.getTime }
      state.logged (by simp [left, phase, Phase.left])
    rwa [sameCalls] at later
  · have later := changed .idle (state.calls thread) { state.appender with
      filestream := state.appender.filestream.write (success written) (text strftime formatter request) }
      (if state.appender.filestream.Healthy then state.logged ++ [(thread, request)] else state.logged)
      (by simp [left, phase, Phase.left])
    rwa [sameCalls] at later

structure Reached (base : LogAppender LogFormatter) (programs : Nat → List Request) (state : Shared) : Prop where
  ready : Ready base state
  kept : Kept strftime base programs state
  bounded : ∀ thread, left state thread ≤ 4 * (programs thread).length

theorem start_reached (programs : Nat → List Request)
    (late : ∀ thread, ∀ request ∈ programs thread, 3 ≤ request.event.getTime) :
    Reached strftime base programs (start base programs) where
  ready := start_ready base programs late
  kept := start_kept strftime base programs
  bounded := fun thread => by simp [left, start, Phase.left]

theorem step_less (stepped : step strftime state ⟨thread, written⟩ = some after) (other : Nat) :
    left after other ≤ left state other := by
  obtain ⟨less, others⟩ := step_left strftime state after thread written stepped
  by_cases same : other = thread
  · rw [same]
    exact Nat.le_of_lt less
  · exact Nat.le_of_eq (others other same)

theorem step_reached (programs : Nat → List Request) (reached : Reached strftime base programs state)
    (stepped : step strftime state ⟨thread, written⟩ = some after) : Reached strftime base programs after where
  ready := step_ready strftime base state after thread written reached.ready stepped
  kept := step_kept strftime base state after thread written programs reached.ready reached.kept stepped
  bounded := fun other => Nat.le_trans (step_less strftime state after thread written stepped other) (reached.bounded other)

theorem thread_moves (programs : Nat → List Request) (formatter : LogFormatter) (given : base.formatter = some formatter)
    (reached : Reached strftime base programs state) (unfinished : left state thread ≠ 0) :
    ∃ turn next, step strftime state turn = some next ∧ Reached strftime base programs next ∧
      left next thread < left state thread ∧ ∀ other, left next other ≤ left state other := by
  have own : state.appender.formatter = some formatter := by rw [← given, ← reached.ready.base]
  obtain ⟨next, stepped⟩ := Option.isSome_iff_exists.mp (unfinished_steps strftime state thread 0 formatter own
    (by rwa [finished_iff]))
  exact ⟨⟨thread, 0⟩, next, stepped, step_reached strftime base state next thread 0 programs reached stepped,
    (step_left strftime state next thread 0 stepped).1, step_less strftime state next thread 0 stepped⟩

theorem finished_records (programs : Nat → List Request) (kept : Kept strftime base programs state)
    (finished : Finished state thread) : recordsOf thread state.logged = (programs thread).filter (passing base) := by
  rw [← kept.ordered thread, pending, finished.1, finished.2, List.filter_nil, List.append_nil, List.append_nil]

-- Nothing is lost or doubled on the way, and from wherever the threads are any
-- number of them can go on until each of their calls is in.
theorem records_in_order (programs : Nat → List Request)
    (late : ∀ thread, ∀ request ∈ programs thread, 3 ≤ request.event.getTime) (schedule : List Turn) (final : Shared)
    (completed : run (step strftime) (start base programs) schedule = some final) :
    (∀ thread, recordsOf thread final.logged ++ pending base final thread = (programs thread).filter (passing base)) ∧
      ∀ formatter, base.formatter = some formatter →
        final.appender.filestream.taken = (final.logged.map fun entry => text strftime formatter entry.2) ∧
        final.appender.filestream.content = final.appender.filestream.taken.flatMap String.toList ∧
        (∀ thread written, ¬ Finished final thread → (step strftime final ⟨thread, written⟩).isSome) ∧
        ∀ threads : List Nat, ∃ more last, run (step strftime) final more = some last ∧
          ∀ thread, thread ∈ threads ∨ programs thread = [] →
            Finished last thread ∧ recordsOf thread last.logged = (programs thread).filter (passing base) := by
  have reached := Lib.run_invariant (step strftime) (fun _ _ => True) (Reached strftime base programs)
    (fun state turn after holds _ stepped => step_reached strftime base state after turn.thread turn.written programs holds stepped)
    schedule (start base programs) final (start_reached strftime base programs late) (Lib.along_true _ _ _) completed
  refine ⟨reached.kept.ordered, fun formatter given => ⟨reached.kept.taken formatter given, reached.kept.content, ?_, ?_⟩⟩
  · intro thread written
    exact unfinished_steps strftime final thread written formatter (by rw [← given, ← reached.ready.base])
  · intro threads
    obtain ⟨more, last, ran, ends, done, -⟩ := Lib.run_finishes_all (step strftime) (Reached strftime base programs) left
      (fun state thread holds some => thread_moves strftime base state thread programs formatter given holds some)
      threads final reached
    refine ⟨more, last, ran, fun thread chosen => ?_⟩
    have finished : Finished last thread := by
      rw [finished_iff]
      rcases chosen with listed | idle
      · exact done thread listed
      · simpa [idle] using ends.bounded thread
    exact ⟨finished, finished_records strftime base last thread programs ends.kept finished⟩

theorem alone_refines_log (request : Request) (rest : List Request) (appender : FileLogAppender)
    (idle : state.phases thread = .idle) (calls : state.calls thread = request :: rest)
    (logged : state.appender.log strftime request.bufs request.logger request.level request.event (success written) =
      some appender) :
    ∃ count, (run (step strftime) state (List.replicate count ⟨thread, written⟩)).map
        (fun final => (final.appender, final.phases thread, final.calls thread)) = some (appender, .idle, rest) := by
  rw [FileLogAppender.log] at logged
  by_cases passes : state.appender.passes request.level
  · rw [if_pos passes] at logged
    by_cases due : state.appender.due request.event.getTime
    · simp only [due, if_true] at logged
      obtain ⟨formatter, given, rfl⟩ := Option.map_eq_some_iff.mp logged
      have own : (state.appender.reopen (success written)).1.formatter = some formatter := given
      refine ⟨4, ?_⟩
      simp [List.replicate, Lib.run_cons, step, idle, calls, passes, due, own, text]
    · simp only [due, Bool.false_eq_true, if_false] at logged
      obtain ⟨formatter, given, rfl⟩ := Option.map_eq_some_iff.mp logged
      refine ⟨2, ?_⟩
      simp [List.replicate, Lib.run_cons, step, idle, calls, passes, due, given, text]
  · rw [if_neg passes] at logged
    cases logged
    refine ⟨1, ?_⟩
    simp [List.replicate, Lib.run_cons, step, idle, calls, passes]

end Steps

end Race

def request (thread time : Nat) : Request :=
  ⟨⟨"system", .debug, [], none, none⟩, .info, ⟨"main.cc", 1, 0, thread, 0, time, 0, .info, "started"⟩, fun _ => ""⟩

def clocks (thread : Nat) : List Request :=
  if thread = 0 then [request 0 18446744073709551615, request 0 3] else if thread = 1 then [request 1 5] else []

def fileBase : LogAppender LogFormatter := ⟨.file "log.txt", .debug, some (LogFormatter.new "%m%n"), true, false⟩

def clockTurns : List Turn := [0, 1, 0, 1, 0, 1, 0, 0].map fun thread => ⟨thread, 5⟩

-- Thread 0 has its first line taken, five characters of it in the file, when
-- both go on to their ends.
theorem records_in_order_clocks :
    ∃ final, run (step fun _ _ => "") (start fileBase clocks) clockTurns = some final ∧
      final.appender.filestream.taken = ["started\n"] ∧ final.appender.filestream.file = "start".toList ∧
      ∃ more last, run (step fun _ _ => "") final more = some last ∧
        ∀ thread, Finished last thread ∧ recordsOf thread last.logged = clocks thread := by
  have asked : ∀ thread, ∀ request ∈ clocks thread, 3 ≤ request.event.getTime ∧ passing fileBase request = true := by
    intro thread request member
    rw [clocks] at member
    split at member
    · simp only [List.mem_cons, List.not_mem_nil, or_false] at member
      rcases member with same | same <;> subst same <;> decide
    · split at member
      · rw [List.mem_singleton.mp member]
        decide
      · cases member
  have ran : ∃ final, run (step fun _ _ => "") (start fileBase clocks) clockTurns = some final ∧
      final.appender.filestream.taken = ["started\n"] ∧ final.appender.filestream.file = "start".toList :=
    ⟨_, rfl, by decide, by decide⟩
  obtain ⟨final, completed, taken, file⟩ := ran
  obtain ⟨-, goesOn⟩ := records_in_order (fun _ _ => "") fileBase clocks
    (fun thread request member => (asked thread request member).1) clockTurns final completed
  obtain ⟨-, -, -, finishing⟩ := goesOn _ rfl
  obtain ⟨more, last, further, ends⟩ := finishing [0, 1]
  refine ⟨final, completed, taken, file, more, last, further, fun thread => ?_⟩
  have chosen : thread ∈ [0, 1] ∨ clocks thread = [] := by
    by_cases first : thread = 0
    · simp [first]
    · by_cases second : thread = 1
      · simp [second]
      · exact .inr (by simp [clocks, first, second])
  rw [← List.filter_eq_self.mpr fun request member => (asked thread request member).2]
  exact ends thread chosen

end Sylar.Log.FileAppenderRace
