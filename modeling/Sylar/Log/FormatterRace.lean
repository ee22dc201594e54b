import Mathlib.Logic.Function.Basic
import Sylar.Lib.Runs
import Sylar.Log.Logger

set_option autoImplicit false

namespace Sylar.Log.FormatterRace

open Function (update)
open Lib (Address Heap run)

-- The three locked sections that an operation of a logger makes on an appender.
inductive Stage where
  | check
  | set
  | reset
deriving DecidableEq, Repr

-- Where a thread stands in Logger::setFormatter, with the entries its loop has
-- still to go through, or in Logger::addAppender; it holds the logger's lock.
inductive Phase (Formatter : Type) where
  | idle
  | setFormatter (logger : Address) (formatter : Option Formatter) (rest : List Address) (stage : Stage)
  | addAppender (logger appender : Address) (stage : Stage)
  | pushBack (logger appender : Address)
deriving DecidableEq, Repr

structure Shared (Formatter : Type) where
  manager : LoggerManager Formatter
  locked : Address → Bool
  phases : Nat → Phase Formatter

inductive Action (Formatter : Type) where
  | setFormatter (thread : Nat) (logger : Address) (formatter : Option Formatter)
  | addAppender (thread : Nat) (logger appender : Address)
  | proceed (thread : Nat)
  | setOwn (appender : Address) (formatter : Formatter)
deriving DecidableEq, Repr

section Race

variable {Formatter : Type}

def modifyAppender (manager : LoggerManager Formatter) (appender : Address)
    (change : LogAppender Formatter → LogAppender Formatter) : LoggerManager Formatter :=
  { manager with appenders := manager.appenders.modify appender change }

def setPhase (state : Shared Formatter) (thread : Nat) (phase : Phase Formatter) : Shared Formatter :=
  { state with phases := update state.phases thread phase }

def lock (state : Shared Formatter) (logger : Address) : Shared Formatter :=
  { state with locked := update state.locked logger true }

def unlock (state : Shared Formatter) (logger : Address) : Shared Formatter :=
  { state with locked := update state.locked logger false }

-- The next locked section of a thread on an appender, or the end of its call.
def proceed (state : Shared Formatter) (thread : Nat) : Option (Shared Formatter) :=
  match state.phases thread with
  | .idle => none
  | .setFormatter logger _ [] _ => some (setPhase (unlock state logger) thread .idle)
  | .setFormatter logger formatter (appender :: rest) .check =>
      (state.manager.appenders.read appender).map fun ap =>
        if !ap.hasFormatter then setPhase state thread (.setFormatter logger formatter (appender :: rest) .set)
        else setPhase state thread (.setFormatter logger formatter rest .check)
  | .setFormatter logger formatter (appender :: rest) .set =>
      some (setPhase { state with manager := modifyAppender state.manager appender (·.setFormatter formatter) } thread
        (.setFormatter logger formatter (appender :: rest) .reset))
  | .setFormatter logger formatter (appender :: rest) .reset =>
      some (setPhase { state with manager := modifyAppender state.manager appender (·.setHasFormatter false) } thread
        (.setFormatter logger formatter rest .check))
  | .addAppender logger appender .check =>
      (state.manager.appenders.read appender).map fun ap =>
        if ap.formatter.isNone then setPhase state thread (.addAppender logger appender .set)
        else setPhase state thread (.pushBack logger appender)
  | .addAppender logger appender .set =>
      (state.manager.objects.read logger).map fun object =>
        setPhase { state with manager := modifyAppender state.manager appender (·.setFormatter object.formatter) } thread
          (.addAppender logger appender .reset)
  | .addAppender logger appender .reset =>
      some (setPhase { state with manager := modifyAppender state.manager appender (·.setHasFormatter false) } thread
        (.pushBack logger appender))
  | .pushBack logger appender =>
      some (setPhase (unlock { state with manager := state.manager.modifyLogger logger fun object =>
        { object with appenders := object.appenders ++ [appender] } } logger) thread .idle)

def idleThread (state : Shared Formatter) (thread : Nat) : Bool :=
  match state.phases thread with
  | .idle => true
  | _ => false

def step (state : Shared Formatter) : Action Formatter → Option (Shared Formatter)
  | .setFormatter thread logger formatter =>
      if idleThread state thread && !state.locked logger then
        (state.manager.objects.read logger).map fun object =>
          setPhase (lock { state with manager := state.manager.modifyLogger logger fun current =>
            { current with formatter := formatter } } logger) thread (.setFormatter logger formatter object.appenders .check)
      else none
  | .addAppender thread logger appender =>
      if idleThread state thread && !state.locked logger then
        some (setPhase (lock state logger) thread (.addAppender logger appender .check))
      else none
  | .proceed thread => proceed state thread
  | .setOwn appender formatter =>
      (state.manager.appenders.read appender).map fun _ =>
        { state with manager := modifyAppender state.manager appender (·.setFormatter (some formatter)) }

-- The check of an appender is behind, its last locked section ahead.
def Phase.Inside (appender : Address) : Phase Formatter → Prop
  | .setFormatter _ _ (current :: _) stage => current = appender ∧ stage ≠ .check
  | .addAppender _ current stage => current = appender ∧ stage ≠ .check
  | _ => False

def Interrupts (state : Shared Formatter) (appender : Address) : Prop := ∃ thread, (state.phases thread).Inside appender

def AllIdle (state : Shared Formatter) : Prop := ∀ thread, state.phases thread = .idle

def Own (state : Shared Formatter) (appender : Address) (formatter : Formatter) : Prop :=
  ∃ ap, state.manager.appenders.read appender = some ap ∧ ap.formatter = some formatter ∧ ap.hasFormatter = true

-- Some operation will still reset the flag, or has done so.
def Lost (state : Shared Formatter) (appender : Address) : Prop :=
  ∃ ap, state.manager.appenders.read appender = some ap ∧ (ap.hasFormatter = false ∨ Interrupts state appender)

section Steps

variable (state next : Shared Formatter) (appender : Address)

-- All that a step by one thread can mean for one appender: the thread works
-- elsewhere, or its check has found no own formatter, or it is past the check
-- and goes on to the reset or makes it.
structure Moves (thread : Nat) : Prop where
  others : ∀ other, other ≠ thread → next.phases other = state.phases other
  effect :
    (next.manager.appenders.read appender = state.manager.appenders.read appender ∧
      ¬ (state.phases thread).Inside appender ∧
      ((next.phases thread).Inside appender → ∃ ap, state.manager.appenders.read appender = some ap ∧
        (ap.formatter = none ∨ ap.hasFormatter = false))) ∨
    ((state.phases thread).Inside appender ∧
      ∀ ap, state.manager.appenders.read appender = some ap → ∃ later, next.manager.appenders.read appender = some later ∧
        ((next.phases thread).Inside appender ∨ later.hasFormatter = false))

theorem modify_appender_read (manager : LoggerManager Formatter) (other : Address)
    (change : LogAppender Formatter → LogAppender Formatter) (different : other ≠ appender) :
    (modifyAppender manager other change).appenders.read appender = manager.appenders.read appender :=
  Heap.read_modify_elsewhere _ _ _ _ (Ne.symm different)

theorem moves_inside (thread : Nat) (change : LogAppender Formatter → LogAppender Formatter) (phase : Phase Formatter)
    (inside : (state.phases thread).Inside appender)
    (settles : phase.Inside appender ∨ ∀ ap, (change ap).hasFormatter = false) :
    Moves state (setPhase { state with manager := modifyAppender state.manager appender change } thread phase) appender
      thread where
  others := fun other different => Function.update_of_ne different _ _
  effect := by
    refine .inr ⟨inside, fun ap read => ⟨change ap, ?_, ?_⟩⟩
    · simp only [setPhase, modifyAppender, Heap.read_modify_here, read, Option.map_some]
    · rcases settles with past | cleared
      · exact .inl (by simpa [setPhase] using past)
      · exact .inr (cleared ap)

theorem moves_outside (thread : Nat) (phase : Phase Formatter) (manager : LoggerManager Formatter) (locked : Address → Bool)
    (kept : manager.appenders.read appender = state.manager.appenders.read appender)
    (outside : ¬ (state.phases thread).Inside appender)
    (enters : phase.Inside appender → ∃ ap, state.manager.appenders.read appender = some ap ∧
      (ap.formatter = none ∨ ap.hasFormatter = false)) :
    Moves state (setPhase ⟨manager, locked, state.phases⟩ thread phase) appender thread where
  others := fun other different => Function.update_of_ne different _ _
  effect := .inl ⟨kept, outside, fun inside => enters (by simpa [setPhase] using inside)⟩

theorem moves_section (thread : Nat) (current : Address) (change : LogAppender Formatter → LogAppender Formatter)
    (phase : Phase Formatter) (inside : (state.phases thread).Inside appender ↔ current = appender)
    (settles : (phase.Inside appender ↔ current = appender) ∨
      (¬ phase.Inside appender ∧ ∀ ap, (change ap).hasFormatter = false)) :
    Moves state (setPhase { state with manager := modifyAppender state.manager current change } thread phase) appender
      thread := by
  by_cases here : current = appender
  · subst here
    refine moves_inside state current thread change phase (inside.mpr rfl) ?_
    rcases settles with stays | ⟨-, cleared⟩
    · exact .inl (stays.mpr rfl)
    · exact .inr cleared
  · refine moves_outside state appender thread phase _ state.locked
      (modify_appender_read appender state.manager current change here) (fun past => here (inside.mp past)) ?_
    intro entered
    rcases settles with stays | ⟨out, -⟩
    · exact absurd (stays.mp entered) here
    · exact absurd entered out

theorem proceed_moves (thread : Nat) (stepped : proceed state thread = some next) : Moves state next appender thread := by
  rw [proceed] at stepped
  split at stepped
  · cases stepped
  · rename_i logger formatter stage phase
    cases stepped
    exact moves_outside state appender thread .idle state.manager _ rfl (by rw [phase]; exact id) (fun inside => inside.elim)
  · rename_i logger formatter current rest phase
    obtain ⟨ap, read, result⟩ := Option.map_eq_some_iff.mp stepped
    subst result
    have outside : ¬ (state.phases thread).Inside appender := by
      rw [phase]
      exact fun inside => inside.2 rfl
    split
    · rename_i without
      refine moves_outside state appender thread _ state.manager state.locked rfl outside ?_
      rintro ⟨rfl, -⟩
      exact ⟨ap, read, .inr (by simpa using without)⟩
    · refine moves_outside state appender thread _ state.manager state.locked rfl outside ?_
      cases rest with
      | nil => exact fun inside => inside.elim
      | cons head tail => exact fun inside => absurd rfl inside.2
  · rename_i logger formatter current rest phase
    cases stepped
    exact moves_section state appender thread current _ _ (by simp [phase, Phase.Inside]) (.inl (by simp [Phase.Inside]))
  · rename_i logger formatter current rest phase
    cases stepped
    refine moves_section state appender thread current _ _ (by simp [phase, Phase.Inside]) (.inr ⟨?_, fun _ => rfl⟩)
    cases rest <;> simp [Phase.Inside]
  · rename_i logger current phase
    obtain ⟨ap, read, result⟩ := Option.map_eq_some_iff.mp stepped
    subst result
    have outside : ¬ (state.phases thread).Inside appender := by
      rw [phase]
      exact fun inside => inside.2 rfl
    split
    · rename_i without
      refine moves_outside state appender thread _ state.manager state.locked rfl outside ?_
      rintro ⟨rfl, -⟩
      exact ⟨ap, read, .inl (by simpa using without)⟩
    · exact moves_outside state appender thread _ state.manager state.locked rfl outside (fun inside => inside.elim)
  · rename_i logger current phase
    obtain ⟨object, -, result⟩ := Option.map_eq_some_iff.mp stepped
    subst result
    exact moves_section state appender thread current _ _ (by simp [phase, Phase.Inside]) (.inl (by simp [Phase.Inside]))
  · rename_i logger current phase
    cases stepped
    exact moves_section state appender thread current _ _ (by simp [phase, Phase.Inside])
      (.inr ⟨fun inside => inside.elim, fun _ => rfl⟩)
  · rename_i logger current phase
    cases stepped
    exact moves_outside state appender thread .idle _ _ rfl (by rw [phase]; exact id) (fun inside => inside.elim)

theorem idle_outside (thread : Nat) (idle : idleThread state thread = true) : ¬ (state.phases thread).Inside appender := by
  rw [idleThread] at idle
  split at idle
  · rename_i phase
    rw [phase]
    exact id
  · cases idle

theorem step_moves (action : Action Formatter) (other : ∀ formatter, action ≠ .setOwn appender formatter)
    (stepped : step state action = some next) :
    (∃ thread, Moves state next appender thread) ∨
      (next.manager.appenders.read appender = state.manager.appenders.read appender ∧ next.phases = state.phases) := by
  cases action with
  | setFormatter thread logger formatter =>
      simp only [step, Option.ite_none_right_eq_some, Bool.and_eq_true] at stepped
      obtain ⟨⟨idle, -⟩, made⟩ := stepped
      obtain ⟨object, -, result⟩ := Option.map_eq_some_iff.mp made
      subst result
      refine .inl ⟨thread, moves_outside state appender thread _ _ _ rfl (idle_outside state appender thread idle) ?_⟩
      cases object.appenders with
      | nil => exact fun inside => inside.elim
      | cons head tail => exact fun inside => absurd rfl inside.2
  | addAppender thread logger added =>
      simp only [step, Option.ite_none_right_eq_some, Bool.and_eq_true] at stepped
      obtain ⟨⟨idle, -⟩, made⟩ := stepped
      cases made
      exact .inl ⟨thread, moves_outside state appender thread _ _ _ rfl (idle_outside state appender thread idle)
        (fun inside => absurd rfl inside.2)⟩
  | proceed thread => exact .inl ⟨thread, proceed_moves state next appender thread stepped⟩
  | setOwn target formatter =>
      obtain ⟨ap, -, result⟩ := Option.map_eq_some_iff.mp stepped
      subst result
      have different : target ≠ appender := fun same => other formatter (by rw [same])
      exact .inr ⟨modify_appender_read appender state.manager target _ different, rfl⟩

theorem step_own (formatter : Formatter) (action : Action Formatter)
    (other : ∀ explicit, action ≠ .setOwn appender explicit) (stepped : step state action = some next)
    (own : Own state appender formatter) (undisturbed : ¬ Interrupts state appender) :
    Own next appender formatter ∧ ¬ Interrupts next appender := by
  obtain ⟨ap, read, given, has⟩ := own
  rcases step_moves state next appender action other stepped with ⟨thread, moves⟩ | ⟨kept, phases⟩
  · rcases moves.effect with ⟨kept, -, enters⟩ | ⟨inside, -⟩
    · refine ⟨⟨ap, by rw [kept, read], given, has⟩, ?_⟩
      rintro ⟨who, past⟩
      by_cases same : who = thread
      · subst same
        obtain ⟨found, here, without⟩ := enters past
        rw [read] at here
        cases here
        rcases without with missing | unset
        · rw [given] at missing
          cases missing
        · rw [has] at unset
          cases unset
      · rw [moves.others who same] at past
        exact undisturbed ⟨who, past⟩
    · exact absurd ⟨thread, inside⟩ undisturbed
  · refine ⟨⟨ap, by rw [kept, read], given, has⟩, ?_⟩
    rw [Interrupts, phases]
    exact undisturbed

theorem step_lost (action : Action Formatter) (other : ∀ explicit, action ≠ .setOwn appender explicit)
    (stepped : step state action = some next) (lost : Lost state appender) : Lost next appender := by
  obtain ⟨ap, read, cause⟩ := lost
  rcases step_moves state next appender action other stepped with ⟨thread, moves⟩ | ⟨kept, phases⟩
  · rcases moves.effect with ⟨kept, outside, -⟩ | ⟨-, settles⟩
    · refine ⟨ap, by rw [kept, read], ?_⟩
      rcases cause with unset | ⟨who, past⟩
      · exact .inl unset
      · have different : who ≠ thread := fun same => outside (same ▸ past)
        exact .inr ⟨who, by rw [moves.others who different]; exact past⟩
    · obtain ⟨later, after, still | unset⟩ := settles ap read
      · exact ⟨later, after, .inr ⟨thread, still⟩⟩
      · exact ⟨later, after, .inl unset⟩
  · refine ⟨ap, by rw [kept, read], ?_⟩
    rw [Interrupts, phases]
    exact cause

end Steps

theorem run_own_or_lost (appender : Address) (formatter : Formatter) (schedule : List (Action Formatter))
    (last : ∀ explicit, Action.setOwn appender explicit ∉ schedule) (state final : Shared Formatter)
    (completed : run step state schedule = some final) :
    (Own state appender formatter ∧ ¬ Interrupts state appender → Own final appender formatter ∧ ¬ Interrupts final appender) ∧
      (Lost state appender → Lost final appender) := by
  induction schedule generalizing state with
  | nil =>
      cases completed
      exact ⟨id, id⟩
  | cons action rest ih =>
      obtain ⟨next, stepped, remaining⟩ := Lib.run_cons_some step state final action rest completed
      have other : ∀ explicit, action ≠ .setOwn appender explicit :=
        fun explicit same => last explicit (same ▸ List.mem_cons_self)
      obtain ⟨keeps, loses⟩ := ih (fun explicit member => last explicit (List.mem_cons_of_mem _ member)) next remaining
      exact ⟨fun holds => keeps (step_own state next appender formatter action other stepped holds.1 holds.2),
        fun lost => loses (step_lost state next appender action other stepped lost)⟩

theorem own_formatter_kept_iff (start final : Shared Formatter) (before after : List (Action Formatter))
    (appender : Address) (formatter : Formatter)
    (completed : run step start (before ++ .setOwn appender formatter :: after) = some final)
    (last : ∀ explicit, Action.setOwn appender explicit ∉ after) (finished : AllIdle final) :
    Own final appender formatter ↔
      ∀ reached, run step start before = some reached → ¬ Interrupts reached appender := by
  rw [Lib.run_append, Option.bind_eq_some_iff] at completed
  obtain ⟨reached, arrived, completed⟩ := completed
  obtain ⟨next, stepped, remaining⟩ := Lib.run_cons_some step reached final _ after completed
  obtain ⟨ap, read, result⟩ := Option.map_eq_some_iff.mp stepped
  have phases : next.phases = reached.phases := by rw [← result]
  have set : Own next appender formatter := by
    refine ⟨ap.setFormatter (some formatter), ?_, rfl, rfl⟩
    rw [← result]
    simp only [modifyAppender, Heap.read_modify_here, read, Option.map_some]
  obtain ⟨keeps, loses⟩ := run_own_or_lost appender formatter after last next final remaining
  constructor
  · rintro ⟨found, here, -, has⟩ other same ⟨thread, inside⟩
    cases arrived.symm.trans same
    obtain ⟨current, present, -, -⟩ := set
    obtain ⟨later, readLater, unset | ⟨who, past⟩⟩ :=
      loses ⟨current, present, .inr ⟨thread, by rw [phases]; exact inside⟩⟩
    · rw [here] at readLater
      cases readLater
      rw [has] at unset
      cases unset
    · rw [finished who] at past
      exact past
  · intro undisturbed
    refine (keeps ⟨set, ?_⟩).1
    rw [Interrupts, phases]
    exact undisturbed reached arrived

section Alone

variable (state : Shared Formatter) (thread : Nat) (logger : Address)

theorem loop_alone (formatter : Option Formatter) (rest : List Address)
    (valid : ∀ appender ∈ rest, appender < state.manager.appenders.size)
    (phase : state.phases thread = .setFormatter logger formatter rest .check) :
    ∃ count final, run step state (List.replicate count (.proceed thread)) = some final ∧ final.locked = state.locked ∧
      final.manager = { state.manager with
        appenders := state.manager.appenders.modifyAll rest (LogAppender.inherit formatter) } ∧
      final.phases thread = .setFormatter logger formatter [] .check := by
  induction rest generalizing state with
  | nil => exact ⟨0, state, rfl, rfl, rfl, phase⟩
  | cons appender tail ih =>
      obtain ⟨ap, read⟩ := Heap.read_of_lt state.manager.appenders appender (valid appender List.mem_cons_self)
      have later (next : Shared Formatter) (size : next.manager.appenders.size = state.manager.appenders.size) :
          ∀ member ∈ tail, member < next.manager.appenders.size :=
        fun member inTail => size ▸ valid member (List.mem_cons_of_mem _ inTail)
      by_cases own : ap.hasFormatter
      · have fixed := Heap.modify_fixed state.manager.appenders appender ap (LogAppender.inherit formatter) read
          (by simp [LogAppender.inherit, own])
        obtain ⟨count, final, completed, locked, manager, done⟩ :=
          ih (setPhase state thread (.setFormatter logger formatter tail .check)) (later _ rfl) (by simp [setPhase])
        refine ⟨count + 1, final, ?_, locked, ?_, done⟩
        · simpa [List.replicate_succ, Lib.run_cons, step, proceed, phase, read, own] using completed
        · rw [manager, Heap.modifyAll, Heap.modifyAll, List.foldl_cons, fixed]
          rfl
      · have reset : state.manager.appenders.modify appender (LogAppender.inherit formatter) =
            (state.manager.appenders.modify appender (·.setFormatter formatter)).modify appender (·.setHasFormatter false) := by
          rw [Heap.modify_modify]
          exact Heap.modify_congr _ _ _ _ fun current here => by
            rw [read] at here
            cases here
            rw [LogAppender.inherit, if_neg own]
        let painted := modifyAppender state.manager appender (·.setFormatter formatter)
        obtain ⟨count, final, completed, locked, manager, done⟩ :=
          ih (setPhase { state with manager := modifyAppender painted appender (·.setHasFormatter false) } thread
              (.setFormatter logger formatter tail .check))
            (later _ (by simp [setPhase, modifyAppender, painted])) (by simp [setPhase])
        refine ⟨count + 3, final, ?_, locked, ?_, done⟩
        · simpa [List.replicate_succ, Lib.run_cons, step, proceed, phase, read, own, setPhase] using completed
        · rw [manager, Heap.modifyAll, Heap.modifyAll, List.foldl_cons, reset]
          rfl

theorem alone_refines_set_formatter (formatter : Option Formatter) (object : Logger Formatter)
    (idle : state.phases thread = .idle) (free : state.locked logger = false)
    (stored : state.manager.objects.read logger = some object)
    (valid : ∀ appender ∈ object.appenders, appender < state.manager.appenders.size) :
    ∃ count, (run step state (.setFormatter thread logger formatter :: List.replicate count (.proceed thread))).map
        (fun final => (final.manager, final.phases thread, final.locked logger)) =
      some (state.manager.setFormatter logger formatter, .idle, false) := by
  obtain ⟨count, reached, completed, -, manager, done⟩ :=
    loop_alone (setPhase (lock { state with manager := state.manager.modifyLogger logger fun current =>
      { current with formatter := formatter } } logger) thread (.setFormatter logger formatter object.appenders .check))
      thread logger formatter object.appenders valid (by simp [setPhase])
  refine ⟨count + 1, ?_⟩
  have began : step state (.setFormatter thread logger formatter) =
      some (setPhase (lock { state with manager := state.manager.modifyLogger logger fun current =>
        { current with formatter := formatter } } logger) thread
          (.setFormatter logger formatter object.appenders .check)) := by
    simp [step, idleThread, idle, free, stored]
  rw [Lib.run_cons, began, Option.bind_some, List.replicate_succ', Lib.run_append_some _ _ _ _ _ completed]
  simp [Lib.run_cons, step, proceed, done, setPhase, unlock, manager, LoggerManager.setFormatter, stored, lock,
    LoggerManager.modifyLogger]

theorem alone_refines_add_appender (appender : Address) (object : Logger Formatter) (idle : state.phases thread = .idle)
    (free : state.locked logger = false) (stored : state.manager.objects.read logger = some object)
    (valid : appender < state.manager.appenders.size) :
    ∃ count, (run step state (.addAppender thread logger appender :: List.replicate count (.proceed thread))).map
        (fun final => (final.manager, final.phases thread, final.locked logger)) =
      some (state.manager.addAppender logger appender, .idle, false) := by
  obtain ⟨ap, read⟩ := Heap.read_of_lt state.manager.appenders appender valid
  cases given : ap.formatter with
  | some own =>
      have fixed := Heap.modify_fixed state.manager.appenders appender ap (LogAppender.adopt object.formatter) read
        (by simp [LogAppender.adopt, given])
      refine ⟨2, ?_⟩
      simp [List.replicate, Lib.run_cons, step, proceed, idleThread, idle, free, read, given, setPhase, lock, unlock,
        LoggerManager.addAppender, stored, fixed, LoggerManager.modifyLogger]
  | none =>
      have adopts : state.manager.appenders.modify appender (LogAppender.adopt object.formatter) =
          (state.manager.appenders.modify appender (·.setFormatter object.formatter)).modify appender
            (·.setHasFormatter false) := by
        rw [Heap.modify_modify]
        exact Heap.modify_congr _ _ _ _ fun current here => by
          rw [read] at here
          cases here
          simp [LogAppender.adopt, given]
      refine ⟨4, ?_⟩
      simp [List.replicate, Lib.run_cons, step, proceed, idleThread, idle, free, read, given, setPhase, lock, unlock,
        LoggerManager.addAppender, stored, adopts, LoggerManager.modifyLogger, modifyAppender]

end Alone

end Race

def sharedStart : Shared Nat where
  manager := ⟨⟨[⟨.stdout, .debug, some 0, false, false⟩]⟩, ⟨[⟨"system", .debug, [0], some 0, none⟩]⟩, ∅, 0⟩
  locked := fun _ => false
  phases := fun _ => .idle

def loggerFirst : List (Action Nat) := .setFormatter 0 0 (some 1) :: List.replicate 4 (.proceed 0)

theorem own_formatter_kept_iff_after :
    ∃ final, run step sharedStart (loggerFirst ++ [.setOwn 0 2]) = some final ∧ Own final 0 2 := by
  refine ⟨_, rfl, (own_formatter_kept_iff sharedStart _ loggerFirst [] 0 2 rfl (by simp) ?_).mpr ?_⟩
  · intro thread
    by_cases same : thread = 0 <;> simp [setPhase, unlock, lock, sharedStart, same]
  · rintro reached arrived ⟨thread, inside⟩
    cases arrived
    by_cases same : thread = 0 <;>
      simp [setPhase, unlock, lock, sharedStart, same, Phase.Inside] at inside

theorem own_formatter_overwritten :
    ¬ ∀ (start final : Shared Nat) (before after : List (Action Nat)) (appender formatter : Nat),
      run step start (before ++ .setOwn appender formatter :: after) = some final →
      (∀ explicit, Action.setOwn appender explicit ∉ after) → AllIdle final → Own final appender formatter := by
  intro claimed
  have idle : ∀ thread, update (update (update (update (update (fun _ : Nat => (Phase.idle : Phase Nat)) 0
      (.setFormatter 0 (some 1) [0] .check)) 0 (.setFormatter 0 (some 1) [0] .set)) 0
      (.setFormatter 0 (some 1) [0] .reset)) 0 (.setFormatter 0 (some 1) [] .check)) 0 .idle thread = .idle := by
    intro thread
    by_cases same : thread = 0 <;> simp [same]
  obtain ⟨ap, read, given, -⟩ := claimed sharedStart _ [.setFormatter 0 0 (some 1), .proceed 0]
    [.proceed 0, .proceed 0, .proceed 0] 0 2 rfl (by simp) idle
  cases read
  exact absurd given (by decide)

end Sylar.Log.FormatterRace
