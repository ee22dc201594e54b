import Sylar.Lib.Sections
import Sylar.Log.FileAppenderRace

set_option autoImplicit false

namespace Sylar.Log.FileAppenderStatements

open Function (update)
open Lib (Body Fine LockedSection Move Whole run)
open Lib.Sections (Progress execute fineStep settled wholeStep)
open FileAppenderRace (Request success text)

inductive Call where
  | log (request : Request) (os : Outcome)
  | reopen (os : Outcome)
  | setFormatter (formatter : Option LogFormatter)

-- Where a thread stands in FileLogAppender::log: past the level, before
-- reopen, before m_lastTime, before the write.
inductive Phase where
  | idle
  | timing (request : Request) (os : Outcome)
  | reopening (request : Request) (os : Outcome)
  | stamping (request : Request) (os : Outcome)
  | writing (request : Request) (os : Outcome)

-- The temporary that format returns belongs to the thread.
structure Caller where
  thread : Nat
  phase : Phase
  calls : List Call
  text : String

-- What log reads and writes with no lock held.
structure Unguarded where
  level : Level
  lastTime : UInt64

structure Record where
  thread : Nat
  request : Request
  text : String

-- What m_mutex guards, and the record of each text that the stream has taken.
structure Guarded where
  filestream : Ofstream
  formatter : Option LogFormatter
  hasFormatter : Bool
  logged : List Record

abbrev AppenderSection := LockedSection Unit Guarded Caller

abbrev Statement := Guarded → Caller → Option (Guarded × Caller)

def locked (statements : List Statement) : AppenderSection := ⟨(), .exclusive, .sequence statements, by simp⟩

-- The last statement of a section also says where its caller goes on.
def reopen (os : Outcome) (onward : Caller → Caller) : AppenderSection :=
  locked [
    fun data own => some ({ data with
      filestream := if !data.filestream.fails then data.filestream.close os else data.filestream }, own),
    fun data own => some ({ data with filestream := data.filestream.openFile os }, onward own)]

def setFormatter (formatter : Option LogFormatter) (onward : Caller → Caller) : AppenderSection :=
  locked [
    fun data own => some ({ data with formatter := formatter }, own),
    fun data own => some ({ data with hasFormatter := data.formatter.isSome }, onward own)]

section Program

variable (strftime : String → Nat → String)

def write (request : Request) (os : Outcome) : AppenderSection :=
  locked [
    fun data own => data.formatter.map fun formatter =>
      (data, { own with text := text strftime formatter request }),
    fun data own => some ({ data with
      filestream := data.filestream.write os own.text
      logged := if data.filestream.Takes os own.text then data.logged ++ [⟨own.thread, request, own.text⟩] else data.logged },
      { own with phase := .idle })]

def moves (own : Caller) : Option (Move Unit Unguarded Guarded Caller) :=
  match own.phase with
  | .idle =>
      match own.calls with
      | [] => none
      | .log request os :: rest =>
          some (.free fun free => some (free,
            { own with phase := if free.level.toNat ≤ request.level.toNat then .timing request os else .idle, calls := rest }))
      | .reopen os :: rest => some (.enter (reopen os ({ · with calls := rest })))
      | .setFormatter formatter :: rest => some (.enter (setFormatter formatter ({ · with calls := rest })))
  | .timing request os =>
      some (.free fun free => some (free,
        { own with phase := if free.lastTime + 3 ≤ request.event.getTime then .reopening request os else .writing request os }))
  | .reopening request os => some (.enter (reopen os ({ · with phase := .stamping request os })))
  | .stamping request os =>
      some (.free fun free => some ({ free with lastTime := request.event.getTime }, { own with phase := .writing request os }))
  | .writing request os => some (.enter (write strftime request os))

abbrev Appending := Whole Unit Unguarded Guarded Caller

def start (base : LogAppender LogFormatter) (programs : Nat → List Call) : Appending where
  free := ⟨base.level, 0⟩
  data := fun _ => ⟨.new, base.formatter, base.hasFormatter, []⟩
  locals := fun thread => ⟨thread, .idle, programs thread, ""⟩

end Program

def Phase.request : Phase → List Request
  | .idle => []
  | .timing request _ | .reopening request _ | .stamping request _ | .writing request _ => [request]

def Call.request : Call → Option Request
  | .log request _ => some request
  | _ => none

def requestsOf (level : Level) (calls : List Call) : List Request :=
  (calls.filterMap Call.request).filter fun request => level.toNat ≤ request.level.toNat

def recordsOf (thread : Nat) (logged : List Record) : List Request :=
  (logged.filter fun record => record.thread = thread).map Record.request

-- What the stream has taken of a thread, followed by what it has still to write.
def account (level : Level) (state : Appending) (thread : Nat) : List Request :=
  recordsOf thread (state.data ()).logged ++ ((state.locals thread).phase.request ++ requestsOf level (state.locals thread).calls)

-- The system gives what it is asked for, and the clock is past its first three seconds.
def Call.Succeeds : Call → Prop
  | .log request os => os.Succeeds ∧ 3 ≤ request.event.getTime
  | .reopen os => os.Succeeds
  | .setFormatter _ => True

def Call.Flushes : Call → Prop
  | .log _ os | .reopen os => os.Flushes
  | .setFormatter _ => True

-- Leaves the appender with a formatter.
def Call.Formats : Call → Prop
  | .setFormatter formatter => formatter.isSome
  | _ => True

def Phase.left : Phase → Nat
  | .idle => 0
  | .writing _ _ => 1
  | .stamping _ _ => 2
  | .reopening _ _ => 3
  | .timing _ _ => 4

-- An upper bound on the steps a thread still takes.
def Caller.left (own : Caller) : Nat := own.phase.left + 5 * own.calls.length

def Phase.call : Phase → List Call
  | .idle => []
  | .timing request os | .reopening request os | .stamping request os | .writing request os => [.log request os]

-- Past reopen, or past the check that found m_lastTime recent.
def Phase.Opened : Phase → Prop
  | .stamping _ _ | .writing _ _ => True
  | _ => False

def Installed (base : LogAppender LogFormatter) (programs : Nat → List Call) (formatter : LogFormatter) : Prop :=
  base.formatter = some formatter ∨ ∃ thread, .setFormatter (some formatter) ∈ programs thread

theorem reopen_execute (os : Outcome) (onward : Caller → Caller) (data : Guarded) (own : Caller) :
    execute (reopen os onward).body data own = some ({ data with filestream := data.filestream.reopen os }, onward own) := rfl

theorem set_formatter_execute (formatter : Option LogFormatter) (onward : Caller → Caller) (data : Guarded) (own : Caller) :
    execute (setFormatter formatter onward).body data own =
      some ({ data with formatter := formatter, hasFormatter := formatter.isSome }, onward own) := rfl

section Steps

variable (strftime : String → Nat → String) (base : LogAppender LogFormatter) (programs : Nat → List Call)
variable (state next : Appending) (thread : Nat)

-- The state after a step by a thread that wrote no record.
def advance (free : Unguarded) (data : Guarded) (own : Caller) : Appending :=
  ⟨free, fun _ => data, update state.locals thread own⟩

def recorded (request : Request) (os : Outcome) (line : String) : Guarded :=
  { state.data () with
    filestream := (state.data ()).filestream.write os line
    logged := if (state.data ()).filestream.Takes os line then
        (state.data ()).logged ++ [⟨(state.locals thread).thread, request, line⟩]
      else (state.data ()).logged }

-- What a step can be, other than a write.
inductive Advances : Unguarded → Guarded → Caller → Prop where
  | called (request : Request) (os : Outcome) (rest : List Call) (idle : (state.locals thread).phase = .idle)
      (calls : (state.locals thread).calls = .log request os :: rest) :
      Advances state.free (state.data ()) { state.locals thread with
        phase := if state.free.level.toNat ≤ request.level.toNat then .timing request os else .idle, calls := rest }
  | reopened (os : Outcome) (rest : List Call) (idle : (state.locals thread).phase = .idle)
      (calls : (state.locals thread).calls = .reopen os :: rest) :
      Advances state.free { state.data () with filestream := (state.data ()).filestream.reopen os }
        { state.locals thread with calls := rest }
  | formatterSet (formatter : Option LogFormatter) (rest : List Call) (idle : (state.locals thread).phase = .idle)
      (calls : (state.locals thread).calls = .setFormatter formatter :: rest) :
      Advances state.free { state.data () with formatter := formatter, hasFormatter := formatter.isSome }
        { state.locals thread with calls := rest }
  | timed (request : Request) (os : Outcome) (phase : (state.locals thread).phase = .timing request os) :
      Advances state.free (state.data ()) { state.locals thread with
        phase := if state.free.lastTime + 3 ≤ request.event.getTime then .reopening request os else .writing request os }
  | logReopened (request : Request) (os : Outcome) (phase : (state.locals thread).phase = .reopening request os) :
      Advances state.free { state.data () with filestream := (state.data ()).filestream.reopen os }
        { state.locals thread with phase := .stamping request os }
  | stamped (request : Request) (os : Outcome) (phase : (state.locals thread).phase = .stamping request os) :
      Advances { state.free with lastTime := request.event.getTime } (state.data ())
        { state.locals thread with phase := .writing request os }

theorem advance_step (data : Guarded) (own : Caller) :
    { state with data := update state.data () data, locals := update state.locals thread own } =
      advance state thread state.free data own := by
  have only : update state.data () data = fun _ => data := by
    funext lock
    simp
  rw [only, advance]

theorem step_cases (stepped : wholeStep (moves strftime) state thread = some next) :
    (∃ free data own, Advances state thread free data own ∧ next = advance state thread free data own) ∨
    (∃ request os formatter, (state.locals thread).phase = .writing request os ∧ (state.data ()).formatter = some formatter ∧
      next = advance state thread state.free (recorded state thread request os (text strftime formatter request))
        { state.locals thread with text := text strftime formatter request, phase := .idle }) := by
  rw [wholeStep, moves] at stepped
  cases phase : (state.locals thread).phase with
  | idle =>
      cases calls : (state.locals thread).calls with
      | nil =>
          simp [phase, calls] at stepped
      | cons call rest =>
          cases call with
          | log request os =>
              simp only [phase, calls, Option.map_some, Option.some.injEq] at stepped
              subst stepped
              exact .inl ⟨_, _, _, .called request os rest phase calls, rfl⟩
          | reopen os =>
              simp only [phase, calls, reopen_execute, Option.map_some, Option.some.injEq] at stepped
              subst stepped
              refine .inl ⟨_, _, _, .reopened os rest phase calls, ?_⟩
              rw [← phase]
              exact advance_step state thread _ _
          | setFormatter formatter =>
              simp only [phase, calls, set_formatter_execute, Option.map_some, Option.some.injEq] at stepped
              subst stepped
              refine .inl ⟨_, _, _, .formatterSet formatter rest phase calls, ?_⟩
              rw [← phase]
              exact advance_step state thread _ _
  | timing request os =>
      simp only [phase, Option.map_some, Option.some.injEq] at stepped
      subst stepped
      exact .inl ⟨_, _, _, .timed request os phase, rfl⟩
  | reopening request os =>
      simp only [phase, reopen_execute, Option.map_some, Option.some.injEq] at stepped
      subst stepped
      exact .inl ⟨_, _, _, .logReopened request os phase, advance_step state thread _ _⟩
  | stamping request os =>
      simp only [phase, Option.map_some, Option.some.injEq] at stepped
      subst stepped
      exact .inl ⟨_, _, _, .stamped request os phase, rfl⟩
  | writing request os =>
      simp only [phase] at stepped
      obtain ⟨result, executed, rfl⟩ := Option.map_eq_some_iff.mp stepped
      obtain ⟨middle, first, second⟩ := Option.bind_eq_some_iff.mp executed
      obtain ⟨formatter, given, rfl⟩ := Option.map_eq_some_iff.mp first
      cases second
      exact .inr ⟨request, os, formatter, rfl, given, advance_step state thread _ _⟩

-- Holds whatever the system answers: no text is taken twice or out of order.
structure Kept : Prop where
  level : state.free.level = base.level
  named : ∀ other, (state.locals other).thread = other
  left : ∀ other, (state.locals other).calls <:+ programs other
  installed : ∀ formatter, (state.data ()).formatter = some formatter → Installed base programs formatter
  taken : (state.data ()).filestream.taken = (state.data ()).logged.map Record.text
  formatted : ∀ record ∈ (state.data ()).logged, ∃ formatter, Installed base programs formatter ∧
    record.text = text strftime formatter record.request
  ordered : ∀ other, (account base.level state other).Sublist (requestsOf base.level (programs other))

theorem account_advance (free : Unguarded) (data : Guarded) (own : Caller) (other : Nat) :
    account base.level (advance state thread free data own) other =
      if other = thread then recordsOf thread data.logged ++ (own.phase.request ++ requestsOf base.level own.calls)
      else recordsOf other data.logged ++
        ((state.locals other).phase.request ++ requestsOf base.level (state.locals other).calls) := by
  by_cases same : other = thread
  · subst same
    simp [account, advance]
  · simp [account, advance, same]

theorem advances_quiet (level : state.free.level = base.level) (free : Unguarded) (data : Guarded) (own : Caller)
    (advances : Advances state thread free data own) :
    data.logged = (state.data ()).logged ∧ data.filestream.taken = (state.data ()).filestream.taken ∧
      free.level = base.level ∧ own.thread = (state.locals thread).thread ∧ own.calls <:+ (state.locals thread).calls ∧
      own.phase.request ++ requestsOf base.level own.calls =
        (state.locals thread).phase.request ++ requestsOf base.level (state.locals thread).calls := by
  cases advances with
  | called request os rest idle calls =>
      refine ⟨rfl, rfl, level, rfl, by simp [calls], ?_⟩
      simp only [idle, calls, requestsOf, List.filterMap_cons, Call.request, List.filter_cons, level, Phase.request]
      by_cases passes : base.level.toNat ≤ request.level.toNat <;> simp [passes]
  | reopened os rest idle calls =>
      refine ⟨rfl, Ofstream.reopen_taken os _, level, rfl, by simp [calls], ?_⟩
      rw [calls]
      rfl
  | formatterSet formatter rest idle calls =>
      refine ⟨rfl, rfl, level, rfl, by simp [calls], ?_⟩
      rw [calls]
      rfl
  | timed request os phase =>
      refine ⟨rfl, rfl, level, rfl, List.suffix_refl _, ?_⟩
      rw [phase]
      split <;> rfl
  | logReopened request os phase =>
      refine ⟨rfl, Ofstream.reopen_taken os _, level, rfl, List.suffix_refl _, ?_⟩
      rw [phase]
      rfl
  | stamped request os phase =>
      refine ⟨rfl, rfl, level, rfl, List.suffix_refl _, ?_⟩
      rw [phase]
      rfl

theorem advances_formatter (free : Unguarded) (data : Guarded) (own : Caller) (advances : Advances state thread free data own)
    (formatter : LogFormatter) (given : data.formatter = some formatter) :
    (state.data ()).formatter = some formatter ∨ .setFormatter (some formatter) ∈ (state.locals thread).calls := by
  cases advances with
  | formatterSet installed rest idle calls =>
      cases given
      exact .inr (by simp [calls])
  | called | reopened | timed | logReopened | stamped => exact .inl given

theorem start_kept : Kept strftime base programs (start base programs) where
  level := rfl
  named := fun _ => rfl
  left := fun _ => List.suffix_refl _
  installed := fun _ given => .inl given
  taken := rfl
  formatted := by simp [start]
  ordered := by simp [account, start, recordsOf, Phase.request]

theorem moved_locals (free : Unguarded) (data : Guarded) (own : Caller) (holds : Nat → Caller → Prop) (mine : holds thread own)
    (others : ∀ other, holds other (state.locals other)) (other : Nat) :
    holds other ((advance state thread free data own).locals other) := by
  by_cases same : other = thread
  · subst same
    simpa [advance] using mine
  · simpa [advance, same] using others other

theorem records_of_snoc (logged : List Record) (other : Nat) (record : Record) :
    recordsOf other (logged ++ [record]) =
      if record.thread = other then recordsOf other logged ++ [record.request] else recordsOf other logged := by
  by_cases same : record.thread = other <;> simp [recordsOf, List.filter_append, same]

-- A write hands the request that it takes away from its thread to the stream, or to nobody.
theorem account_write (named : (state.locals thread).thread = thread) (request : Request) (os : Outcome) (line : String)
    (phase : (state.locals thread).phase = .writing request os) (other : Nat) :
    let after := advance state thread state.free (recorded state thread request os line)
      { state.locals thread with text := line, phase := .idle }
    (account base.level after other).Sublist (account base.level state other) ∧
      ((state.data ()).filestream.Takes os line → account base.level after other = account base.level state other) := by
  intro after
  have moved := account_advance base state thread state.free (recorded state thread request os line)
    { state.locals thread with text := line, phase := .idle } other
  by_cases stored : (state.data ()).filestream.Takes os line
  · have same : account base.level after other = account base.level state other := by
      rw [moved]
      by_cases mine : other = thread
      · subst mine
        simp [recorded, stored, records_of_snoc, named, account, phase, Phase.request]
      · simp [recorded, stored, records_of_snoc, named, account, mine, Ne.symm mine]
    rw [same]
    exact ⟨List.Sublist.refl _, fun _ => rfl⟩
  · refine ⟨?_, fun succeeds => absurd succeeds stored⟩
    rw [moved]
    by_cases mine : other = thread
    · subst mine
      simp [recorded, stored, account, phase, Phase.request]
    · simp [recorded, stored, account, mine]

theorem step_kept (kept : Kept strftime base programs state) (stepped : wholeStep (moves strftime) state thread = some next) :
    Kept strftime base programs next := by
  rcases step_cases strftime state next thread stepped with
    ⟨free, data, own, advances, rfl⟩ | ⟨request, os, formatter, phase, given, rfl⟩
  · obtain ⟨logged, taken, level, named, calls, same⟩ := advances_quiet base state thread kept.level free data own advances
    refine ⟨level, ?_, ?_, ?_, ?_, ?_, ?_⟩
    · exact moved_locals state thread free data own (fun other own => own.thread = other)
        (named.trans (kept.named thread)) kept.named
    · exact moved_locals state thread free data own (fun other own => own.calls <:+ programs other)
        (calls.trans (kept.left thread)) kept.left
    · intro formatter given
      rcases advances_formatter state thread free data own advances formatter given with before | called
      · exact kept.installed formatter before
      · exact .inr ⟨thread, (kept.left thread).subset called⟩
    · simpa only [advance, logged, taken] using kept.taken
    · simpa only [advance, logged] using kept.formatted
    · intro other
      have ordered := kept.ordered other
      rw [account_advance, logged, same]
      split
      · rename_i equal
        rwa [equal] at ordered ⊢
      · exact ordered
  · refine ⟨kept.level, ?_, ?_, kept.installed, ?_, ?_, ?_⟩
    · exact moved_locals state thread _ _ _ (fun other own => own.thread = other) (kept.named thread) kept.named
    · exact moved_locals state thread _ _ _ (fun other own => own.calls <:+ programs other) (kept.left thread) kept.left
    · simp only [advance, recorded, Ofstream.write_taken, kept.taken]
      split <;> simp
    · intro record member
      simp only [advance, recorded] at member
      split at member
      · rcases List.mem_append.mp member with before | fresh
        · exact kept.formatted record before
        · rw [List.mem_singleton.mp fresh]
          exact ⟨formatter, kept.installed formatter given, rfl⟩
      · exact kept.formatted record member
    · intro other
      exact (account_write base state thread (kept.named thread) request os _ phase other).1.trans (kept.ordered other)

structure Ready : Prop where
  free : ¬ (state.data ()).filestream.Stuck
  stamped : state.free.lastTime ≠ 0 → (state.data ()).filestream.Healthy
  opened : ∀ other, (state.locals other).phase.Opened → (state.data ()).filestream.Healthy
  succeeds : ∀ other, ∀ call ∈ (state.locals other).phase.call ++ (state.locals other).calls, call.Succeeds

theorem start_ready (succeed : ∀ other, ∀ call ∈ programs other, call.Succeeds) : Ready (start base programs) where
  free := by simp [start, Ofstream.new, Ofstream.Stuck]
  stamped := by simp [start]
  opened := by simp [start, Phase.Opened]
  succeeds := by simpa [start, Phase.call] using succeed

theorem not_due_stamped (lastTime now : UInt64) (late : 3 ≤ now) (recent : ¬ lastTime + 3 ≤ now) : lastTime ≠ 0 := by
  intro unset
  rw [unset] at recent
  simp [late] at recent

theorem advances_calls (free : Unguarded) (data : Guarded) (own : Caller) (advances : Advances state thread free data own) :
    ∀ call ∈ own.phase.call ++ own.calls, call ∈ (state.locals thread).phase.call ++ (state.locals thread).calls := by
  intro call member
  cases advances with
  | called request os rest idle calls =>
      simp only at member
      split at member
      · simpa [Phase.call, idle, calls] using member
      · rw [idle, calls]
        exact List.mem_cons_of_mem _ member
  | reopened os rest idle calls | formatterSet formatter rest idle calls =>
      rw [idle] at member ⊢
      rw [calls]
      exact List.mem_cons_of_mem _ member
  | timed request os phase =>
      simp only at member
      split at member <;> simpa [phase, Phase.call] using member
  | logReopened request os phase | stamped request os phase => simpa [phase, Phase.call] using member

-- What all threads' calls are, they still are after a step.
theorem step_calls (holds : Call → Prop)
    (asked : ∀ other, ∀ call ∈ (state.locals other).phase.call ++ (state.locals other).calls, holds call)
    (stepped : wholeStep (moves strftime) state thread = some next) :
    ∀ other, ∀ call ∈ (next.locals other).phase.call ++ (next.locals other).calls, holds call := by
  rcases step_cases strftime state next thread stepped with
    ⟨free, data, own, advances, rfl⟩ | ⟨request, os, formatter, phase, given, rfl⟩
  · exact moved_locals state thread free data own (fun _ own => ∀ call ∈ own.phase.call ++ own.calls, holds call)
      (fun call member => asked thread call (advances_calls state thread free data own advances call member)) asked
  · exact moved_locals state thread _ _ _ (fun _ own => ∀ call ∈ own.phase.call ++ own.calls, holds call)
      (fun call member => asked thread call (List.mem_append_right _ member)) asked

-- While what is written is taken as a whole, the file and the buffer make up the texts.
structure Flushed : Prop where
  answers : ∀ other, ∀ call ∈ (state.locals other).phase.call ++ (state.locals other).calls, call.Flushes
  content : (state.data ()).filestream.content = (state.data ()).filestream.taken.flatMap String.toList

theorem step_flushed (flushed : Flushed state) (stepped : wholeStep (moves strftime) state thread = some next) : Flushed next := by
  refine ⟨step_calls strftime state next thread Call.Flushes flushed.answers stepped, ?_⟩
  have answers := flushed.answers thread
  rcases step_cases strftime state next thread stepped with
    ⟨free, data, own, advances, rfl⟩ | ⟨request, os, formatter, phase, given, rfl⟩
  · cases advances with
    | called | formatterSet | timed | stamped => exact flushed.content
    | reopened os rest idle calls =>
        have flushes : os.Flushes := answers (.reopen os) (by simp [calls])
        simp only [advance]
        rw [Ofstream.reopen_content os _ flushes, Ofstream.reopen_taken, flushed.content]
    | logReopened request os phase =>
        have flushes : os.Flushes := answers (.log request os) (by simp [phase, Phase.call])
        simp only [advance]
        rw [Ofstream.reopen_content os _ flushes, Ofstream.reopen_taken, flushed.content]
  · have flushes : os.Flushes := answers (.log request os) (by simp [phase, Phase.call])
    simp only [advance, recorded]
    rw [Ofstream.write_content os _ _ flushes, Ofstream.write_taken, flushed.content, List.flatMap_append]
    split <;> simp

-- Where a step leaves the stream as good as it was, only the thread's own
-- phase is left to check.
theorem ready_advance (ready : Ready state) (free : Unguarded) (data : Guarded) (own : Caller)
    (succeeds : ∀ other, ∀ call ∈ ((advance state thread free data own).locals other).phase.call ++
      ((advance state thread free data own).locals other).calls, call.Succeeds)
    (healthy : (state.data ()).filestream.Healthy → data.filestream.Healthy)
    (loose : ¬ data.filestream.Stuck) (stamped : free.lastTime ≠ 0 → data.filestream.Healthy)
    (opened : own.phase.Opened → data.filestream.Healthy) : Ready (advance state thread free data own) where
  free := loose
  stamped := stamped
  opened := moved_locals state thread free data own (fun _ own => own.phase.Opened → data.filestream.Healthy) opened
    fun other past => healthy (ready.opened other past)
  succeeds := succeeds

theorem advances_ready (ready : Ready state) (free : Unguarded) (data : Guarded) (own : Caller)
    (succeeds : ∀ other, ∀ call ∈ ((advance state thread free data own).locals other).phase.call ++
      ((advance state thread free data own).locals other).calls, call.Succeeds)
    (advances : Advances state thread free data own) : Ready (advance state thread free data own) := by
  have reopened (os : Outcome) (answers : os.Succeeds) :=
    Ofstream.reopen_healthy os (state.data ()).filestream answers.1 ready.free
  cases advances with
  | called request os rest idle calls =>
      refine ready_advance state thread ready _ _ _ succeeds id ready.free ready.stamped fun past => ?_
      simp only at past
      split at past <;> exact past.elim
  | reopened os rest idle calls =>
      have healthy := reopened os (ready.succeeds thread (.reopen os) (by simp [calls]))
      exact ready_advance state thread ready _ _ _ succeeds (fun _ => healthy) (fun stuck => healthy.2 stuck.2) (fun _ => healthy)
        fun _ => healthy
  | formatterSet formatter rest idle calls =>
      exact ready_advance state thread ready _ _ _ succeeds id ready.free ready.stamped fun past => ready.opened thread past
  | timed request os phase =>
      have mine := ready.succeeds thread (.log request os) (by simp [phase, Phase.call])
      refine ready_advance state thread ready _ _ _ succeeds id ready.free ready.stamped fun past => ?_
      simp only at past
      split at past
      · exact past.elim
      · rename_i recent
        exact ready.stamped (not_due_stamped _ _ mine.2 recent)
  | logReopened request os phase =>
      have healthy := reopened os (ready.succeeds thread (.log request os) (by simp [phase, Phase.call])).1
      exact ready_advance state thread ready _ _ _ succeeds (fun _ => healthy) (fun stuck => healthy.2 stuck.2) (fun _ => healthy)
        fun _ => healthy
  | stamped request os phase =>
      have healthy := ready.opened thread (by simp [phase, Phase.Opened])
      exact ready_advance state thread ready _ _ _ succeeds id ready.free (fun _ => healthy) fun _ => healthy

theorem step_ready (ready : Ready state) (stepped : wholeStep (moves strftime) state thread = some next) : Ready next := by
  have succeeds := step_calls strftime state next thread Call.Succeeds ready.succeeds stepped
  rcases step_cases strftime state next thread stepped with
    ⟨free, data, own, advances, rfl⟩ | ⟨request, os, formatter, phase, given, rfl⟩
  · exact advances_ready state thread ready free data own succeeds advances
  · have healthy := ready.opened thread (by simp [phase, Phase.Opened])
    have answers := (ready.succeeds thread (.log request os) (by simp [phase, Phase.call])).1
    have after := Ofstream.write_healthy os (text strftime formatter request) (state.data ()).filestream healthy answers.2.2
    exact ready_advance state thread ready _ _ _ succeeds (fun _ => after) (fun stuck => after.2 stuck.2) (fun _ => after)
      fun _ => after

theorem step_complete (kept : Kept strftime base programs state) (ready : Ready state)
    (complete : ∀ other, account base.level state other = requestsOf base.level (programs other))
    (stepped : wholeStep (moves strftime) state thread = some next) (other : Nat) :
    account base.level next other = requestsOf base.level (programs other) := by
  rw [← complete other]
  rcases step_cases strftime state next thread stepped with
    ⟨free, data, own, advances, rfl⟩ | ⟨request, os, formatter, phase, given, rfl⟩
  · obtain ⟨logged, -, -, -, -, same⟩ := advances_quiet base state thread kept.level free data own advances
    rw [account_advance, logged, same]
    split
    · rename_i equal
      rw [equal]
      rfl
    · rfl
  · have healthy := ready.opened thread (by simp [phase, Phase.Opened])
    have answers := (ready.succeeds thread (.log request os) (by simp [phase, Phase.call])).1
    exact (account_write base state thread (kept.named thread) request os _ phase other).2 ⟨healthy, .inl answers.2.2⟩

structure Formatted : Prop where
  given : (state.data ()).formatter.isSome
  asked : ∀ other, ∀ call ∈ (state.locals other).phase.call ++ (state.locals other).calls, call.Formats

theorem step_formatted (formatted : Formatted state) (stepped : wholeStep (moves strftime) state thread = some next) :
    Formatted next := by
  refine ⟨?_, step_calls strftime state next thread Call.Formats formatted.asked stepped⟩
  rcases step_cases strftime state next thread stepped with
    ⟨free, data, own, advances, rfl⟩ | ⟨request, os, formatter, phase, given, rfl⟩
  · cases advances with
    | formatterSet formatter rest idle calls => exact formatted.asked thread (.setFormatter formatter) (by simp [calls])
    | called | reopened | timed | logReopened | stamped => exact formatted.given
  · exact formatted.given

theorem advances_left (free : Unguarded) (data : Guarded) (own : Caller) (advances : Advances state thread free data own) :
    own.left < (state.locals thread).left := by
  cases advances with
  | called request os rest idle calls =>
      simp only [Caller.left, idle, calls, List.length_cons, Phase.left]
      split <;> omega
  | reopened os rest idle calls | formatterSet formatter rest idle calls => simp [Caller.left, calls]
  | timed request os phase =>
      have before : (state.locals thread).left = 4 + 5 * (state.locals thread).calls.length := by rw [Caller.left, phase]; rfl
      rw [before, Caller.left]
      dsimp only
      split <;> simp only [Phase.left] <;> omega
  | logReopened request os phase | stamped request os phase => simp [Caller.left, phase, Phase.left]

theorem step_left (stepped : wholeStep (moves strftime) state thread = some next) :
    (next.locals thread).left < (state.locals thread).left ∧ ∀ other, (next.locals other).left ≤ (state.locals other).left := by
  have moved (free : Unguarded) (data : Guarded) (own : Caller) (less : own.left < (state.locals thread).left) :
      ((advance state thread free data own).locals thread).left < (state.locals thread).left ∧
        ∀ other, ((advance state thread free data own).locals other).left ≤ (state.locals other).left := by
    refine ⟨by simpa [advance] using less, ?_⟩
    refine (Function.forall_update_iff _ fun other (own : Caller) => own.left ≤ (state.locals other).left).mpr ⟨Nat.le_of_lt less, ?_⟩
    exact fun other _ => Nat.le_refl _
  rcases step_cases strftime state next thread stepped with
    ⟨free, data, own, advances, rfl⟩ | ⟨request, os, formatter, phase, given, rfl⟩
  · exact moved free data own (advances_left state thread free data own advances)
  · exact moved _ _ _ (by simp [Caller.left, phase, Phase.left])

theorem unfinished_steps (formatted : Formatted state) (unfinished : (state.locals thread).left ≠ 0) :
    (wholeStep (moves strftime) state thread).isSome := by
  obtain ⟨formatter, given⟩ := Option.isSome_iff_exists.mp formatted.given
  rw [wholeStep, moves]
  cases phase : (state.locals thread).phase with
  | idle =>
      cases calls : (state.locals thread).calls with
      | nil => simp [Caller.left, phase, calls, Phase.left] at unfinished
      | cons call rest => cases call <;> simp [reopen_execute, set_formatter_execute]
  | writing request os => simp [write, locked, Body.sequence, execute, given]
  | timing | reopening | stamping => simp [reopen_execute]

-- What holds of every state while the system gives what it is asked for.
structure Served : Prop where
  kept : Kept strftime base programs state
  ready : Ready state
  flushed : Flushed state
  complete : ∀ other, account base.level state other = requestsOf base.level (programs other)

theorem step_served (served : Served strftime base programs state) (stepped : wholeStep (moves strftime) state thread = some next) :
    Served strftime base programs next where
  kept := step_kept strftime base programs state next thread served.kept stepped
  ready := step_ready strftime state next thread served.ready stepped
  flushed := step_flushed strftime state next thread served.flushed stepped
  complete := step_complete strftime base programs state next thread served.kept served.ready served.complete stepped

theorem thread_moves (served : Served strftime base programs state) (formatted : Formatted state)
    (unfinished : (state.locals thread).left ≠ 0) : ∃ turn next, wholeStep (moves strftime) state turn = some next ∧
      (Served strftime base programs next ∧ Formatted next) ∧ (next.locals thread).left < (state.locals thread).left ∧
      ∀ other, (next.locals other).left ≤ (state.locals other).left := by
  obtain ⟨next, stepped⟩ := Option.isSome_iff_exists.mp (unfinished_steps strftime state thread formatted unfinished)
  exact ⟨thread, next, stepped, ⟨step_served strftime base programs state next thread served stepped,
    step_formatted strftime state next thread formatted stepped⟩, step_left strftime state next thread stepped⟩

theorem finished_records (served : Served strftime base programs state) (finished : (state.locals thread).left = 0) :
    recordsOf thread (state.data ()).logged = requestsOf base.level (programs thread) := by
  have complete := served.complete thread
  rw [account] at complete
  rw [← complete]
  cases phase : (state.locals thread).phase <;> cases calls : (state.locals thread).calls <;>
    simp_all [Caller.left, Phase.left, Phase.request, requestsOf]

end Steps

end Sylar.Log.FileAppenderStatements
