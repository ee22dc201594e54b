import Mathlib.Logic.Function.Basic
import Sylar.Log.ReadyToFormat

set_option autoImplicit false

namespace Sylar.Log.AppenderOrder

open Function (update)
open Lib (Address run)
open Reconfigure (passes)

structure Issue where
  thread : Nat
  logger : Address
  level : Level
  event : LogEvent

-- Where a call stands: before the level test of a logger, before its lock, in
-- the loop over its appenders, behind the level test of one of them, or on its
-- way out, with the guards still to be destroyed.
inductive Doing where
  | idle
  | asking (call : Nat) (logger : Address)
  | waiting (call : Nat) (logger : Address)
  | inside (call : Nat) (logger : Address) (remaining : List Address)
  | printing (call : Nat) (logger appender : Address) (remaining : List Address)
  | leaving
deriving DecidableEq, Repr

structure Thread where
  held : List Address
  doing : Doing
deriving DecidableEq, Repr

-- What an appender's stream has taken, with the logger that passed itself on.
structure Record where
  logger : Address
  call : Nat
  text : String
deriving DecidableEq, Repr

-- A call goes by its place among all that have been issued; order has the calls
-- that have taken a logger's lock, one after the other.
structure Shared where
  manager : Manager
  locks : Address → Option Nat
  threads : Nat → Thread
  issued : List Issue
  order : Address → List Nat
  outputs : Address → List Record

inductive Action where
  | log (thread : Nat) (logger : Address) (level : Level) (event : LogEvent)
  | advance (thread : Nat) (took : Bool) (bufs : Nat → String)
  | operate (call : ReadyToFormat.Call)

def start (manager : Manager) : Shared := ⟨manager, fun _ => none, fun _ => ⟨[], .idle⟩, [], fun _ => [], fun _ => []⟩

def Shared.go (state : Shared) (thread : Nat) (doing : Doing) : Shared :=
  { state with threads := update state.threads thread { state.threads thread with doing := doing } }

-- The logger whose lock another operation takes. A load is the calls it makes,
-- each of which takes a lock of its own.
def lockOf : ReadyToFormat.Call → Option Address
  | .addAppender logger _ | .delAppender logger _ | .clearAppender logger | .setLevel logger _
  | .setFormatter logger _ | .setFormatterText logger _ => some logger
  | _ => none

def isLoad : ReadyToFormat.Call → Bool
  | .load _ => true
  | _ => false

section Steps

variable (strftime : String → Nat → String)

-- Logger::log, at a logger of its own or at m_root of another.
def ask (state : Shared) (thread call : Nat) (logger : Address) : Option Shared := do
  let issue ← state.issued[call]?
  let object ← state.manager.objects.read logger
  return state.go thread (if passes issue.level object.level then .waiting call logger else .leaving)

def enter (state : Shared) (thread call : Nat) (logger : Address) : Option Shared := do
  let object ← state.manager.objects.read logger
  if state.locks logger ≠ none then none
  else
    let doing : Doing :=
      match object.appenders, object.root with
      | [], none => .leaving
      | [], some root => .asking call root
      | appenders, _ => .inside call logger appenders
    return { state with
      locks := update state.locks logger (some thread)
      order := update state.order logger (state.order logger ++ [call])
      threads := update state.threads thread ⟨logger :: (state.threads thread).held, doing⟩ }

-- The appender's level, read without its lock.
def test (state : Shared) (thread call : Nat) (logger appender : Address) (remaining : List Address) : Option Shared := do
  let issue ← state.issued[call]?
  let ap ← state.manager.appenders.read appender
  return state.go thread
    (if passes issue.level ap.level then .printing call logger appender remaining else .inside call logger remaining)

-- Under the appender's lock. The stream of a file may be of no use, also
-- because a reopen before has failed, and then takes nothing.
def print (state : Shared) (thread call : Nat) (logger appender : Address) (remaining : List Address) (took : Bool)
    (bufs : Nat → String) : Option Shared := do
  let issue ← state.issued[call]?
  let object ← state.manager.objects.read logger
  let ap ← state.manager.appenders.read appender
  let formatter ← ap.formatter
  let record : Record := ⟨logger, call, formatter.format strftime bufs object issue.level issue.event⟩
  let written : Shared :=
    if took then { state with outputs := update state.outputs appender (state.outputs appender ++ [record]) } else state
  return written.go thread (.inside call logger remaining)

def leave (state : Shared) (thread : Nat) : Shared :=
  match (state.threads thread).held with
  | [] => state.go thread .idle
  | logger :: held =>
      { state with locks := update state.locks logger none, threads := update state.threads thread ⟨held, .leaving⟩ }

def advance (state : Shared) (thread : Nat) (took : Bool) (bufs : Nat → String) : Option Shared :=
  match (state.threads thread).doing with
  | .idle => none
  | .asking call logger => ask state thread call logger
  | .waiting call logger => enter state thread call logger
  | .inside _ _ [] => some (state.go thread .leaving)
  | .inside call logger (appender :: remaining) => test state thread call logger appender remaining
  | .printing call logger appender remaining => print strftime state thread call logger appender remaining took bufs
  | .leaving => some (leave state thread)

def step (state : Shared) : Action → Option Shared
  | .log thread logger level event =>
      if (state.threads thread).doing = .idle then
        some { state with
          issued := state.issued ++ [⟨thread, logger, level, event⟩]
          threads := update state.threads thread ⟨[], .asking state.issued.length logger⟩ }
      else none
  | .advance thread took bufs => advance strftime state thread took bufs
  | .operate call =>
      if call.Possible state.manager ∧ (lockOf call).all (fun logger => state.locks logger = none) ∧ ¬ isLoad call then
        some { state with manager := call.act state.manager }
      else none

-- The calls in an output that came through a logger.
def through (logger : Address) (output : List Record) : List Nat :=
  (output.filter fun record => record.logger = logger).map Record.call

def InOrder (order calls : List Nat) : Prop :=
  calls ⊆ order ∧ calls.Pairwise fun first second => first = second ∨ [first, second].Sublist order

def Doing.call : Doing → Option Nat
  | .idle | .leaving => none
  | .asking call _ | .waiting call _ | .inside call _ _ | .printing call _ _ _ => some call

-- The logger whose appenders a call is at.
def Doing.logger : Doing → Option Address
  | .inside _ logger _ | .printing _ logger _ _ => some logger
  | _ => none

def issuer (issued : List Issue) (call : Nat) : Option Nat := (issued[call]?).map Issue.thread

section Order

theorem in_order_append (order calls : List Nat) (call : Nat) (ordered : InOrder order calls) :
    InOrder (order ++ [call]) calls := by
  refine ⟨fun other member => List.mem_append_left _ (ordered.1 member), ordered.2.imp ?_⟩
  rintro first second (same | before)
  · exact .inl same
  · exact .inr (before.trans (List.sublist_append_left _ _))

-- What is printed now belongs to the call that has taken the lock last.
theorem in_order_last (order calls : List Nat) (call : Nat) (last : order.getLast? = some call)
    (ordered : InOrder order calls) : InOrder order (calls ++ [call]) := by
  obtain ⟨before, rfl⟩ := List.getLast?_eq_some_iff.mp last
  refine ⟨?_, ?_⟩
  · intro other member
    rcases List.mem_append.mp member with earlier | now
    · exact ordered.1 earlier
    · exact List.mem_append_right _ now
  · rw [List.pairwise_append]
    refine ⟨ordered.2, List.pairwise_singleton _ _, ?_⟩
    intro other member now here
    cases List.mem_singleton.mp here
    rcases List.mem_append.mp (ordered.1 member) with earlier | same
    · exact .inr ((List.singleton_sublist.mpr earlier).append (List.Sublist.refl _))
    · exact .inl (List.mem_singleton.mp same)

theorem through_append (logger : Address) (output : List Record) (record : Record) :
    through logger (output ++ [record]) =
      if record.logger = logger then through logger output ++ [record.call] else through logger output := by
  by_cases same : record.logger = logger <;> simp [through, same]

end Order

-- What a step does, as far as the order of the outputs goes.
inductive Moves (state : Shared) : Shared → Prop where
  | issued (issue : Issue) (idle : (state.threads issue.thread).doing = .idle) : Moves state { state with
      issued := state.issued ++ [issue]
      threads := update state.threads issue.thread ⟨[], .asking state.issued.length issue.logger⟩ }
  | entered (thread call : Nat) (logger : Address) (doing : Doing) (waits : (state.threads thread).doing = .waiting call logger)
      (free : state.locks logger = none) (goesOn : doing ≠ .idle) (calls : doing.call = some call ∨ doing.call = none)
      (place : ∀ other, doing.logger = some other → other = logger ∧ doing.call = some call) : Moves state { state with
        locks := update state.locks logger (some thread)
        order := update state.order logger (state.order logger ++ [call])
        threads := update state.threads thread ⟨logger :: (state.threads thread).held, doing⟩ }
  | moved (thread : Nat) (doing : Doing) (rests : doing = .idle → (state.threads thread).held = [])
      (calls : doing.call = (state.threads thread).doing.call ∨ doing.call = none)
      (place : ∀ logger, doing.logger = some logger →
        (state.threads thread).doing.logger = some logger ∧ doing.call = (state.threads thread).doing.call) :
      Moves state (state.go thread doing)
  | printed (thread call : Nat) (logger appender : Address) (remaining : List Address) (text : String)
      (prints : (state.threads thread).doing = .printing call logger appender remaining) : Moves state (Shared.go { state with
        outputs := update state.outputs appender (state.outputs appender ++ [⟨logger, call, text⟩]) } thread
          (.inside call logger remaining))
  | released (thread : Nat) (logger : Address) (held : List Address)
      (leaves : state.threads thread = ⟨logger :: held, .leaving⟩) : Moves state { state with
        locks := update state.locks logger none, threads := update state.threads thread ⟨held, .leaving⟩ }
  | operated (manager : Manager) : Moves state { state with manager := manager }

variable (state next : Shared)

section Functions

variable (thread call : Nat) (logger : Address)

theorem ask_moves (doing : (state.threads thread).doing = .asking call logger)
    (stepped : ask state thread call logger = some next) : Moves state next := by
  obtain ⟨issue, -, stepped⟩ := Option.bind_eq_some_iff.mp stepped
  obtain ⟨object, -, stepped⟩ := Option.bind_eq_some_iff.mp stepped
  cases stepped
  split
  · exact .moved thread _ (by simp) (by simp [doing, Doing.call]) (by simp [Doing.logger])
  · exact .moved thread _ (by simp) (by simp [Doing.call]) (by simp [Doing.logger])

theorem enter_moves (doing : (state.threads thread).doing = .waiting call logger)
    (stepped : enter state thread call logger = some next) : Moves state next := by
  obtain ⟨object, -, stepped⟩ := Option.bind_eq_some_iff.mp stepped
  split at stepped
  · cases stepped
  · rename_i free
    cases stepped
    refine .entered thread call logger _ doing (by simpa using free) ?_ ?_ ?_
    · split <;> simp
    · split <;> simp [Doing.call]
    · split <;> simp [Doing.logger, Doing.call, eq_comm]

theorem test_moves (appender : Address) (remaining : List Address)
    (doing : (state.threads thread).doing = .inside call logger (appender :: remaining))
    (stepped : test state thread call logger appender remaining = some next) : Moves state next := by
  obtain ⟨issue, -, stepped⟩ := Option.bind_eq_some_iff.mp stepped
  obtain ⟨ap, -, stepped⟩ := Option.bind_eq_some_iff.mp stepped
  cases stepped
  split
  · exact .moved thread _ (by simp) (by simp [doing, Doing.call]) (by simp [doing, Doing.logger, Doing.call])
  · exact .moved thread _ (by simp) (by simp [doing, Doing.call]) (by simp [doing, Doing.logger, Doing.call])

theorem print_moves (appender : Address) (remaining : List Address) (took : Bool) (bufs : Nat → String)
    (doing : (state.threads thread).doing = .printing call logger appender remaining)
    (stepped : print strftime state thread call logger appender remaining took bufs = some next) : Moves state next := by
  obtain ⟨issue, -, stepped⟩ := Option.bind_eq_some_iff.mp stepped
  obtain ⟨object, -, stepped⟩ := Option.bind_eq_some_iff.mp stepped
  obtain ⟨ap, -, stepped⟩ := Option.bind_eq_some_iff.mp stepped
  obtain ⟨formatter, -, stepped⟩ := Option.bind_eq_some_iff.mp stepped
  cases took with
  | false =>
      cases stepped
      exact .moved thread _ (by simp) (by simp [doing, Doing.call]) (by simp [doing, Doing.logger, Doing.call])
  | true =>
      cases stepped
      exact .printed thread call logger appender remaining _ doing

theorem leave_moves (doing : (state.threads thread).doing = .leaving) : Moves state (leave state thread) := by
  rw [leave]
  split
  · rename_i none
    exact .moved thread .idle (fun _ => none) (by simp [Doing.call]) (by simp [Doing.logger])
  · rename_i logger held holds
    exact .released thread logger held (by rw [← holds, ← doing])

end Functions

theorem step_moves (action : Action) (stepped : step strftime state action = some next) : Moves state next := by
  cases action with
  | log thread logger level event =>
      rw [step] at stepped
      split at stepped
      · rename_i idle
        cases stepped
        exact .issued ⟨thread, logger, level, event⟩ idle
      · cases stepped
  | operate call =>
      rw [step] at stepped
      split at stepped
      · cases stepped
        exact .operated _
      · cases stepped
  | advance thread took bufs =>
      rw [step, advance] at stepped
      split at stepped
      · cases stepped
      · rename_i call logger doing
        exact ask_moves state next thread call logger doing stepped
      · rename_i call logger doing
        exact enter_moves state next thread call logger doing stepped
      · cases stepped
        exact .moved thread .leaving (by simp) (by simp [Doing.call]) (by simp [Doing.logger])
      · rename_i call logger appender remaining doing
        exact test_moves state next thread call logger appender remaining doing stepped
      · rename_i call logger appender remaining doing
        exact print_moves strftime state next thread call logger appender remaining took bufs doing stepped
      · rename_i doing
        cases stepped
        exact leave_moves state thread doing

-- A thread has the locks in its list; it makes one call after the other, and
-- takes the lock of a logger once for each; a call that is at a logger's
-- appenders has taken that logger's lock last.
structure Fits (locks : Address → Option Nat) (order : Address → List Nat) (issued : List Issue) (thread : Nat)
    (own : Thread) : Prop where
  held : ∀ logger, logger ∈ own.held ↔ locks logger = some thread
  nodup : own.held.Nodup
  resting : own.doing = .idle → own.held = []
  current : ∀ call, own.doing.call = some call → issuer issued call = some thread ∧
    ∀ other, issuer issued other = some thread → other ≤ call
  inside : ∀ logger, own.doing.logger = some logger → logger ∈ own.held ∧ (order logger).getLast? = own.doing.call
  entered : ∀ call, own.doing.call = some call → ∀ logger, call ∈ order logger → logger ∈ own.held

structure Sound (state : Shared) : Prop where
  threads : ∀ thread, Fits state.locks state.order state.issued thread (state.threads thread)
  known : ∀ logger, ∀ call ∈ state.order logger, call < state.issued.length
  ordered : ∀ logger, (state.order logger).Pairwise fun first second =>
    issuer state.issued first = issuer state.issued second → first < second
  outputs : ∀ appender logger, InOrder (state.order logger) (through logger (state.outputs appender))

theorem start_sound (manager : Manager) : Sound (start manager) where
  threads := fun _ => ⟨by simp [start], by simp [start], by simp [start], by simp [start, Doing.call],
    by simp [start, Doing.logger], by simp [start]⟩
  known := by simp [start]
  ordered := by simp [start]
  outputs := fun _ _ => ⟨List.nil_subset _, List.Pairwise.nil⟩

section Issued

variable (issued : List Issue) (issue : Issue)

theorem issuer_append (call : Nat) :
    issuer (issued ++ [issue]) call = if call = issued.length then some issue.thread else issuer issued call := by
  rw [issuer, issuer, List.getElem?_append]
  by_cases below : call < issued.length
  · rw [if_pos below, if_neg (Nat.ne_of_lt below)]
  · rw [if_neg below]
    by_cases fresh : call = issued.length
    · simp [fresh]
    · have beyond : issued[call]? = none := by
        rw [List.getElem?_eq_none_iff]
        omega
      have past : [issue][call - issued.length]? = none := by
        rw [List.getElem?_eq_none_iff, List.length_singleton]
        omega
      rw [if_neg fresh, beyond, past]

theorem issuer_below (call thread : Nat) (known : issuer issued call = some thread) : call < issued.length := by
  obtain ⟨issue, there, -⟩ := Option.map_eq_some_iff.mp known
  exact (List.getElem?_eq_some_iff.mp there).1

end Issued

section Fits

variable {locks : Address → Option Nat} {order : Address → List Nat} {issued : List Issue} {other : Nat} {own : Thread}
variable (fits : Fits locks order issued other own)

include fits

theorem fits_issued (issue : Issue) (apart : other ≠ issue.thread) : Fits locks order (issued ++ [issue]) other own := by
  refine ⟨fits.held, fits.nodup, fits.resting, fun call calls => ?_, fits.inside, fits.entered⟩
  obtain ⟨mine, latest⟩ := fits.current call calls
  refine ⟨?_, fun earlier known => ?_⟩
  · rw [issuer_append, if_neg (Nat.ne_of_lt (issuer_below issued call other mine)), mine]
  · rw [issuer_append] at known
    split at known
    · exact absurd (Option.some.inj known).symm apart
    · exact latest earlier known

theorem fits_issue (issue : Issue) (mine : issue.thread = other) (idle : own.doing = .idle)
    (known : ∀ logger, ∀ call ∈ order logger, call < issued.length) :
    Fits locks order (issued ++ [issue]) other ⟨[], .asking issued.length issue.logger⟩ := by
  refine ⟨fun logger => ?_, List.nodup_nil, fun _ => rfl, ?_, by simp [Doing.logger], ?_⟩
  · rw [← fits.held logger, fits.resting idle]
  · rintro call ⟨⟩
    refine ⟨by rw [issuer_append, if_pos rfl, mine], fun earlier before => ?_⟩
    have bound := issuer_below _ _ _ before
    rw [List.length_append, List.length_singleton] at bound
    omega
  · rintro call ⟨⟩ logger member
    exact absurd (known logger _ member) (Nat.lt_irrefl _)

-- Another thread takes a lock that was free.
theorem fits_taken (thread call : Nat) (logger : Address) (apart : other ≠ thread) (free : locks logger = none)
    (theirs : own.doing.call ≠ some call) :
    Fits (update locks logger (some thread)) (update order logger (order logger ++ [call])) issued other own := by
  have unheld : logger ∉ own.held := by simp [fits.held logger, free]
  refine ⟨fun taken => ?_, fits.nodup, fits.resting, fits.current, fun taken inside => ?_,
    fun earlier calls taken member => ?_⟩
  · by_cases here : taken = logger
    · subst here
      have different : thread ≠ other := fun equal => apart equal.symm
      simp [unheld, different]
    · simpa [here] using fits.held taken
  · obtain ⟨holds, last⟩ := fits.inside taken inside
    have elsewhere : taken ≠ logger := by
      rintro rfl
      exact unheld holds
    exact ⟨holds, by rw [Function.update_of_ne elsewhere, last]⟩
  · by_cases here : taken = logger
    · subst here
      simp only [Function.update_self, List.mem_append, List.mem_singleton] at member
      rcases member with before | now
      · exact fits.entered earlier calls taken before
      · exact absurd (now ▸ calls) theirs
    · exact fits.entered earlier calls taken (by simpa [here] using member)

theorem fits_enter (call : Nat) (logger : Address) (doing : Doing) (waits : own.doing.call = some call)
    (free : locks logger = none) (goesOn : doing ≠ .idle) (calls : doing.call = some call ∨ doing.call = none)
    (place : ∀ taken, doing.logger = some taken → taken = logger ∧ doing.call = some call) :
    Fits (update locks logger (some other)) (update order logger (order logger ++ [call])) issued other
      ⟨logger :: own.held, doing⟩ := by
  have unheld : logger ∉ own.held := by simp [fits.held logger, free]
  have asks (now : Nat) (going : doing.call = some now) : now = call := by
    rcases calls with same | none
    · exact Option.some.inj (going.symm.trans same)
    · cases none.symm.trans going
  refine ⟨fun taken => ?_, List.nodup_cons.mpr ⟨unheld, fits.nodup⟩, fun rests => absurd rests goesOn, ?_, ?_, ?_⟩
  · by_cases here : taken = logger
    · subst here
      simp
    · simpa [here] using fits.held taken
  · intro now going
    cases asks now going
    exact fits.current call waits
  · intro taken inside
    obtain ⟨rfl, going⟩ := place taken inside
    exact ⟨List.mem_cons_self, by simp [going]⟩
  · intro now going taken member
    cases asks now going
    by_cases here : taken = logger
    · subst here
      exact List.mem_cons_self
    · exact List.mem_cons_of_mem _ (fits.entered call waits taken (by simpa [here] using member))

theorem fits_moved (doing : Doing) (rests : doing = .idle → own.held = [])
    (calls : doing.call = own.doing.call ∨ doing.call = none)
    (place : ∀ logger, doing.logger = some logger → own.doing.logger = some logger ∧ doing.call = own.doing.call) :
    Fits locks order issued other { own with doing := doing } := by
  have asks (call : Nat) (going : doing.call = some call) : own.doing.call = some call := by
    rcases calls with same | none
    · exact same.symm.trans going
    · cases none.symm.trans going
  refine ⟨fits.held, fits.nodup, rests, fun call going => fits.current call (asks call going), fun logger inside => ?_,
    fun call going => fits.entered call (asks call going)⟩
  obtain ⟨before, same⟩ := place logger inside
  rw [same]
  exact fits.inside logger before

theorem fits_freed (thread : Nat) (logger : Address) (apart : other ≠ thread) (holder : locks logger = some thread) :
    Fits (update locks logger none) order issued other own := by
  refine ⟨fun taken => ?_, fits.nodup, fits.resting, fits.current, fits.inside, fits.entered⟩
  by_cases here : taken = logger
  · subst here
    have different : thread ≠ other := fun equal => apart equal.symm
    simp [fits.held taken, holder, different]
  · simpa [here] using fits.held taken

theorem fits_release (logger : Address) (held : List Address) (holds : own.held = logger :: held) :
    Fits (update locks logger none) order issued other ⟨held, .leaving⟩ := by
  have nodup := fits.nodup
  rw [holds] at nodup
  obtain ⟨absent, nodup⟩ := List.nodup_cons.mp nodup
  refine ⟨fun taken => ?_, nodup, by simp, by simp [Doing.call], by simp [Doing.logger], by simp [Doing.call]⟩
  by_cases here : taken = logger
  · subst here
    simpa using absent
  · have before := fits.held taken
    rw [holds] at before
    simpa [here] using before

end Fits

section Sound

variable (sound : Sound state)

include sound

theorem issued_sound (issue : Issue) (idle : (state.threads issue.thread).doing = .idle) : Sound { state with
    issued := state.issued ++ [issue]
    threads := update state.threads issue.thread ⟨[], .asking state.issued.length issue.logger⟩ } := by
  refine ⟨?_, fun logger call member => ?_, fun logger => ?_, sound.outputs⟩
  · refine (Function.forall_update_iff _ (Fits _ _ (state.issued ++ [issue]))).mpr ⟨?_, fun other apart => ?_⟩
    · exact fits_issue (sound.threads issue.thread) issue rfl idle sound.known
    · exact fits_issued (sound.threads other) issue apart
  · have below := sound.known logger call member
    simp only [List.length_append, List.length_singleton]
    omega
  · refine (sound.ordered logger).imp_of_mem fun {first second} here there before => ?_
    rw [issuer_append, issuer_append, if_neg (Nat.ne_of_lt (sound.known logger first here)),
      if_neg (Nat.ne_of_lt (sound.known logger second there))]
    exact before

theorem entered_sound (thread call : Nat) (logger : Address) (doing : Doing)
    (waits : (state.threads thread).doing = .waiting call logger) (free : state.locks logger = none) (goesOn : doing ≠ .idle)
    (calls : doing.call = some call ∨ doing.call = none)
    (place : ∀ other, doing.logger = some other → other = logger ∧ doing.call = some call) : Sound { state with
      locks := update state.locks logger (some thread)
      order := update state.order logger (state.order logger ++ [call])
      threads := update state.threads thread ⟨logger :: (state.threads thread).held, doing⟩ } := by
  have own := sound.threads thread
  have mine : (state.threads thread).doing.call = some call := by rw [waits, Doing.call]
  obtain ⟨issued, latest⟩ := own.current call mine
  -- The lock is free, so this call has not had it before.
  have fresh : call ∉ state.order logger := by
    intro member
    have holds := (own.held logger).mp (own.entered call mine logger member)
    rw [free] at holds
    cases holds
  refine ⟨?_, fun taken earlier member => ?_, fun taken => ?_, fun appender taken => ?_⟩
  · refine (Function.forall_update_iff _ (Fits _ _ state.issued)).mpr ⟨?_, fun other apart => ?_⟩
    · exact fits_enter own call logger doing mine free goesOn calls place
    · refine fits_taken (sound.threads other) thread call logger apart free fun theirs => ?_
      have one := ((sound.threads other).current call theirs).1
      exact apart (Option.some.inj (one.symm.trans issued))
  · by_cases here : taken = logger
    · subst here
      simp only [Function.update_self, List.mem_append, List.mem_singleton] at member
      rcases member with before | rfl
      · exact sound.known taken earlier before
      · exact issuer_below _ _ _ issued
    · exact sound.known taken earlier (by simpa [here] using member)
  · by_cases here : taken = logger
    · subst here
      simp only [Function.update_self]
      rw [List.pairwise_append]
      refine ⟨sound.ordered taken, List.pairwise_singleton _ _, ?_⟩
      intro earlier member last now equal
      cases List.mem_singleton.mp now
      have below : earlier ≤ call := latest earlier (equal.trans issued)
      have differs : earlier ≠ call := fun same => fresh (same ▸ member)
      omega
    · simp only [Function.update_of_ne here]
      exact sound.ordered taken
  · by_cases here : taken = logger
    · subst here
      simpa using in_order_append _ _ call (sound.outputs appender taken)
    · simpa [here] using sound.outputs appender taken

theorem moved_sound (thread : Nat) (doing : Doing) (rests : doing = .idle → (state.threads thread).held = [])
    (calls : doing.call = (state.threads thread).doing.call ∨ doing.call = none)
    (place : ∀ logger, doing.logger = some logger →
      (state.threads thread).doing.logger = some logger ∧ doing.call = (state.threads thread).doing.call) :
    Sound (state.go thread doing) := by
  refine ⟨?_, sound.known, sound.ordered, sound.outputs⟩
  refine (Function.forall_update_iff _ (Fits state.locks state.order state.issued)).mpr
    ⟨?_, fun other _ => sound.threads other⟩
  exact fits_moved (sound.threads thread) doing rests calls place

theorem output_sound (thread call : Nat) (logger appender : Address) (text : String)
    (inside : (state.threads thread).doing.logger = some logger) (calls : (state.threads thread).doing.call = some call) :
    Sound { state with
      outputs := update state.outputs appender (state.outputs appender ++ [⟨logger, call, text⟩]) } := by
  refine ⟨sound.threads, sound.known, sound.ordered, ?_⟩
  intro other place
  by_cases here : other = appender
  · subst here
    simp only [Function.update_self]
    rw [through_append]
    split
    · rename_i same
      subst same
      exact in_order_last _ _ call (((sound.threads thread).inside _ inside).2.trans calls) (sound.outputs other _)
    · exact sound.outputs other place
  · simpa [here] using sound.outputs other place

theorem released_sound (thread : Nat) (logger : Address) (held : List Address)
    (leaves : state.threads thread = ⟨logger :: held, .leaving⟩) : Sound { state with
      locks := update state.locks logger none, threads := update state.threads thread ⟨held, .leaving⟩ } := by
  have holds : (state.threads thread).held = logger :: held := by rw [leaves]
  have holder : state.locks logger = some thread := ((sound.threads thread).held logger).mp (by simp [holds])
  refine ⟨?_, sound.known, sound.ordered, sound.outputs⟩
  refine (Function.forall_update_iff _ (Fits _ state.order state.issued)).mpr ⟨?_, fun other apart => ?_⟩
  · exact fits_release (sound.threads thread) logger held holds
  · exact fits_freed (sound.threads other) thread logger apart holder

theorem step_sound (action : Action) (stepped : step strftime state action = some next) : Sound next := by
  cases step_moves strftime state next action stepped with
  | issued issue idle => exact issued_sound state sound issue idle
  | entered thread call logger doing waits free goesOn calls place =>
      exact entered_sound state sound thread call logger doing waits free goesOn calls place
  | moved thread doing rests calls place => exact moved_sound state sound thread doing rests calls place
  | printed thread call logger appender remaining text prints =>
      have written := output_sound state sound thread call logger appender text (by rw [prints, Doing.logger])
        (by rw [prints, Doing.call])
      exact moved_sound _ written thread (.inside call logger remaining) (by simp) (by simp [prints, Doing.call])
        (by simp [prints, Doing.call, Doing.logger])
  | released thread logger held leaves => exact released_sound state sound thread logger held leaves
  | operated manager => exact ⟨sound.threads, sound.known, sound.ordered, sound.outputs⟩

theorem run_sound (schedule : List Action) (final : Shared) (completed : run (step strftime) state schedule = some final) :
    Sound final := by
  induction schedule generalizing state with
  | nil =>
      cases completed
      exact sound
  | cons action rest ih =>
      obtain ⟨middle, stepped, remaining⟩ := Lib.run_cons_some _ state final action rest completed
      exact ih middle (step_sound strftime state middle sound action stepped) remaining

end Sound

-- Every output shows the calls that came through a logger in one order, in
-- which those of a thread stand as it has made them.
theorem outputs_in_one_order (manager : Manager) (schedule : List Action) (final : Shared)
    (completed : run (step strftime) (start manager) schedule = some final) :
    ∃ order : Address → List Nat, ∀ logger, (order logger).Nodup ∧
      ((order logger).Pairwise fun first second => issuer final.issued first = issuer final.issued second → first < second) ∧
      ∀ appender, InOrder (order logger) (through logger (final.outputs appender)) := by
  have sound := run_sound strftime (start manager) (start_sound manager) schedule final completed
  refine ⟨final.order, fun logger => ⟨?_, sound.ordered logger, fun appender => sound.outputs appender logger⟩⟩
  refine (sound.ordered logger).imp ?_
  rintro call _ before rfl
  exact Nat.lt_irrefl call (before rfl)

end Steps

-- The root logger with two appenders, and a logger that falls back to it.
def rootAndSystem : Manager :=
  [ReadyToFormat.Call.newAppender (.file "log.txt"), .addAppender 0 1, .getLogger "system"].foldl ReadyToFormat.Call.act
    (LoggerManager.new defaultFormatter)

def started (logger : Address) : LogEvent := ⟨"main.cc", 1, 0, 0, 0, 0, logger, .info, "started"⟩

-- Thread 0 has the lock of its own logger when thread 1 takes that of root.
def twoCalls : List Action :=
  [.log 0 1 .info (started 1), .log 1 0 .info (started 0)] ++
    [0, 0, 1, 1, 0, 1, 1, 1, 1, 1, 1, 1, 0, 0, 0, 0, 0, 0, 0, 0, 0].map fun thread => .advance thread true fun _ => ""

def noon (_ : String) (_ : Nat) : String := "12:00:00"

theorem outputs_in_one_order_two : ∃ final, run (step noon) (start rootAndSystem) twoCalls = some final ∧
    through 0 (final.outputs 0) = [1, 0] ∧ through 0 (final.outputs 1) = [1, 0] ∧
    ∃ order, order.Nodup ∧ InOrder order [1, 0] := by
  have ran : ∃ final, run (step noon) (start rootAndSystem) twoCalls = some final ∧
      through 0 (final.outputs 0) = [1, 0] ∧ through 0 (final.outputs 1) = [1, 0] := ⟨_, rfl, rfl, rfl⟩
  obtain ⟨final, completed, one, other⟩ := ran
  obtain ⟨order, follows⟩ := outputs_in_one_order noon rootAndSystem twoCalls final completed
  exact ⟨final, completed, one, other, order 0, (follows 0).1, one ▸ (follows 0).2.2 0⟩

end Sylar.Log.AppenderOrder
