import Mathlib.Logic.Function.Basic
import Sylar.Lib.Runs

set_option autoImplicit false

namespace Sylar.Lib

open Function (update)

section Sections

variable (Lock Free Data Local : Type)

inductive Mode where
  | shared
  | exclusive
deriving DecidableEq, Repr

-- The statements of a section work on what the lock guards and on the thread's
-- own variables, and the thread's variables say how it goes on; a statement that
-- answers none is never completed.
inductive Body where
  | done
  | step (statement : Data → Local → Option (Data × Local)) (rest : Local → Body)

-- No statement writes what the lock guards.
def Body.Reads {Data Local : Type} : Body Data Local → Prop
  | .done => True
  | .step statement rest =>
      (∀ data own result, statement data own = some result → result.1 = data) ∧ ∀ own, (rest own).Reads

-- No statement changes what is shown of the thread.
def Body.Silent {Data Local Shown : Type} (shown : Local → Shown) : Body Data Local → Prop
  | .done => True
  | .step statement rest =>
      (∀ data own result, statement data own = some result → shown result.2 = shown own) ∧ ∀ own, (rest own).Silent shown

-- Only the last statement does.
def Body.ShowsLast {Data Local Shown : Type} (shown : Local → Shown) : Body Data Local → Prop
  | .done => True
  | .step statement rest =>
      (∀ data own result, statement data own = some result → rest result.2 = .done ∨ shown result.2 = shown own) ∧
        ∀ own, (rest own).ShowsLast shown

def Body.append {Data Local : Type} (first after : Body Data Local) : Body Data Local :=
  match first with
  | .done => after
  | .step statement rest => .step statement fun own => (rest own).append after

-- A part of a larger state: how it is read and replaced.
structure View (Part : Type) (State : Type) where
  get : State → Part
  put : Part → State → State
  get_put : ∀ part state, get (put part state) = part
  put_put : ∀ part first state, put part (put first state) = put part state
  put_get : ∀ state, put (get state) state = state

-- Statements that work on a part of the data and of the thread's variables.
def Body.lift {Data Local PartData PartLocal : Type} (data : View PartData Data) (own : View PartLocal Local) :
    Body PartData PartLocal → Body Data Local
  | .done => .done
  | .step statement rest =>
      .step (fun whole mine => (statement (data.get whole) (own.get mine)).map fun result =>
        (data.put result.1 whole, own.put result.2 mine)) fun mine => (rest (own.get mine)).lift data own

def Body.sequence {Data Local : Type} : List (Data → Local → Option (Data × Local)) → Body Data Local
  | [] => .done
  | statement :: rest => .step statement fun _ => Body.sequence rest

structure LockedSection where
  lock : Lock
  mode : Mode
  body : Body Data Local
  reads : mode = .shared → body.Reads

-- What a thread does next: a section, or one step on what no lock guards.
inductive Move where
  | enter (entered : LockedSection Lock Data Local)
  | free (act : Free → Option (Free × Local))

-- The state in which a section is one step.
structure Whole where
  free : Free
  data : Lock → Data
  locals : Nat → Local

-- The state in which each statement is one step: who holds a lock, and what a
-- thread inside a section has still to execute.
structure Fine extends Whole Lock Free Data Local where
  holders : Lock → List (Nat × Mode)
  inside : Nat → Option (Lock × Body Data Local)

end Sections

namespace Sections

section Semantics

variable {Lock Free Data Local : Type} [DecidableEq Lock] (moves : Local → Option (Move Lock Free Data Local))

def execute : Body Data Local → Data → Local → Option (Data × Local)
  | .done, data, own => some (data, own)
  | .step statement rest, data, own => (statement data own).bind fun result => execute (rest result.2) result.1 result.2

def wholeStep (state : Whole Lock Free Data Local) (thread : Nat) : Option (Whole Lock Free Data Local) :=
  match moves (state.locals thread) with
  | none => none
  | some (.free act) =>
      (act state.free).map fun result => { state with free := result.1, locals := update state.locals thread result.2 }
  | some (.enter entered) =>
      (execute entered.body (state.data entered.lock) (state.locals thread)).map fun result => { state with
        data := update state.data entered.lock result.1
        locals := update state.locals thread result.2 }

def admits (holders : List (Nat × Mode)) : Mode → Bool
  | .shared => holders.all fun holder => holder.2 = .shared
  | .exclusive => holders.isEmpty

def fineStep (state : Fine Lock Free Data Local) (thread : Nat) : Option (Fine Lock Free Data Local) :=
  match state.inside thread with
  | none =>
      match moves (state.locals thread) with
      | none => none
      | some (.free act) =>
          (act state.free).map fun result => { state with free := result.1, locals := update state.locals thread result.2 }
      | some (.enter entered) =>
          if admits (state.holders entered.lock) entered.mode then
            some { state with
              holders := update state.holders entered.lock ((thread, entered.mode) :: state.holders entered.lock)
              inside := update state.inside thread (some (entered.lock, entered.body)) }
          else none
  | some (lock, .done) =>
      some { state with
        holders := update state.holders lock ((state.holders lock).filter fun holder => holder.1 ≠ thread)
        inside := update state.inside thread none }
  | some (lock, .step statement rest) =>
      (statement (state.data lock) (state.locals thread)).map fun result => { state with
        data := update state.data lock result.1
        locals := update state.locals thread result.2
        inside := update state.inside thread (some (lock, rest result.2)) }

def settled (state : Whole Lock Free Data Local) : Fine Lock Free Data Local :=
  { state with holders := fun _ => [], inside := fun _ => none }

theorem execute_append (first after : Body Data Local) (data : Data) (own : Local) :
    execute (first.append after) data own = (execute first data own).bind fun result => execute after result.1 result.2 := by
  induction first generalizing data own with
  | done => rfl
  | step statement rest ih =>
      rw [Body.append, execute, execute, Option.bind_assoc]
      congr 1
      funext result
      exact ih result.2 result.1 result.2

theorem execute_lift {PartData PartLocal : Type} (dataView : View PartData Data) (ownView : View PartLocal Local)
    (body : Body PartData PartLocal) (data : Data) (own : Local) :
    execute (body.lift dataView ownView) data own =
      (execute body (dataView.get data) (ownView.get own)).map fun result =>
        (dataView.put result.1 data, ownView.put result.2 own) := by
  induction body generalizing data own with
  | done => rw [Body.lift, execute, execute, Option.map_some, dataView.put_get, ownView.put_get]
  | step statement rest ih =>
      simp only [Body.lift, execute]
      cases statement (dataView.get data) (ownView.get own) with
      | none => rfl
      | some result =>
          rw [Option.map_some, Option.bind_some, Option.bind_some, ownView.get_put, ih, dataView.get_put, ownView.get_put]
          simp only [dataView.put_put, ownView.put_put]

theorem reads_append (first after : Body Data Local) (one : first.Reads) (two : after.Reads) : (first.append after).Reads := by
  induction first with
  | done => exact two
  | step statement rest ih => exact ⟨one.1, fun own => ih own (one.2 own)⟩

theorem reads_lift {PartData PartLocal : Type} (dataView : View PartData Data) (ownView : View PartLocal Local)
    (body : Body PartData PartLocal) (reads : body.Reads) : (body.lift dataView ownView).Reads := by
  induction body with
  | done => trivial
  | step statement rest ih =>
      refine ⟨?_, fun own => ih _ (reads.2 _)⟩
      intro data own result executed
      obtain ⟨inner, done, rfl⟩ := Option.map_eq_some_iff.mp executed
      simp only [reads.1 _ _ inner done, dataView.put_get]

-- Statements that find something out about the data and leave it as it is.
structure Observation (Data Local : Type) {Result : Type} (of : Data → Result) where
  body : Body Data Local
  result : Local → Result
  reads : body.Reads
  observed : ∀ data own, ∃ after, execute body data own = some (data, after) ∧ result after = of data

section Looking

variable {PartData PartLocal Result : Type} {of : PartData → Result} (dataView : View PartData Data) (ownView : View PartLocal Local)

def observe (observation : Observation PartData PartLocal of) (next : Body Data Local) : Body Data Local :=
  (observation.body.lift dataView ownView).append next

def look (update : Data → Local → Local) (next : Local → Body Data Local) : Body Data Local :=
  .step (fun data own => some (data, update data own)) next

theorem observe_reads (observation : Observation PartData PartLocal of) (next : Body Data Local) (reads : next.Reads) :
    (observe dataView ownView observation next).Reads :=
  reads_append _ _ (reads_lift dataView ownView _ observation.reads) reads

theorem look_reads (update : Data → Local → Local) (next : Local → Body Data Local) (reads : ∀ own, (next own).Reads) :
    (look update next).Reads := by
  refine ⟨?_, reads⟩
  intro data own result executed
  cases executed
  rfl

theorem observe_execute (observation : Observation PartData PartLocal of) (next : Body Data Local) (data : Data) (own : Local) :
    ∃ after, observation.result after = of (dataView.get data) ∧
      execute (observe dataView ownView observation next) data own = execute next data (ownView.put after own) := by
  obtain ⟨after, executed, result⟩ := observation.observed (dataView.get data) (ownView.get own)
  refine ⟨after, result, ?_⟩
  rw [observe, execute_append, execute_lift, executed, Option.map_some, Option.bind_some, dataView.put_get]

theorem look_execute (update : Data → Local → Local) (next : Local → Body Data Local) (data : Data) (own : Local) :
    execute (look update next) data own = execute (next (update data own)) data (update data own) := rfl

section Shown

variable {Shown : Type} (shown : Local → Shown)

theorem silent_lift (kept : ∀ part own, shown (ownView.put part own) = shown own) (body : Body PartData PartLocal) :
    (body.lift dataView ownView).Silent shown := by
  induction body with
  | done => trivial
  | step statement rest ih =>
      refine ⟨?_, fun own => ih _⟩
      intro data own result executed
      obtain ⟨inner, -, rfl⟩ := Option.map_eq_some_iff.mp executed
      exact kept inner.2 own

theorem shows_last_append (first after : Body Data Local) (silent : first.Silent shown) (last : after.ShowsLast shown) :
    (first.append after).ShowsLast shown := by
  induction first with
  | done => exact last
  | step statement rest ih =>
      exact ⟨fun data own result executed => .inr (silent.1 data own result executed), fun own => ih own (silent.2 own)⟩

theorem shows_last_observe (kept : ∀ part own, shown (ownView.put part own) = shown own)
    (observation : Observation PartData PartLocal of) (next : Body Data Local) (last : next.ShowsLast shown) :
    (observe dataView ownView observation next).ShowsLast shown :=
  shows_last_append shown _ _ (silent_lift dataView ownView shown kept _) last

theorem shows_last_look (update : Data → Local → Local) (next : Local → Body Data Local)
    (shows : ∀ data own, next (update data own) = .done ∨ shown (update data own) = shown own)
    (last : ∀ own, (next own).ShowsLast shown) : (look update next).ShowsLast shown := by
  refine ⟨?_, last⟩
  intro data own result executed
  cases executed
  exact shows data own

end Shown

end Looking

-- A part of a section, from its first statement on.
inductive Progress (body : Body Data Local) (data : Data) (own : Local) : Body Data Local → Data → Local → Prop where
  | start : Progress body data own body data own
  | step (statement : Data → Local → Option (Data × Local)) (rest : Local → Body Data Local) (current : Data) (mine : Local)
      (result : Data × Local) (before : Progress body data own (.step statement rest) current mine)
      (executed : statement current mine = some result) : Progress body data own (rest result.2) result.1 result.2

theorem progress_execute (body rest : Body Data Local) (data current : Data) (own mine : Local)
    (progress : Progress body data own rest current mine) : execute body data own = execute rest current mine := by
  induction progress with
  | start => rfl
  | step statement rest current mine result before executed ih =>
      rw [ih, execute, executed]
      rfl

theorem progress_reads (body rest : Body Data Local) (data current : Data) (own mine : Local) (reads : body.Reads)
    (progress : Progress body data own rest current mine) : rest.Reads := by
  induction progress with
  | start => exact reads
  | step statement rest current mine result before executed ih => exact ih.2 result.2

-- The thread is outside, or has nothing left to do but to leave.
def Through (fine : Fine Lock Free Data Local) (thread : Nat) : Prop :=
  ∀ lock rest, fine.inside thread = some (lock, rest) → rest = .done

-- Nobody is in the middle of a section that writes.
def Undisturbed (fine : Fine Lock Free Data Local) (lock : Lock) : Prop :=
  ∀ thread, (thread, .exclusive) ∈ fine.holders lock → Through fine thread

-- A section counts as executed with its last statement. Until then the thread
-- and, for a writer, what the lock guards stand where they stood on entry.
structure Simulates (fine : Fine Lock Free Data Local) (whole : Whole Lock Free Data Local) : Prop where
  free : fine.free = whole.free
  through : ∀ thread, Through fine thread → fine.locals thread = whole.locals thread
  unwritten : ∀ lock, Undisturbed fine lock → fine.data lock = whole.data lock
  within : ∀ thread lock statement rest, fine.inside thread = some (lock, .step statement rest) →
    ∃ entered, moves (whole.locals thread) = some (.enter entered) ∧ entered.lock = lock ∧
      (thread, entered.mode) ∈ fine.holders lock ∧
      Progress entered.body (whole.data lock) (whole.locals thread) (.step statement rest) (fine.data lock) (fine.locals thread)
  held : ∀ lock thread mode, (thread, mode) ∈ fine.holders lock → ∃ rest, fine.inside thread = some (lock, rest)
  alone : ∀ lock thread, (thread, .exclusive) ∈ fine.holders lock → ∀ other ∈ fine.holders lock, other = (thread, .exclusive)

omit [DecidableEq Lock] in
theorem through_outside (fine : Fine Lock Free Data Local) (thread : Nat) (outside : fine.inside thread = none) :
    Through fine thread := by
  intro lock rest inside
  rw [outside] at inside
  cases inside

omit [DecidableEq Lock] in
theorem through_leaving (fine : Fine Lock Free Data Local) (thread : Nat) (lock : Lock)
    (leaving : fine.inside thread = some (lock, .done)) : Through fine thread := by
  intro place rest inside
  rw [leaving] at inside
  cases inside
  rfl

omit [DecidableEq Lock] in
theorem not_through (fine : Fine Lock Free Data Local) (thread : Nat) (lock : Lock)
    (statement : Data → Local → Option (Data × Local)) (rest : Local → Body Data Local)
    (inside : fine.inside thread = some (lock, .step statement rest)) : ¬ Through fine thread := by
  intro through
  cases through lock _ inside

section Showing

variable {Shown : Type} (shown : Local → Shown)

omit [DecidableEq Lock] in
theorem progress_shown (body rest : Body Data Local) (data current : Data) (own mine : Local) (last : body.ShowsLast shown)
    (progress : Progress body data own rest current mine) : rest.ShowsLast shown ∧ (rest = .done ∨ shown mine = shown own) := by
  induction progress with
  | start => exact ⟨last, .inr rfl⟩
  | step statement rest current mine result before executed ih =>
      obtain ⟨shows, further⟩ := ih
      rcases further with none | same
      · cases none
      · exact ⟨shows.2 result.2, (shows.1 current mine result executed).imp id fun kept => kept.trans same⟩

omit [DecidableEq Lock] in
-- Sections that show their result with the last statement show the same of any
-- thread at every moment.
theorem simulates_shown (shows : ∀ own entered, moves own = some (.enter entered) → entered.body.ShowsLast shown)
    (fine : Fine Lock Free Data Local) (whole : Whole Lock Free Data Local) (simulates : Simulates moves fine whole)
    (thread : Nat) : shown (fine.locals thread) = shown (whole.locals thread) := by
  by_cases through : Through fine thread
  · rw [simulates.through thread through]
  · simp only [Through, not_forall] at through
    obtain ⟨lock, rest, inside, unfinished⟩ := through
    cases rest with
    | done => exact absurd rfl unfinished
    | step statement rest =>
        obtain ⟨entered, started, -, -, progress⟩ := simulates.within thread lock statement rest inside
        obtain ⟨-, none | same⟩ := progress_shown shown _ _ _ _ _ _ (shows _ entered started) progress
        · cases none
        · exact same

end Showing

theorem admits_open (holders : List (Nat × Mode)) (mode : Mode) (admitted : admits holders mode = true) :
    (∀ thread, (thread, .exclusive) ∉ holders) ∧ (mode = .exclusive → holders = []) := by
  cases mode with
  | shared =>
      simp only [admits, List.all_eq_true, decide_eq_true_eq] at admitted
      refine ⟨fun thread member => ?_, by simp⟩
      have shared := admitted _ member
      cases shared
  | exclusive =>
      have empty : holders = [] := by simpa [admits] using admitted
      exact ⟨by simp [empty], fun _ => empty⟩

theorem admits_alone (holders : List (Nat × Mode)) (mode : Mode) (thread writer : Nat)
    (admitted : admits holders mode = true) (writes : (writer, .exclusive) ∈ (thread, mode) :: holders) :
    ∀ other ∈ (thread, mode) :: holders, other = (writer, .exclusive) := by
  obtain ⟨unwritten, empties⟩ := admits_open holders mode admitted
  rcases List.mem_cons.mp writes with entering | before
  · obtain ⟨rfl, rfl⟩ := Prod.mk.inj entering
    rw [empties rfl]
    simp
  · exact absurd before (unwritten writer)

section Leaving

variable (holders : Lock → List (Nat × Mode)) (lock place : Lock) (thread : Nat)

theorem held_before (holder : Nat × Mode)
    (present : holder ∈ update holders lock ((holders lock).filter fun holder => holder.1 ≠ thread) place) :
    holder ∈ holders place := by
  by_cases same : place = lock
  · subst same
    rw [Function.update_self] at present
    exact List.mem_of_mem_filter present
  · rwa [Function.update_of_ne same] at present

theorem held_still (other : Nat) (mode : Mode) (different : other ≠ thread) :
    (other, mode) ∈ update holders lock ((holders lock).filter fun holder => holder.1 ≠ thread) place ↔
      (other, mode) ∈ holders place := by
  by_cases same : place = lock
  · subst same
    simp [different]
  · simp [same]

end Leaving

section Step

variable (fine next : Fine Lock Free Data Local) (whole : Whole Lock Free Data Local) (thread : Nat)

theorem fine_step_cases (stepped : fineStep moves fine thread = some next) :
    (∃ act result, fine.inside thread = none ∧ moves (fine.locals thread) = some (.free act) ∧ act fine.free = some result ∧
      next = { fine with free := result.1, locals := update fine.locals thread result.2 }) ∨
    (∃ entered, fine.inside thread = none ∧ moves (fine.locals thread) = some (.enter entered) ∧
      admits (fine.holders entered.lock) entered.mode = true ∧ next = { fine with
        holders := update fine.holders entered.lock ((thread, entered.mode) :: fine.holders entered.lock)
        inside := update fine.inside thread (some (entered.lock, entered.body)) }) ∨
    (∃ lock, fine.inside thread = some (lock, .done) ∧ next = { fine with
      holders := update fine.holders lock ((fine.holders lock).filter fun holder => holder.1 ≠ thread)
      inside := update fine.inside thread none }) ∨
    (∃ lock statement rest result, fine.inside thread = some (lock, .step statement rest) ∧
      statement (fine.data lock) (fine.locals thread) = some result ∧ next = { fine with
        data := update fine.data lock result.1
        locals := update fine.locals thread result.2
        inside := update fine.inside thread (some (lock, rest result.2)) }) := by
  rw [fineStep] at stepped
  split at stepped
  · rename_i outside
    split at stepped
    · cases stepped
    · rename_i act move
      obtain ⟨result, acted, rfl⟩ := Option.map_eq_some_iff.mp stepped
      exact .inl ⟨act, result, outside, move, acted, rfl⟩
    · rename_i entered move
      split at stepped
      · rename_i admitted
        cases stepped
        exact .inr (.inl ⟨entered, outside, move, admitted, rfl⟩)
      · cases stepped
  · rename_i lock inside
    cases stepped
    exact .inr (.inr (.inl ⟨lock, inside, rfl⟩))
  · rename_i lock statement rest inside
    obtain ⟨result, done, rfl⟩ := Option.map_eq_some_iff.mp stepped
    exact .inr (.inr (.inr ⟨lock, statement, rest, result, inside, done, rfl⟩))

variable {fine}

omit [DecidableEq Lock] in
theorem simulates_free (simulates : Simulates moves fine whole) (result : Free × Local) (outside : fine.inside thread = none) :
    Simulates moves { fine with free := result.1, locals := update fine.locals thread result.2 }
      { whole with free := result.1, locals := update whole.locals thread result.2 } where
  free := rfl
  through := by
    intro other through
    by_cases same : other = thread
    · subst same
      simp
    · simpa [same] using simulates.through other through
  unwritten := simulates.unwritten
  within := by
    intro other lock statement rest inside
    have different : other ≠ thread := by
      rintro rfl
      rw [outside] at inside
      cases inside
    simpa [different] using simulates.within other lock statement rest inside
  held := simulates.held
  alone := simulates.alone

theorem enter_held (simulates : Simulates moves fine whole) (entered : LockedSection Lock Data Local)
    (outside : fine.inside thread = none) (lock : Lock) (other : Nat) (mode : Mode)
    (member : (other, mode) ∈ update fine.holders entered.lock ((thread, entered.mode) :: fine.holders entered.lock) lock) :
    ∃ rest, update fine.inside thread (some (entered.lock, entered.body)) other = some (lock, rest) := by
  by_cases same : other = thread
  · subst same
    by_cases here : lock = entered.lock
    · subst here
      exact ⟨entered.body, by simp⟩
    · obtain ⟨rest, inside⟩ := simulates.held lock other mode (by simpa [here] using member)
      rw [outside] at inside
      cases inside
  · have before : (other, mode) ∈ fine.holders lock := by
      by_cases here : lock = entered.lock
      · subst here
        simpa [same] using member
      · simpa [here] using member
    simpa [same] using simulates.held lock other mode before

theorem simulates_enter (simulates : Simulates moves fine whole) (entered : LockedSection Lock Data Local)
    (outside : fine.inside thread = none) (move : moves (fine.locals thread) = some (.enter entered))
    (admitted : admits (fine.holders entered.lock) entered.mode = true) :
    Simulates moves { fine with
      holders := update fine.holders entered.lock ((thread, entered.mode) :: fine.holders entered.lock)
      inside := update fine.inside thread (some (entered.lock, entered.body)) } whole where
  free := simulates.free
  through := by
    intro other through
    by_cases same : other = thread
    · subst same
      exact simulates.through other (through_outside fine other outside)
    · exact simulates.through other fun lock rest inside => through lock rest (by simpa [same] using inside)
  unwritten := by
    intro lock writers
    apply simulates.unwritten lock
    intro other member
    have different : other ≠ thread := by
      rintro rfl
      obtain ⟨rest, inside⟩ := simulates.held lock other _ member
      rw [outside] at inside
      cases inside
    have still : Through _ other := writers other (by
      by_cases same : lock = entered.lock
      · subst same
        simp [member]
      · simpa [same] using member)
    exact fun place rest inside => still place rest (by simpa [different] using inside)
  within := by
    intro other lock statement rest inside
    by_cases same : other = thread
    · subst same
      simp only [Function.update_self, Option.some.injEq, Prod.mk.injEq] at inside
      obtain ⟨rfl, body⟩ := inside
      refine ⟨entered, ?_, rfl, by simp, ?_⟩
      · rw [← simulates.through other (through_outside fine other outside), move]
      · have unwritten := simulates.unwritten entered.lock fun writer member =>
          absurd member ((admits_open _ _ admitted).1 writer)
        rw [← simulates.through other (through_outside fine other outside), ← unwritten, ← body]
        exact .start
    · obtain ⟨own, started, guarded, member, progress⟩ := simulates.within other lock statement rest (by simpa [same] using inside)
      refine ⟨own, started, guarded, ?_, progress⟩
      by_cases here : lock = entered.lock
      · subst here
        simp [member]
      · simpa [here] using member
  held := enter_held moves whole thread simulates entered outside
  alone := by
    intro lock writer
    by_cases here : lock = entered.lock
    · subst here
      simp only [Function.update_self]
      exact admits_alone _ entered.mode thread writer admitted
    · simp only [Function.update_of_ne here]
      exact simulates.alone lock writer

section Statement

variable (lock : Lock) (statement : Data → Local → Option (Data × Local)) (rest : Local → Body Data Local)
  (result : Data × Local)

omit [DecidableEq Lock] in
-- Two inside at once are readers, and what a reader does leaves the data as it is.
theorem reader_beside (simulates : Simulates moves fine whole) (inside : fine.inside thread = some (lock, .step statement rest))
    (executed : statement (fine.data lock) (fine.locals thread) = some result) (other : Nat) (different : other ≠ thread)
    (mode : Mode) (holds : (other, mode) ∈ fine.holders lock) :
    result.1 = fine.data lock ∧ fine.data lock = whole.data lock := by
  obtain ⟨entered, -, rfl, member, progress⟩ := simulates.within thread lock statement rest inside
  have readers (writer : Nat) (writes : (writer, Mode.exclusive) ∈ fine.holders entered.lock) : False := by
    have mine : thread = writer := congrArg Prod.fst (simulates.alone entered.lock writer writes _ member)
    have his : other = writer := congrArg Prod.fst (simulates.alone entered.lock writer writes _ holds)
    exact different (his.trans mine.symm)
  have shared : entered.mode = .shared := by
    cases reads : entered.mode with
    | shared => rfl
    | exclusive => exact absurd (reads ▸ member) (readers thread)
  have reads := progress_reads _ _ _ _ _ _ (entered.reads shared) progress
  exact ⟨reads.1 _ _ result executed, simulates.unwritten entered.lock fun writer writes => absurd writes (readers writer)⟩

omit [DecidableEq Lock] in
theorem statement_held (simulates : Simulates moves fine whole) (inside : fine.inside thread = some (lock, .step statement rest))
    (place : Lock) (other : Nat) (mode : Mode) (holds : (other, mode) ∈ fine.holders place) :
    ∃ remaining, update fine.inside thread (some (lock, rest result.2)) other = some (place, remaining) := by
  obtain ⟨remaining, there⟩ := simulates.held place other mode holds
  by_cases same : other = thread
  · subst same
    rw [inside] at there
    cases there
    exact ⟨rest result.2, by simp⟩
  · exact ⟨remaining, by simpa [same] using there⟩

theorem statement_progress (simulates : Simulates moves fine whole) (inside : fine.inside thread = some (lock, .step statement rest))
    (executed : statement (fine.data lock) (fine.locals thread) = some result) (other : Nat) (different : other ≠ thread)
    (place : Lock) (following : Data → Local → Option (Data × Local)) (later : Local → Body Data Local)
    (there : fine.inside other = some (place, .step following later)) :
    ∃ entered, moves (whole.locals other) = some (.enter entered) ∧ entered.lock = place ∧
      (other, entered.mode) ∈ fine.holders place ∧ update fine.data lock result.1 place = fine.data place ∧
      update whole.data lock result.1 place = whole.data place ∧
      Progress entered.body (whole.data place) (whole.locals other) (.step following later) (fine.data place)
        (fine.locals other) := by
  obtain ⟨entered, started, rfl, holds, progress⟩ := simulates.within other place following later there
  refine ⟨entered, started, rfl, holds, ?_, ?_, progress⟩
  · by_cases same : entered.lock = lock
    · subst same
      rw [Function.update_self, (reader_beside moves whole thread _ statement rest result simulates inside executed other
        different _ holds).1]
    · exact Function.update_of_ne same _ _
  · by_cases same : entered.lock = lock
    · subst same
      obtain ⟨read, unwritten⟩ := reader_beside moves whole thread _ statement rest result simulates inside executed other
        different _ holds
      rw [Function.update_self, read, unwritten]
    · exact Function.update_of_ne same _ _

theorem simulates_statement (simulates : Simulates moves fine whole) (inside : fine.inside thread = some (lock, .step statement rest))
    (executed : statement (fine.data lock) (fine.locals thread) = some result) (following : Data → Local → Option (Data × Local))
    (later : Local → Body Data Local) (unfinished : rest result.2 = .step following later) :
    Simulates moves { fine with
      data := update fine.data lock result.1
      locals := update fine.locals thread result.2
      inside := update fine.inside thread (some (lock, rest result.2)) } whole := by
  obtain ⟨entered, started, rfl, member, progress⟩ := simulates.within thread lock statement rest inside
  have mine : ¬ Through { fine with
      data := update fine.data entered.lock result.1
      locals := update fine.locals thread result.2
      inside := update fine.inside thread (some (entered.lock, rest result.2)) } thread :=
    not_through _ thread entered.lock following later (by simp [unfinished])
  refine ⟨simulates.free, ?_, ?_, ?_, ?_, simulates.alone⟩
  · intro other through
    have different : other ≠ thread := by
      rintro rfl
      exact mine through
    simpa [different] using simulates.through other fun place remaining there =>
      through place remaining (by simpa [different] using there)
  · intro place writers
    have before (other : Nat) (writes : (other, Mode.exclusive) ∈ fine.holders place) : Through fine other := by
      have still := writers other writes
      have different : other ≠ thread := by
        rintro rfl
        exact mine still
      exact fun lock remaining there => still lock remaining (by simpa [different] using there)
    have same := simulates.unwritten place before
    by_cases here : place = entered.lock
    · subst here
      cases mode : entered.mode with
      | shared =>
          have reads := progress_reads _ _ _ _ _ _ (entered.reads mode) progress
          simpa [reads.1 _ _ result executed] using same
      | exclusive => exact absurd (writers thread (mode ▸ member)) mine
    · simpa [here] using same
  · intro other place next remaining there
    by_cases same : other = thread
    · subst same
      simp only [Function.update_self, Option.some.injEq, Prod.mk.injEq] at there
      obtain ⟨rfl, body⟩ := there
      refine ⟨entered, started, rfl, member, ?_⟩
      simp only [Function.update_self]
      rw [← body]
      exact .step statement rest _ _ result progress executed
    · simp only [Function.update_of_ne same] at there ⊢
      obtain ⟨own, began, guarded, holds, kept, -, reached⟩ := statement_progress moves whole thread entered.lock statement rest
        result simulates inside executed other same place next remaining there
      exact ⟨own, began, guarded, holds, by rwa [kept]⟩
  · exact fun place other mode holds =>
      statement_held moves whole thread entered.lock statement rest result simulates inside place other mode holds

theorem simulates_finish (simulates : Simulates moves fine whole) (inside : fine.inside thread = some (lock, .step statement rest))
    (executed : statement (fine.data lock) (fine.locals thread) = some result) (finished : rest result.2 = .done) :
    ∃ after, wholeStep moves whole thread = some after ∧ Simulates moves { fine with
      data := update fine.data lock result.1
      locals := update fine.locals thread result.2
      inside := update fine.inside thread (some (lock, rest result.2)) } after := by
  obtain ⟨entered, started, rfl, member, progress⟩ := simulates.within thread lock statement rest inside
  have through : execute entered.body (whole.data entered.lock) (whole.locals thread) = some result := by
    rw [progress_execute _ _ _ _ _ _ progress, execute, executed, Option.bind_some, finished]
    rfl
  refine ⟨{ whole with
    data := update whole.data entered.lock result.1
    locals := update whole.locals thread result.2 }, by simp [wholeStep, started, through], ?_⟩
  refine ⟨simulates.free, ?_, ?_, ?_, ?_, simulates.alone⟩
  · intro other through
    by_cases same : other = thread
    · subst same
      simp
    · simpa [same] using simulates.through other fun place remaining there =>
        through place remaining (by simpa [same] using there)
  · intro place writers
    by_cases here : place = entered.lock
    · subst here
      simp
    · have before (other : Nat) (writes : (other, Mode.exclusive) ∈ fine.holders place) : Through fine other := by
        have still := writers other writes
        have different : other ≠ thread := by
          rintro rfl
          obtain ⟨remaining, there⟩ := simulates.held place other _ writes
          rw [inside] at there
          cases there
          exact here rfl
        exact fun lock remaining there => still lock remaining (by simpa [different] using there)
      simpa [here] using simulates.unwritten place before
  · intro other place next remaining there
    have different : other ≠ thread := by
      rintro rfl
      simp [finished] at there
    simp only [Function.update_of_ne different] at there ⊢
    obtain ⟨own, began, guarded, holds, kept, unwritten, reached⟩ := statement_progress moves whole thread entered.lock statement
      rest result simulates inside executed other different place next remaining there
    exact ⟨own, began, guarded, holds, by rwa [kept, unwritten]⟩
  · exact fun place other mode holds =>
      statement_held moves whole thread entered.lock statement rest result simulates inside place other mode holds

end Statement

theorem simulates_leave (simulates : Simulates moves fine whole) (lock : Lock) (inside : fine.inside thread = some (lock, .done)) :
    Simulates moves { fine with
      holders := update fine.holders lock ((fine.holders lock).filter fun holder => holder.1 ≠ thread)
      inside := update fine.inside thread none } whole where
  free := simulates.free
  through := by
    intro other through
    by_cases same : other = thread
    · subst same
      exact simulates.through other (through_leaving fine other lock inside)
    · exact simulates.through other fun place rest there => through place rest (by simpa [same] using there)
  unwritten := by
    intro place writers
    apply simulates.unwritten
    intro other member
    by_cases same : other = thread
    · subst same
      exact through_leaving fine other lock inside
    · have still := writers other ((held_still _ _ _ _ other .exclusive same).mpr member)
      exact fun guarded rest there => still guarded rest (by simpa [same] using there)
  within := by
    intro other place statement rest there
    have different : other ≠ thread := by
      rintro rfl
      simp at there
    obtain ⟨own, began, guarded, holds, reached⟩ :=
      simulates.within other place statement rest (by simpa [different] using there)
    exact ⟨own, began, guarded, (held_still _ _ _ _ other own.mode different).mpr holds, reached⟩
  held := by
    intro place other mode present
    obtain ⟨rest, there⟩ := simulates.held place other mode (held_before _ _ _ _ _ present)
    have different : other ≠ thread := by
      rintro rfl
      rw [inside] at there
      cases there
      simp at present
    exact ⟨rest, by simpa [different] using there⟩
  alone := fun place other present third there =>
    simulates.alone place other (held_before _ _ _ _ _ present) third (held_before _ _ _ _ _ there)

theorem fine_step_simulated (simulates : Simulates moves fine whole) (stepped : fineStep moves fine thread = some next) :
    Simulates moves next whole ∨ ∃ after, wholeStep moves whole thread = some after ∧ Simulates moves next after := by
  rcases fine_step_cases moves fine next thread stepped with ⟨act, result, outside, move, acted, rfl⟩ |
    ⟨entered, outside, move, admitted, rfl⟩ | ⟨lock, inside, rfl⟩ | ⟨lock, statement, rest, result, inside, executed, rfl⟩
  · refine .inr ⟨_, ?_, simulates_free moves whole thread simulates result outside⟩
    rw [wholeStep, ← simulates.through thread (through_outside fine thread outside), move, ← simulates.free]
    simp only [acted, Option.map_some]
  · exact .inl (simulates_enter moves whole thread simulates entered outside move admitted)
  · exact .inl (simulates_leave moves whole thread simulates lock inside)
  · cases remaining : rest result.2 with
    | done =>
        rw [← remaining]
        exact .inr (simulates_finish moves whole thread lock statement rest result simulates inside executed remaining)
    | step following later =>
        rw [← remaining]
        exact .inl (simulates_statement moves whole thread lock statement rest result simulates inside executed following later
          remaining)

end Step

omit [DecidableEq Lock] in
theorem settled_simulates (whole : Whole Lock Free Data Local) : Simulates moves (settled whole) whole where
  free := rfl
  through := fun _ _ => rfl
  unwritten := fun _ _ => rfl
  within := by simp [settled]
  held := by simp [settled]
  alone := by simp [settled]

-- One run of sections goes along with a run of statements, at most one section
-- for each statement.
theorem fine_run_traced (schedule : List Nat) (fine : Fine Lock Free Data Local) (whole : Whole Lock Free Data Local)
    (simulates : Simulates moves fine whole) :
    ∃ trace : Nat → Whole Lock Free Data Local, trace 0 = whole ∧
      (∀ count, trace (count + 1) = trace count ∨ ∃ thread, wholeStep moves (trace count) thread = some (trace (count + 1))) ∧
      ∀ before after middle, schedule = before ++ after → run (fineStep moves) fine before = some middle →
        Simulates moves middle (trace before.length) := by
  induction schedule generalizing fine whole with
  | nil =>
      refine ⟨fun _ => whole, rfl, fun _ => .inl rfl, ?_⟩
      intro before after middle split reached
      obtain ⟨rfl, -⟩ := List.append_eq_nil_iff.mp split.symm
      cases reached
      exact simulates
  | cons thread rest ih =>
      have begins (trace : Nat → Whole Lock Free Data Local) (starts : trace 0 = whole)
          (later : ∀ next, fineStep moves fine thread = some next → ∀ before after middle, rest = before ++ after →
            run (fineStep moves) next before = some middle → Simulates moves middle (trace (before.length + 1))) :
          ∀ before after middle, thread :: rest = before ++ after → run (fineStep moves) fine before = some middle →
            Simulates moves middle (trace before.length) := by
        intro before after middle split reached
        cases before with
        | nil =>
            cases reached
            exact starts ▸ simulates
        | cons first others =>
            cases split
            obtain ⟨next, stepped, remaining⟩ := run_cons_some _ fine middle thread others reached
            exact later next stepped others after middle rfl remaining
      cases stepped : fineStep moves fine thread with
      | none =>
          refine ⟨fun _ => whole, rfl, fun _ => .inl rfl, begins (fun _ => whole) rfl fun next taken => ?_⟩
          rw [stepped] at taken
          cases taken
      | some next =>
          obtain ⟨after, goes, further⟩ : ∃ after, (after = whole ∨ ∃ thread, wholeStep moves whole thread = some after) ∧
              Simulates moves next after := by
            rcases fine_step_simulated moves next whole thread simulates stepped with same | ⟨after, counted, further⟩
            · exact ⟨whole, .inl rfl, same⟩
            · exact ⟨after, .inr ⟨thread, counted⟩, further⟩
          obtain ⟨trace, starts, steps, moments⟩ := ih next after further
          let longer : Nat → Whole Lock Free Data Local := fun count => count.casesOn whole trace
          refine ⟨longer, rfl, fun count => ?_, begins longer rfl fun other taken => ?_⟩
          · cases count with
            | zero =>
                rw [← starts] at goes
                exact goes
            | succ count => exact steps count
          · rw [stepped] at taken
            cases taken
            exact moments

theorem trace_runs (trace : Nat → Whole Lock Free Data Local)
    (steps : ∀ count, trace (count + 1) = trace count ∨ ∃ thread, wholeStep moves (trace count) thread = some (trace (count + 1)))
    (count more : Nat) : ∃ sections, run (wholeStep moves) (trace count) sections = some (trace (count + more)) := by
  induction more with
  | zero => exact ⟨[], rfl⟩
  | succ more ih =>
      obtain ⟨sections, reached⟩ := ih
      rcases steps (count + more) with same | ⟨thread, stepped⟩
      · exact ⟨sections, by rw [reached, ← same, Nat.add_assoc]⟩
      · refine ⟨sections ++ [thread], ?_⟩
        rw [run_append_some _ _ _ _ _ reached, run_cons, stepped, Option.bind_some, run_nil, Nat.add_assoc]

-- Every interleaving of statements is one of whole sections, in the order of
-- their last statements.
theorem fine_run_simulated (schedule : List Nat) (fine final : Fine Lock Free Data Local) (whole : Whole Lock Free Data Local)
    (simulates : Simulates moves fine whole) (completed : run (fineStep moves) fine schedule = some final) :
    ∃ sections after, run (wholeStep moves) whole sections = some after ∧ Simulates moves final after := by
  obtain ⟨trace, starts, steps, moments⟩ := fine_run_traced moves schedule fine whole simulates
  obtain ⟨sections, reached⟩ := trace_runs moves trace steps 0 schedule.length
  rw [starts, Nat.zero_add] at reached
  exact ⟨sections, _, reached, moments schedule [] final (List.append_nil _).symm completed⟩

-- An invariant of the sections holds of any state of the statements, read as
-- the sections that have been left so far.
theorem fine_invariant (invariant : Whole Lock Free Data Local → Prop)
    (kept : ∀ state thread next, invariant state → wholeStep moves state thread = some next → invariant next)
    (start : Whole Lock Free Data Local) (initial : invariant start) (schedule : List Nat) (final : Fine Lock Free Data Local)
    (completed : run (fineStep moves) (settled start) schedule = some final) :
    ∃ whole, invariant whole ∧ Simulates moves final whole := by
  obtain ⟨sections, after, reached, simulates⟩ :=
    fine_run_simulated moves schedule _ final start (settled_simulates moves start) completed
  refine ⟨after, ?_, simulates⟩
  exact run_invariant (wholeStep moves) (fun _ _ => True) invariant (fun state thread next holds _ => kept state thread next holds)
    sections start after initial (along_true _ _ _) reached

end Semantics

end Sections

end Sylar.Lib
