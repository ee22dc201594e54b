import Mathlib.Data.List.Perm.Subperm
import Sylar.Log.AppenderOrder

set_option autoImplicit false

namespace Sylar.Log.AppenderOrder

open Function (update)
open Lib (Address run)
open Reconfigure (admits dispatch log passes renders)

section Delivery

variable (strftime : String → Nat → String) (manager : Manager)

def ofCall (call : Nat) (output : List Record) : List Record := output.filter fun record => record.call = call

-- One text that a call has an appender take.
structure Due where
  logger : Address
  object : Logger LogFormatter
  call : Nat
  issue : Issue
  formatter : LogFormatter

-- The text is the formatter's, with whatever stands in the buffers of its run.
def Shows (record : Record) (due : Due) : Prop :=
  record.logger = due.logger ∧ record.call = due.call ∧
    ∃ bufs, record.text = due.formatter.format strftime bufs due.object due.issue.level due.issue.event

-- What one appender's stream takes from a logger that goes through a list.
def printed (logger : Address) (object : Logger LogFormatter) (call : Nat) (issue : Issue) (appender : Address)
    (list : List (Address × Option LogFormatter)) : List Due :=
  list.filterMap fun entry =>
    if entry.1 = appender then entry.2.map fun formatter => ⟨logger, object, call, issue, formatter⟩ else none

def route (issue : Issue) : Option (Address × List (Address × Option LogFormatter)) :=
  log manager issue.level (manager.objects.size + 1) issue.logger

-- What Logger::log alone makes an appender's stream take.
def expected (issue : Issue) (call : Nat) (appender : Address) : List Due :=
  match route manager issue with
  | none => []
  | some (logger, list) =>
      match manager.objects.read logger with
      | none => []
      | some object => printed logger object call issue appender list

-- The rest of the way is that of the whole call; in the loop, the appenders
-- before the one it is at have got theirs.
def Stage (issue : Issue) (call : Nat) (held : List Address) (taken : Address → List Record) : Doing → Prop
  | .asking _ logger =>
      route manager issue = log manager issue.level (manager.objects.size + 1 - held.length) logger ∧
        ∀ appender, taken appender = []
  | .waiting _ logger =>
      route manager issue = log manager issue.level (manager.objects.size + 1 - held.length) logger ∧
        admits manager logger issue.level = true ∧ ∀ appender, taken appender = []
  | .inside _ logger remaining =>
      ∃ object before, manager.objects.read logger = some object ∧ object.appenders = before ++ remaining ∧
        route manager issue = some (logger, object.appenders.filterMap (renders manager issue.level)) ∧
        ∀ appender, List.Forall₂ (Shows strftime) (taken appender)
          (printed logger object call issue appender (before.filterMap (renders manager issue.level)))
  | .printing _ logger current remaining =>
      ∃ object before ap, manager.objects.read logger = some object ∧ object.appenders = before ++ current :: remaining ∧
        route manager issue = some (logger, object.appenders.filterMap (renders manager issue.level)) ∧
        manager.appenders.read current = some ap ∧ passes issue.level ap.level = true ∧
        ∀ appender, List.Forall₂ (Shows strftime) (taken appender)
          (printed logger object call issue appender (before.filterMap (renders manager issue.level)))
  | _ => True

structure Delivering (state : Shared) : Prop where
  sound : Sound state
  same : state.manager = manager
  known : ∀ thread, ∀ logger ∈ (state.threads thread).held, logger < manager.objects.size
  active : ∀ thread call, (state.threads thread).doing.call = some call → ∃ issue, state.issued[call]? = some issue ∧
    Stage strftime manager issue call (state.threads thread).held (fun appender => ofCall call (state.outputs appender))
      (state.threads thread).doing
  complete : ∀ call issue, state.issued[call]? = some issue →
    (∀ thread, (state.threads thread).doing.call ≠ some call) →
      ∀ appender, List.Forall₂ (Shows strftime) (ofCall call (state.outputs appender)) (expected manager issue call appender)

theorem start_delivering : Delivering strftime manager (start manager) where
  sound := start_sound manager
  same := rfl
  known := by simp [start]
  active := by simp [start, Doing.call]
  complete := by simp [start]

theorem held_bounded (state : Shared) (delivering : Delivering strftime manager state) (thread : Nat) :
    (state.threads thread).held.length ≤ manager.objects.size := by
  have within : (state.threads thread).held ⊆ List.range manager.objects.size := fun logger member =>
    List.mem_range.mpr (delivering.known thread logger member)
  simpa using ((delivering.sound.threads thread).nodup.subperm within).length_le

theorem output_below (state : Shared) (sound : Sound state) (appender : Address) (record : Record)
    (member : record ∈ state.outputs appender) : record.call < state.issued.length := by
  have shown : record.call ∈ through record.logger (state.outputs appender) :=
    List.mem_map_of_mem (List.mem_filter.mpr ⟨member, by simp⟩)
  exact sound.known record.logger record.call ((sound.outputs appender record.logger).1 shown)

-- One thread goes on with its call, or is through with it.
theorem goes_on (state next : Shared) (delivering : Delivering strftime manager state) (sound : Sound next)
    (thread call : Nat) (issue : Issue) (after : Thread) (calls : (state.threads thread).doing.call = some call)
    (there : state.issued[call]? = some issue) (same : next.manager = manager) (issued : next.issued = state.issued)
    (threads : next.threads = update state.threads thread after)
    (known : ∀ logger ∈ after.held, logger < manager.objects.size)
    (others : ∀ other, other ≠ call → ∀ appender,
      ofCall other (next.outputs appender) = ofCall other (state.outputs appender))
    (mine : after.doing.call = some call ∧
        Stage strftime manager issue call after.held (fun appender => ofCall call (next.outputs appender)) after.doing ∨
      after.doing.call = none ∧
        ∀ appender, List.Forall₂ (Shows strftime) (ofCall call (next.outputs appender)) (expected manager issue call appender)) :
    Delivering strftime manager next := by
  refine ⟨sound, same, ?_, ?_, ?_⟩
  · intro other logger member
    by_cases here : other = thread
    · subst here
      exact known logger (by simpa [threads] using member)
    · exact delivering.known other logger (by simpa [threads, here] using member)
  · intro other theirs asks
    rw [issued]
    by_cases here : other = thread
    · subst here
      simp only [threads, Function.update_self] at asks ⊢
      rcases mine with ⟨still, stage⟩ | ⟨ended, -⟩
      · cases still.symm.trans asks
        exact ⟨issue, there, stage⟩
      · cases ended.symm.trans asks
    · simp only [threads, Function.update_of_ne here] at asks ⊢
      obtain ⟨found, stored, stage⟩ := delivering.active other theirs asks
      have different : theirs ≠ call := by
        rintro rfl
        have one := ((delivering.sound.threads other).current theirs asks).1
        have two := ((delivering.sound.threads thread).current theirs calls).1
        exact here (Option.some.inj (one.symm.trans two))
      refine ⟨found, stored, ?_⟩
      rwa [funext (others theirs different)]
  · intro other found stored ended appender
    rw [issued] at stored
    by_cases here : other = call
    · subst here
      cases there.symm.trans stored
      rcases mine with ⟨still, -⟩ | ⟨-, whole⟩
      · exact absurd (by simp [threads, still]) (ended thread)
      · exact whole appender
    · rw [others other here]
      refine delivering.complete other found stored ?_ appender
      intro reader
      by_cases own : reader = thread
      · subst own
        rw [calls]
        exact fun equal => here (Option.some.inj equal).symm
      · simpa [threads, own] using ended reader

theorem log_refused (level : Level) (depth : Nat) (logger : Address) (refused : admits manager logger level = false) :
    log manager level (depth + 1) logger = none := by
  rw [log, refused]
  rfl

theorem log_admitted (level : Level) (depth : Nat) (logger : Address) (object : Logger LogFormatter)
    (read : manager.objects.read logger = some object) (admitted : admits manager logger level = true) :
    log manager level (depth + 1) logger =
      if object.appenders = [] then object.root.bind fun root => log manager level depth root
      else some (logger, object.appenders.filterMap (renders manager level)) := by
  rw [log, admitted, dispatch, read]
  cases empty : object.appenders with
  | nil => cases fallback : object.root <;> simp [empty, fallback]
  | cons appender rest => simp [empty]

theorem printed_append (logger : Address) (object : Logger LogFormatter) (call : Nat) (issue : Issue) (appender : Address)
    (before after : List (Address × Option LogFormatter)) :
    printed logger object call issue appender (before ++ after) =
      printed logger object call issue appender before ++ printed logger object call issue appender after := by
  rw [printed, List.filterMap_append]
  rfl

theorem shows_nothing (taken : List Record) (none : taken = []) : List.Forall₂ (Shows strftime) taken [] := none ▸ .nil

section Calls

variable (state next : Shared) (delivering : Delivering strftime manager state) (sound : Sound next) (thread call : Nat)

include delivering sound

theorem ask_delivering (logger : Address) (doing : (state.threads thread).doing = .asking call logger)
    (stepped : ask state thread call logger = some next) : Delivering strftime manager next := by
  have calls : (state.threads thread).doing.call = some call := by rw [doing, Doing.call]
  obtain ⟨issue, there, stage⟩ := delivering.active thread call calls
  rw [doing] at stage
  obtain ⟨way, silent⟩ := stage
  obtain ⟨found, issued, stepped⟩ := Option.bind_eq_some_iff.mp stepped
  obtain ⟨object, read, stepped⟩ := Option.bind_eq_some_iff.mp stepped
  cases there.symm.trans issued
  rw [delivering.same] at read
  have admission : admits manager logger issue.level = passes issue.level object.level := by rw [admits, read]
  obtain ⟨depth, remaining⟩ : ∃ depth, manager.objects.size + 1 - (state.threads thread).held.length = depth + 1 :=
    ⟨manager.objects.size - (state.threads thread).held.length, by
      have bounded := held_bounded strftime manager state delivering thread
      omega⟩
  cases stepped
  refine goes_on strftime manager state _ delivering sound thread call issue
    ⟨(state.threads thread).held, _⟩ calls there delivering.same rfl rfl (delivering.known thread) (fun _ _ _ => rfl) ?_
  cases level : passes issue.level object.level with
  | true => exact .inl ⟨by simp [Doing.call], way, admission.trans level, silent⟩
  | false =>
      refine .inr ⟨by simp [Doing.call], fun appender => ?_⟩
      rw [expected, way, remaining, log_refused manager issue.level depth logger (admission.trans level)]
      exact shows_nothing strftime _ (silent appender)

theorem enter_delivering (logger : Address) (doing : (state.threads thread).doing = .waiting call logger)
    (stepped : enter state thread call logger = some next) : Delivering strftime manager next := by
  have calls : (state.threads thread).doing.call = some call := by rw [doing, Doing.call]
  obtain ⟨issue, there, stage⟩ := delivering.active thread call calls
  rw [doing] at stage
  obtain ⟨way, admitted, silent⟩ := stage
  obtain ⟨object, read, stepped⟩ := Option.bind_eq_some_iff.mp stepped
  rw [delivering.same] at read
  have bounded := held_bounded strftime manager state delivering thread
  obtain ⟨depth, remaining⟩ : ∃ depth, manager.objects.size + 1 - (state.threads thread).held.length = depth + 1 :=
    ⟨manager.objects.size - (state.threads thread).held.length, by omega⟩
  rw [remaining, log_admitted manager issue.level depth logger object read admitted] at way
  split at stepped
  · cases stepped
  · cases stepped
    refine goes_on strftime manager state _ delivering sound thread call issue
      ⟨logger :: (state.threads thread).held, _⟩ calls there delivering.same rfl rfl ?_ (fun _ _ _ => rfl) ?_
    · intro other member
      rcases List.mem_cons.mp member with rfl | held
      · exact Lib.Heap.read_bound _ _ _ read
      · exact delivering.known thread other held
    · cases list : object.appenders with
      | nil =>
          rw [if_pos list] at way
          cases fallback : object.root with
          | none =>
              refine .inr ⟨rfl, fun appender => ?_⟩
              rw [expected, way, fallback]
              exact shows_nothing strftime _ (silent appender)
          | some root =>
              refine .inl ⟨rfl, ?_, silent⟩
              have shorter : manager.objects.size + 1 - ((state.threads thread).held.length + 1) = depth := by omega
              rw [way, fallback, List.length_cons, shorter]
              rfl
      | cons appender rest =>
          rw [if_neg (by simp [list])] at way
          exact .inl ⟨rfl, object, [], read, list, way, fun appender => shows_nothing strftime _ (silent appender)⟩

theorem test_delivering (logger current : Address) (remaining : List Address)
    (doing : (state.threads thread).doing = .inside call logger (current :: remaining))
    (stepped : test state thread call logger current remaining = some next) : Delivering strftime manager next := by
  have calls : (state.threads thread).doing.call = some call := by rw [doing, Doing.call]
  obtain ⟨issue, there, stage⟩ := delivering.active thread call calls
  rw [doing] at stage
  obtain ⟨object, before, read, list, way, taken⟩ := stage
  obtain ⟨found, issued, stepped⟩ := Option.bind_eq_some_iff.mp stepped
  obtain ⟨ap, here, stepped⟩ := Option.bind_eq_some_iff.mp stepped
  cases there.symm.trans issued
  rw [delivering.same] at here
  cases stepped
  refine goes_on strftime manager state _ delivering sound thread call issue
    ⟨(state.threads thread).held, _⟩ calls there delivering.same rfl rfl (delivering.known thread) (fun _ _ _ => rfl) ?_
  cases level : passes issue.level ap.level with
  | true => exact .inl ⟨by simp [Doing.call], object, before, ap, read, list, way, here, level, taken⟩
  | false =>
      have skipped : renders manager issue.level current = none := by simp [renders, here, level]
      refine .inl ⟨by simp [Doing.call], object, before ++ [current], read, by simp [list], way, fun appender => ?_⟩
      rw [List.filterMap_append, List.filterMap_cons, skipped, List.filterMap_nil, List.append_nil]
      exact taken appender

omit delivering sound in
theorem print_some (issue : Issue) (object : Logger LogFormatter) (ap : LogAppender LogFormatter) (logger current : Address)
    (remaining : List Address) (bufs : Nat → String) (there : state.issued[call]? = some issue)
    (read : state.manager.objects.read logger = some object) (here : state.manager.appenders.read current = some ap)
    (stepped : print strftime state thread call logger current remaining true bufs = some next) :
    ∃ formatter, ap.formatter = some formatter ∧ next = Shared.go { state with
      outputs := update state.outputs current
        (state.outputs current ++ [⟨logger, call, formatter.format strftime bufs object issue.level issue.event⟩]) } thread
          (.inside call logger remaining) := by
  simp only [print, there, read, here, Option.bind_eq_bind, Option.bind_some, Option.bind_eq_some_iff] at stepped
  obtain ⟨formatter, formats, rest⟩ := stepped
  cases rest
  exact ⟨formatter, formats, rfl⟩

theorem print_delivering (logger current : Address) (remaining : List Address) (bufs : Nat → String)
    (doing : (state.threads thread).doing = .printing call logger current remaining)
    (stepped : print strftime state thread call logger current remaining true bufs = some next) :
    Delivering strftime manager next := by
  have calls : (state.threads thread).doing.call = some call := by rw [doing, Doing.call]
  obtain ⟨issue, there, stage⟩ := delivering.active thread call calls
  rw [doing] at stage
  obtain ⟨object, before, ap, read, list, way, here, level, taken⟩ := stage
  obtain ⟨formatter, formats, rfl⟩ := print_some strftime state next thread call issue object ap logger current remaining bufs
    there (delivering.same ▸ read) (delivering.same ▸ here) stepped
  have shown : renders manager issue.level current = some (current, some formatter) := by simp [renders, here, level, formats]
  refine goes_on strftime manager state _ delivering sound thread call issue
    ⟨(state.threads thread).held, .inside call logger remaining⟩ calls there delivering.same rfl rfl
    (delivering.known thread) ?_ ?_
  · intro different apart appender
    have elsewhere : call ≠ different := fun equal => apart equal.symm
    by_cases same : appender = current
    · subst same
      simp [Shared.go, ofCall, elsewhere]
    · simp [Shared.go, same]
  · refine .inl ⟨rfl, object, before ++ [current], read, by simp [list], way, fun appender => ?_⟩
    rw [List.filterMap_append, List.filterMap_cons, shown, List.filterMap_nil, printed_append]
    by_cases same : appender = current
    · subst same
      have fresh : List.Forall₂ (Shows strftime) [⟨logger, call, formatter.format strftime bufs object issue.level issue.event⟩]
          (printed logger object call issue appender [(appender, some formatter)]) := by
        simpa [printed, Shows] using ⟨bufs, rfl⟩
      simpa [Shared.go, ofCall] using List.rel_append (taken appender) fresh
    · have elsewhere : current ≠ appender := fun equal => same equal.symm
      simpa [Shared.go, same, elsewhere, printed] using taken appender

-- The loop over the appenders is through, and so is the call.
theorem finish_delivering (logger : Address) (doing : (state.threads thread).doing = .inside call logger [])
    (goes : next = state.go thread .leaving) : Delivering strftime manager next := by
  have calls : (state.threads thread).doing.call = some call := by rw [doing, Doing.call]
  obtain ⟨issue, there, stage⟩ := delivering.active thread call calls
  rw [doing] at stage
  obtain ⟨object, before, read, list, way, taken⟩ := stage
  subst goes
  refine goes_on strftime manager state _ delivering sound thread call issue ⟨(state.threads thread).held, .leaving⟩
    calls there delivering.same rfl rfl (delivering.known thread) (fun _ _ _ => rfl) (.inr ⟨rfl, fun appender => ?_⟩)
  rw [expected, way]
  simp only [read]
  rw [list, List.append_nil]
  exact taken appender

theorem quiet_delivering (after : Thread) (resting : (state.threads thread).doing.call = none) (rests : after.doing.call = none)
    (same : next.manager = manager) (issued : next.issued = state.issued) (outputs : next.outputs = state.outputs)
    (threads : next.threads = update state.threads thread after)
    (known : ∀ logger ∈ after.held, logger ∈ (state.threads thread).held) : Delivering strftime manager next := by
  refine ⟨sound, same, ?_, ?_, ?_⟩
  · intro other logger member
    by_cases here : other = thread
    · subst here
      exact delivering.known other logger (known logger (by simpa [threads] using member))
    · exact delivering.known other logger (by simpa [threads, here] using member)
  · intro other theirs asks
    rw [issued, outputs]
    by_cases here : other = thread
    · subst here
      simp only [threads, Function.update_self, rests] at asks
      cases asks
    · simp only [threads, Function.update_of_ne here] at asks ⊢
      exact delivering.active other theirs asks
  · intro other found stored ended
    rw [issued] at stored
    rw [outputs]
    refine delivering.complete other found stored fun reader => ?_
    by_cases here : reader = thread
    · subst here
      simp [resting]
    · simpa [threads, here] using ended reader

theorem leave_delivering (doing : (state.threads thread).doing = .leaving) (leaves : next = leave state thread) :
    Delivering strftime manager next := by
  have resting : (state.threads thread).doing.call = none := by rw [doing, Doing.call]
  subst leaves
  cases holds : (state.threads thread).held with
  | nil =>
      rw [leave, holds] at sound ⊢
      exact quiet_delivering strftime manager state _ delivering sound thread ⟨(state.threads thread).held, .idle⟩
        resting rfl delivering.same rfl rfl rfl fun _ member => member
  | cons logger held =>
      rw [leave, holds] at sound ⊢
      exact quiet_delivering strftime manager state _ delivering sound thread ⟨held, .leaving⟩ resting rfl
        delivering.same rfl rfl rfl fun _ member => holds ▸ List.mem_cons_of_mem _ member

theorem issue_delivering (logger : Address) (level : Level) (event : LogEvent) (idle : (state.threads thread).doing = .idle)
    (issues : next = { state with
      issued := state.issued ++ [⟨thread, logger, level, event⟩]
      threads := update state.threads thread ⟨[], .asking state.issued.length logger⟩ }) :
    Delivering strftime manager next := by
  have silent (appender : Address) : ofCall state.issued.length (state.outputs appender) = [] := by
    refine List.filter_eq_nil_iff.mpr fun record member => ?_
    have below := output_below state delivering.sound appender record member
    simp only [decide_eq_true_eq]
    omega
  have old (earlier : Nat) (issue : Issue) (stored : state.issued[earlier]? = some issue) :
      (state.issued ++ [(⟨thread, logger, level, event⟩ : Issue)])[earlier]? = some issue := by
    rw [List.getElem?_append_left (List.getElem?_eq_some_iff.mp stored).1]
    exact stored
  subst issues
  refine ⟨sound, delivering.same, ?_, ?_, ?_⟩
  · intro other place member
    by_cases here : other = thread
    · subst here
      simp at member
    · exact delivering.known other place (by simpa [here] using member)
  · intro other theirs asks
    by_cases here : other = thread
    · subst here
      simp only [Function.update_self, Doing.call, Option.some.injEq] at asks ⊢
      subst asks
      exact ⟨⟨other, logger, level, event⟩, by simp, rfl, silent⟩
    · simp only [Function.update_of_ne here] at asks ⊢
      obtain ⟨issue, stored, stage⟩ := delivering.active other theirs asks
      exact ⟨issue, old theirs issue stored, stage⟩
  · intro other issue stored ended appender
    by_cases fresh : other = state.issued.length
    · subst fresh
      exact absurd (by simp [Doing.call]) (ended thread)
    · have below : other < state.issued.length := by
        have bound := (List.getElem?_eq_some_iff.mp stored).1
        simp only [List.length_append, List.length_singleton] at bound
        omega
      refine delivering.complete other issue ?_ ?_ appender
      · rwa [List.getElem?_append_left below] at stored
      · intro reader
        by_cases here : reader = thread
        · subst here
          simp [idle, Doing.call]
        · simpa [here] using ended reader

end Calls

-- Nobody changes loggers or appenders, and the streams take what they get.
def Plain : Action → Prop
  | .log _ _ _ _ => True
  | .advance _ took _ => took = true
  | .operate _ => False

theorem step_delivering (state next : Shared) (delivering : Delivering strftime manager state) (action : Action)
    (plain : Plain action) (stepped : step strftime state action = some next) : Delivering strftime manager next := by
  have sound := step_sound strftime state next delivering.sound action stepped
  cases action with
  | operate call => exact plain.elim
  | log thread logger level event =>
      rw [step] at stepped
      split at stepped
      · rename_i idle
        cases stepped
        exact issue_delivering strftime manager state _ delivering sound thread logger level event idle rfl
      · cases stepped
  | advance thread took bufs =>
      cases plain
      rw [step, advance] at stepped
      split at stepped
      · cases stepped
      · rename_i call logger doing
        exact ask_delivering strftime manager state next delivering sound thread call logger doing stepped
      · rename_i call logger doing
        exact enter_delivering strftime manager state next delivering sound thread call logger doing stepped
      · rename_i call logger doing
        cases stepped
        exact finish_delivering strftime manager state _ delivering sound thread call logger doing rfl
      · rename_i call logger current remaining doing
        exact test_delivering strftime manager state next delivering sound thread call logger current remaining doing stepped
      · rename_i call logger current remaining doing
        exact print_delivering strftime manager state next delivering sound thread call logger current remaining bufs doing stepped
      · rename_i doing
        cases stepped
        exact leave_delivering strftime manager state _ delivering sound thread doing rfl

theorem run_delivering (schedule : List Action) (state final : Shared) (delivering : Delivering strftime manager state)
    (plain : ∀ action ∈ schedule, Plain action) (completed : run (step strftime) state schedule = some final) :
    Delivering strftime manager final := by
  induction schedule generalizing state with
  | nil =>
      cases completed
      exact delivering
  | cons action rest ih =>
      obtain ⟨middle, stepped, remaining⟩ := Lib.run_cons_some _ state final action rest completed
      refine ih middle ?_ (fun other member => plain other (List.mem_cons_of_mem _ member)) remaining
      exact step_delivering strftime manager state middle delivering action (plain action List.mem_cons_self) stepped

-- Whatever the threads' turns, each call that is through has had each appender
-- take what Logger::log alone gives it, in the order of the list and no more.
theorem delivered_as_alone (schedule : List Action) (plain : ∀ action ∈ schedule, Plain action) (final : Shared)
    (completed : run (step strftime) (start manager) schedule = some final) (call : Nat) (issue : Issue)
    (issued : final.issued[call]? = some issue) (through : ∀ thread, (final.threads thread).doing.call ≠ some call)
    (appender : Address) :
    List.Forall₂ (Shows strftime) (ofCall call (final.outputs appender)) (expected manager issue call appender) :=
  (run_delivering strftime manager schedule (start manager) final (start_delivering strftime manager) plain completed).complete
    call issue issued through appender

end Delivery

theorem delivered_as_alone_two : ∃ final, run (step noon) (start rootAndSystem) twoCalls = some final ∧
    (ofCall 0 (final.outputs 1)).length = 1 ∧
    List.Forall₂ (Shows noon) (ofCall 0 (final.outputs 1)) (expected rootAndSystem ⟨0, 1, .info, started 1⟩ 0 1) := by
  have ran : ∃ final, run (step noon) (start rootAndSystem) twoCalls = some final ∧
      (ofCall 0 (final.outputs 1)).length = 1 ∧ final.issued[0]? = some ⟨0, 1, .info, started 1⟩ ∧
      ∀ thread, (final.threads thread).doing.call = none := by
    refine ⟨_, rfl, rfl, rfl, fun thread => ?_⟩
    match thread with
    | 0 => rfl
    | 1 => rfl
    | thread + 2 => rfl
  obtain ⟨final, completed, one, issued, idle⟩ := ran
  have plain : ∀ action ∈ twoCalls, Plain action := by simp [twoCalls, Plain]
  refine ⟨final, completed, one, ?_⟩
  exact delivered_as_alone noon rootAndSystem twoCalls plain final completed 0 _ issued (by simp [idle]) 1

end Sylar.Log.AppenderOrder
