import Mathlib.Data.List.Sort
import Sylar.Config.ConfigVar
import Sylar.Lib.Sections

set_option autoImplicit false

namespace Sylar.Config.ConfigVarStatements

open Lib (Body LockedSection Move View Whole)
open Lib.Sections (Observation execute look look_execute look_reads observe observe_execute observe_reads shows_last_append
  shows_last_look shows_last_observe silent_lift)
open Yaml (Exception)

-- How T's operations go through memory. Each may take any number of steps;
-- only what they come to is known.
structure Memory (Val : Type) [BEq Val] (toStr : Val → Except Exception String) where
  Scratch : Type
  empty : Scratch
  compare : ∀ new : Val, Observation Val Scratch fun val => val == new
  copy : Observation Val Scratch fun val : Val => val
  print : Observation Val Scratch toStr
  assign : Val → Body Val Scratch
  assigned : ∀ new val scratch, ∃ after, execute (assign new) val scratch = some (new, after)

inductive Call (Val : Type) where
  | setValue (new : Val)
  | fromString (text : String)
  | toString
  | addListener
  | delListenner (key : Nat)
  | clearListener

inductive Phase (Val : Type) where
  | idle
  | writing (new : Val)

-- What a call comes to. A change goes to the listeners with the old value; where
-- one of them throws it is refused, and those behind it are not called.
inductive Event (Val : Type) where
  | shown (text : String)
  | equal (new : Val)
  | notified (new : Val) (told : List (Nat × Val))
  | refused (new : Val) (told : List (Nat × Val))
  | wrote (new : Val)
  | added (key : Nat)
  | removed (key : Nat)
  | cleared

-- toString catches what does not convert, and answers the empty text.
def caught : Except Exception String → String
  | .ok text => text
  | .error _ => ""

-- Each event comes with the place of the state it is about among all states
-- that the variable has had. verdicts says which of the thread's calls of
-- listeners throw, callbacks how many there have been.
structure Caller (Val Scratch : Type) where
  phase : Phase Val
  calls : List (Call Val)
  scratch : Scratch
  same : Bool
  size : Nat
  listener : Nat
  told : List (Nat × Val)
  verdicts : Nat → Bool
  callbacks : Nat
  threw : Bool
  found : Bool
  events : List (Nat × Event Val)

-- m_val, the keys of m_cbs and the static counter, which no other variable of
-- the type uses here; and the values and keys there have been, the present ones last.
structure Guarded (Val : Type) where
  val : Val
  cbs : List Nat
  funId : Nat
  history : List (Val × List Nat)

def insertKey (key : Nat) (cbs : List Nat) : List Nat := if key ∈ cbs then cbs else cbs.orderedInsert (· ≤ ·) key

section Program

variable {Val : Type} [BEq Val] {toStr : Val → Except Exception String} (memory : Memory Val toStr)
variable (fromStr : String → Except Exception Val)

abbrev Thread := Caller Val memory.Scratch

abbrev Code := Body (Guarded Val) (Thread memory)

def value : View Val (Guarded Val) where
  get := Guarded.val
  put := fun val data => { data with val := val }
  get_put := fun _ _ => rfl
  put_put := fun _ _ _ => rfl
  put_get := fun _ => rfl

def scratch {Scratch : Type} : View Scratch (Caller Val Scratch) where
  get := Caller.scratch
  put := fun scratch own => { own with scratch := scratch }
  get_put := fun _ _ => rfl
  put_put := fun _ _ _ => rfl
  put_get := fun _ => rfl

def Guarded.place (data : Guarded Val) : Nat := data.history.length - 1

def Guarded.recorded (data : Guarded Val) : Guarded Val := { data with history := data.history ++ [(data.val, data.cbs)] }

def Caller.note {Scratch : Type} (own : Caller Val Scratch) (place : Nat) (event : Event Val) : Caller Val Scratch :=
  { own with events := own.events ++ [(place, event)] }

-- The listener has been called. An exception ends setValue and leaves the read
-- section; the caller goes on behind it, as fromString does.
def called (new : Val) (rest : List (Call Val)) (data : Guarded Val) (own : Thread memory) : Thread memory :=
  let after := { own with told := own.told ++ [(own.listener, memory.copy.result own.scratch)], callbacks := own.callbacks + 1 }
  if own.verdicts own.callbacks then { after with threw := true, calls := rest }.note data.place (.refused new after.told)
  else { after with threw := false }

-- The rest of the read section: the callbacks in turn, then it is left.
def notify (new : Val) (rest : List (Call Val)) : Nat → Code memory
  | 0 => look (fun data own => { own with phase := .writing new, calls := rest }.note data.place (.notified new own.told))
      fun _ => .done
  | remaining + 1 =>
      .step (fun data own => data.cbs[own.told.length]?.map fun listener => (data, { own with listener := listener })) fun _ =>
        observe value scratch memory.copy
          (look (called memory new rest) fun own => if own.threw then .done else notify new rest remaining)

def compareThenNotify (new : Val) (rest : List (Call Val)) : Code memory :=
  observe value scratch (memory.compare new)
    (look (fun data own =>
        if (memory.compare new).result own.scratch then { own with same := true, calls := rest }.note data.place (.equal new)
        else { own with same := false, size := data.cbs.length, told := [] })
      fun own => if own.same then .done else notify memory new rest own.size)

-- The last statement of a write section also puts the new state into the history.
def leave (phase : Phase Val) (rest : List (Call Val)) (event : Guarded Val → Event Val) : Code memory :=
  .step (fun data own => some (data.recorded,
    { own with phase := phase, calls := rest }.note data.history.length (event data))) fun _ => .done

def write (new : Val) (rest : List (Call Val)) : Code memory :=
  ((memory.assign new).lift value scratch).append (leave memory .idle rest fun _ => .wrote new)

def print (rest : List (Call Val)) : Code memory :=
  observe value scratch memory.print
    (look (fun data own =>
      { own with calls := rest }.note data.place (.shown (caught (memory.print.result own.scratch)))) fun _ => .done)

def addListener (rest : List (Call Val)) : Code memory :=
  .step (fun data own => some ({ data with funId := (data.funId + 1) % UInt64.size }, own)) fun _ =>
    .step (fun data own => some ({ data with cbs := insertKey data.funId data.cbs }, own)) fun _ =>
      leave memory .idle rest fun data => .added data.funId

def delListenner (key : Nat) (rest : List (Call Val)) : Code memory :=
  .step (fun data own => some (data, { own with found := data.cbs.contains key })) fun _ =>
    .step (fun data own => some (if own.found then { data with cbs := data.cbs.erase key } else data, own)) fun _ =>
      leave memory .idle rest fun _ => .removed key

def clearListener (rest : List (Call Val)) : Code memory :=
  .step (fun data own => some ({ data with cbs := [] }, own)) fun _ => leave memory .idle rest fun _ => .cleared

theorem notify_reads (new : Val) (rest : List (Call Val)) (remaining : Nat) : (notify memory new rest remaining).Reads := by
  induction remaining with
  | zero => exact look_reads _ _ fun _ => trivial
  | succ remaining ih =>
      refine ⟨?_, fun _ => observe_reads value scratch _ _ (look_reads _ _ fun own => ?_)⟩
      · intro data own result executed
        obtain ⟨listener, -, rfl⟩ := Option.map_eq_some_iff.mp executed
        rfl
      · split
        · trivial
        · exact ih

theorem compare_then_notify_reads (new : Val) (rest : List (Call Val)) : (compareThenNotify memory new rest).Reads := by
  refine observe_reads value scratch _ _ (look_reads _ _ fun own => ?_)
  split
  · trivial
  · exact notify_reads memory new rest _

theorem print_reads (rest : List (Call Val)) : (print memory rest).Reads :=
  observe_reads value scratch _ _ (look_reads _ _ fun _ => trivial)

-- It converts before it takes a lock; an exception ends it there.
def fromString (text : String) (rest : List (Call Val)) : List (Call Val) :=
  match fromStr text with
  | .error _ => rest
  | .ok new => .setValue new :: rest

def moves (own : Thread memory) : Option (Move Unit Unit (Guarded Val) (Thread memory)) :=
  match own.phase with
  | .idle =>
      match own.calls with
      | [] => none
      | .setValue new :: rest =>
          some (.enter ⟨(), .shared, compareThenNotify memory new rest, fun _ => compare_then_notify_reads memory new rest⟩)
      | .fromString text :: rest => some (.free fun _ => some ((), { own with calls := fromString fromStr text rest }))
      | .toString :: rest => some (.enter ⟨(), .shared, print memory rest, fun _ => print_reads memory rest⟩)
      | .addListener :: rest => some (.enter ⟨(), .exclusive, addListener memory rest, by simp⟩)
      | .delListenner key :: rest => some (.enter ⟨(), .exclusive, delListenner memory key rest, by simp⟩)
      | .clearListener :: rest => some (.enter ⟨(), .exclusive, clearListener memory rest, by simp⟩)
  | .writing new => some (.enter ⟨(), .exclusive, write memory new own.calls, by simp⟩)

theorem notify_shows_last (new : Val) (rest : List (Call Val)) (remaining : Nat) :
    (notify memory new rest remaining).ShowsLast (Caller.events : Thread memory → _) := by
  induction remaining with
  | zero => exact shows_last_look _ _ _ (fun _ _ => .inl rfl) fun _ => trivial
  | succ remaining ih =>
      refine ⟨?_, fun _ => shows_last_observe value scratch _ (fun _ _ => rfl) _ _ (shows_last_look _ _ _ ?_ fun own => ?_)⟩
      · intro data own result executed
        obtain ⟨listener, -, rfl⟩ := Option.map_eq_some_iff.mp executed
        exact .inr rfl
      · intro data own
        rw [called]
        split
        · exact .inl rfl
        · exact .inr rfl
      · split
        · trivial
        · exact ih

theorem compare_then_notify_shows_last (new : Val) (rest : List (Call Val)) :
    (compareThenNotify memory new rest).ShowsLast (Caller.events : Thread memory → _) := by
  refine shows_last_observe value scratch _ (fun _ _ => rfl) _ _ (shows_last_look _ _ _ ?_ fun own => ?_)
  · intro data own
    split
    · exact .inl rfl
    · exact .inr rfl
  · split
    · trivial
    · exact notify_shows_last memory new rest _

theorem leave_shows_last (phase : Phase Val) (rest : List (Call Val)) (event : Guarded Val → Event Val) :
    (leave memory phase rest event).ShowsLast (Caller.events : Thread memory → _) :=
  ⟨fun _ _ _ _ => .inl rfl, fun _ => trivial⟩

-- What a call comes to is noted in the last statement of its section.
theorem moves_show_last (own : Thread memory) (entered : LockedSection Unit (Guarded Val) (Thread memory))
    (move : moves memory fromStr own = some (.enter entered)) : entered.body.ShowsLast (Caller.events : Thread memory → _) := by
  rw [moves] at move
  split at move
  · split at move
    · cases move
    · cases move
      exact compare_then_notify_shows_last memory _ _
    · cases move
    · cases move
      exact shows_last_observe value scratch _ (fun _ _ => rfl) _ _
        (shows_last_look _ _ _ (fun _ _ => .inl rfl) fun _ => trivial)
    · cases move
      refine ⟨?_, fun _ => ⟨?_, fun _ => leave_shows_last memory _ _ _⟩⟩ <;>
        · rintro data own result ⟨⟩
          exact .inr rfl
    · cases move
      refine ⟨?_, fun _ => ⟨?_, fun _ => leave_shows_last memory _ _ _⟩⟩ <;>
        · rintro data own result ⟨⟩
          exact .inr rfl
    · cases move
      refine ⟨?_, fun _ => leave_shows_last memory _ _ _⟩
      rintro data own result ⟨⟩
      exact .inr rfl
  · cases move
    exact shows_last_append _ _ _ (silent_lift value scratch _ (fun _ _ => rfl) _) (leave_shows_last memory _ _ _)

abbrev Calling := Whole Unit Unit (Guarded Val) (Thread memory)

-- The variable as the threads find it: its value, its listeners and the counter.
structure Initial (Val : Type) where
  val : Val
  cbs : List Nat
  funId : Nat
  distinct : cbs.Nodup

def start (initial : Initial Val) (verdicts : Nat → Nat → Bool) (programs : Nat → List (Call Val)) : Calling memory where
  free := ()
  data := fun _ => ⟨initial.val, initial.cbs, initial.funId, [(initial.val, initial.cbs)]⟩
  locals := fun thread => ⟨.idle, programs thread, memory.empty, false, 0, 0, [], verdicts thread, 0, false, false, []⟩

-- Where a section leaves its thread.
structure Goes (own after : Thread memory) (phase : Phase Val) (calls : List (Call Val)) (noted : List (Nat × Event Val)) :
    Prop where
  phase : after.phase = phase
  calls : after.calls = calls
  verdicts : after.verdicts = own.verdicts
  events : after.events = own.events ++ noted

theorem goes_from (own first after : Thread memory) (phase : Phase Val) (calls : List (Call Val)) (noted : List (Nat × Event Val))
    (goes : Goes memory first after phase calls noted) (verdicts : first.verdicts = own.verdicts)
    (events : first.events = own.events) : Goes memory own after phase calls noted :=
  ⟨goes.phase, goes.calls, goes.verdicts.trans verdicts, by rw [goes.events, events]⟩

-- The listeners that are called, and whether the last of them throws.
def tell (verdicts : Nat → Bool) (old : Val) : Nat → List Nat → List (Nat × Val) × Bool
  | _, [] => ([], false)
  | callbacks, listener :: rest =>
      if verdicts callbacks then ([(listener, old)], true)
      else ((listener, old) :: (tell verdicts old (callbacks + 1) rest).1, (tell verdicts old (callbacks + 1) rest).2)

omit [BEq Val] in
theorem tell_initial (verdicts : Nat → Bool) (old : Val) (callbacks : Nat) (cbs : List Nat) :
    (tell verdicts old callbacks cbs).1 <+: cbs.map fun listener => (listener, old) := by
  induction cbs generalizing callbacks with
  | nil => exact List.nil_prefix
  | cons listener rest ih =>
      rw [tell]
      split
      · simp
      · simpa using ih (callbacks + 1)

omit [BEq Val] in
theorem tell_all (verdicts : Nat → Bool) (old : Val) (callbacks : Nat) (cbs : List Nat)
    (quiet : (tell verdicts old callbacks cbs).2 = false) :
    (tell verdicts old callbacks cbs).1 = cbs.map fun listener => (listener, old) := by
  induction cbs generalizing callbacks with
  | nil => rfl
  | cons listener rest ih =>
      rw [tell] at quiet ⊢
      split
      · rename_i throws
        simp [throws] at quiet
      · rename_i returns
        simp only [returns, if_false, Bool.false_eq_true] at quiet
        simp [ih (callbacks + 1) quiet]

omit [BEq Val] in
theorem tell_throws (verdicts : Nat → Bool) (old : Val) (callbacks : Nat) (cbs : List Nat)
    (threw : (tell verdicts old callbacks cbs).2 = true) :
    (tell verdicts old callbacks cbs).1 ≠ [] ∧ ∃ count, verdicts count = true := by
  induction cbs generalizing callbacks with
  | nil => cases threw
  | cons listener rest ih =>
      rw [tell] at threw ⊢
      split
      · rename_i throws
        exact ⟨by simp, callbacks, throws⟩
      · rename_i returns
        simp only [returns, if_false, Bool.false_eq_true] at threw
        exact ⟨by simp, (ih (callbacks + 1) threw).2⟩

-- The listeners before have been called, the later ones are still to be.
theorem notify_execute (new : Val) (rest : List (Call Val)) (before later : List Nat) (data : Guarded Val) (own : Thread memory)
    (cbs : data.cbs = before ++ later) (told : own.told = before.map fun listener => (listener, data.val)) :
    ∃ after, execute (notify memory new rest later.length) data own = some (data, after) ∧
      if (tell own.verdicts data.val own.callbacks later).2 then
        Goes memory own after own.phase rest
          [(data.place, .refused new (own.told ++ (tell own.verdicts data.val own.callbacks later).1))]
      else Goes memory own after (.writing new) rest
        [(data.place, .notified new (own.told ++ (tell own.verdicts data.val own.callbacks later).1))] := by
  induction later generalizing before own with
  | nil => exact ⟨_, rfl, rfl, rfl, rfl, by rw [tell, List.append_nil]; rfl⟩
  | cons listener later ih =>
      have here : data.cbs[own.told.length]? = some listener := by simp [told, cbs]
      obtain ⟨copied, result, executed⟩ := observe_execute value scratch memory.copy
        (look (called memory new rest) fun own => if own.threw then .done else notify memory new rest later.length)
        data { own with listener := listener }
      have entered : execute (notify memory new rest (listener :: later).length) data own =
          execute (look (called memory new rest) fun own => if own.threw then .done else notify memory new rest later.length)
            data { own with listener := listener, scratch := copied } := by
        rw [List.length_cons, notify, execute, here, Option.map_some, Option.bind_some]
        exact executed
      have copy : memory.copy.result copied = data.val := result
      rw [entered, look_execute, tell]
      cases throws : own.verdicts own.callbacks with
      | true =>
          refine ⟨called memory new rest data { own with listener := listener, scratch := copied }, ?_, ?_⟩
          · simp [called, throws, Caller.note, execute]
          · simp only [if_true, called, throws, copy]
            exact ⟨rfl, rfl, rfl, rfl⟩
      | false =>
          obtain ⟨after, remaining, goes⟩ := ih (before ++ [listener])
            (called memory new rest data { own with listener := listener, scratch := copied })
            (by simp [cbs]) (by simp [called, throws, told, copy])
          refine ⟨after, ?_, ?_⟩
          · rw [← remaining]
            simp [called, throws]
          · simp only [called, throws, copy, Bool.false_eq_true, if_false, List.append_assoc, List.singleton_append] at goes ⊢
            split at goes
            · rename_i threw
              rw [if_pos threw]
              exact goes_from memory own _ after _ _ _ goes rfl rfl
            · rename_i quiet
              rw [if_neg quiet]
              exact goes_from memory own _ after _ _ _ goes rfl rfl

theorem compare_then_notify_execute (new : Val) (rest : List (Call Val)) (data : Guarded Val) (own : Thread memory) :
    ∃ after, execute (compareThenNotify memory new rest) data own = some (data, after) ∧
      if data.val == new then Goes memory own after own.phase rest [(data.place, .equal new)]
      else if (tell own.verdicts data.val own.callbacks data.cbs).2 then
        Goes memory own after own.phase rest
          [(data.place, .refused new (tell own.verdicts data.val own.callbacks data.cbs).1)]
      else Goes memory own after (.writing new) rest
        [(data.place, .notified new (data.cbs.map fun listener => (listener, data.val)))] := by
  obtain ⟨compared, result, executed⟩ := observe_execute value scratch (memory.compare new)
    (look (fun data own =>
        if (memory.compare new).result own.scratch then { own with same := true, calls := rest }.note data.place (.equal new)
        else { own with same := false, size := data.cbs.length, told := [] })
      fun own => if own.same then .done else notify memory new rest own.size) data own
  have compares : (memory.compare new).result compared = (data.val == new) := result
  have entered : execute (compareThenNotify memory new rest) data own = _ := executed
  rw [entered, look_execute]
  simp only [scratch, compares]
  cases equal : data.val == new with
  | true => exact ⟨_, rfl, rfl, rfl, rfl, rfl⟩
  | false =>
      obtain ⟨after, remaining, goes⟩ := notify_execute memory new rest [] data.cbs data
        { own with scratch := compared, same := false, size := data.cbs.length, told := [] } rfl rfl
      refine ⟨after, remaining, ?_⟩
      simp only [List.nil_append] at goes
      cases threw : (tell own.verdicts data.val own.callbacks data.cbs).2 with
      | true =>
          rw [if_pos threw] at goes
          exact goes_from memory own _ after _ _ _ goes rfl rfl
      | false =>
          rw [if_neg (by simp [threw]), tell_all own.verdicts data.val own.callbacks data.cbs threw] at goes
          exact goes_from memory own _ after _ _ _ goes rfl rfl

theorem write_execute (new : Val) (rest : List (Call Val)) (data : Guarded Val) (own : Thread memory) :
    ∃ after, execute (write memory new rest) data own = some ({ data with val := new }.recorded, after) ∧
      Goes memory own after .idle rest [(data.history.length, .wrote new)] := by
  obtain ⟨after, assigned⟩ := memory.assigned new data.val own.scratch
  refine ⟨{ own with phase := .idle, calls := rest, scratch := after }.note data.history.length (.wrote new),
    ?_, rfl, rfl, rfl, rfl⟩
  rw [write, Lib.Sections.execute_append, Lib.Sections.execute_lift]
  simp only [value, scratch, assigned, Option.map_some, Option.bind_some]
  rfl

theorem print_execute (rest : List (Call Val)) (data : Guarded Val) (own : Thread memory) :
    ∃ after, execute (print memory rest) data own = some (data, after) ∧
      Goes memory own after own.phase rest [(data.place, .shown (caught (toStr data.val)))] := by
  obtain ⟨printed, result, executed⟩ := observe_execute value scratch memory.print
    (look (fun data own =>
      { own with calls := rest }.note data.place (.shown (caught (memory.print.result own.scratch)))) fun _ => .done) data own
  have shows : memory.print.result printed = toStr data.val := result
  refine ⟨{ own with calls := rest, scratch := printed }.note data.place (.shown (caught (toStr data.val))),
    ?_, rfl, rfl, rfl, rfl⟩
  rw [← shows]
  exact executed

def added (data : Guarded Val) : Guarded Val :=
  let key := (data.funId + 1) % UInt64.size
  { data with funId := key, cbs := insertKey key data.cbs }

theorem add_listener_execute (rest : List (Call Val)) (data : Guarded Val) (own : Thread memory) :
    ∃ after, execute (addListener memory rest) data own = some ((added data).recorded, after) ∧
      Goes memory own after .idle rest [(data.history.length, .added (added data).funId)] := ⟨_, rfl, rfl, rfl, rfl, rfl⟩

theorem del_listenner_execute (key : Nat) (rest : List (Call Val)) (data : Guarded Val) (own : Thread memory) :
    ∃ after, execute (delListenner memory key rest) data own = some ({ data with cbs := data.cbs.erase key }.recorded, after) ∧
      Goes memory own after .idle rest [(data.history.length, .removed key)] := by
  simp only [delListenner, execute, leave]
  cases found : data.cbs.contains key with
  | true => exact ⟨_, rfl, rfl, rfl, rfl, rfl⟩
  | false =>
      have absent : data.cbs.erase key = data.cbs := List.erase_of_not_mem (by simpa using found)
      rw [absent]
      exact ⟨_, rfl, rfl, rfl, rfl, rfl⟩

theorem clear_listener_execute (rest : List (Call Val)) (data : Guarded Val) (own : Thread memory) :
    ∃ after, execute (clearListener memory rest) data own = some ({ data with cbs := [] }.recorded, after) ∧
      Goes memory own after .idle rest [(data.history.length, .cleared)] := ⟨_, rfl, rfl, rfl, rfl, rfl⟩

end Program

section Vectors

variable {Elem : Type}

-- A vector is read by its size first, and then element by element.
structure Reading (Elem : Type) where
  size : Nat
  seen : List Elem

def readElements : Nat → Body (List Elem) (Reading Elem)
  | 0 => .done
  | remaining + 1 =>
      .step (fun val own => val[own.seen.length]?.map fun elem => (val, { own with seen := own.seen ++ [elem] }))
        fun _ => readElements remaining

def readVector : Body (List Elem) (Reading Elem) :=
  .step (fun val _ => some (val, ⟨val.length, []⟩)) fun own => readElements own.size

def assignVector (new : List Elem) : Body (List Elem) (Reading Elem) :=
  .sequence ((fun _ own => some ([], own)) :: new.map fun elem val own => some (val ++ [elem], own))

theorem read_elements_execute (seen rest : List Elem) (size : Nat) :
    execute (readElements rest.length) (seen ++ rest) ⟨size, seen⟩ = some (seen ++ rest, ⟨size, seen ++ rest⟩) := by
  induction rest generalizing seen with
  | nil => simp [readElements, execute]
  | cons elem rest ih =>
      rw [List.length_cons, readElements, execute]
      simpa using ih (seen ++ [elem])

theorem read_elements_reads (remaining : Nat) : (readElements remaining : Body (List Elem) (Reading Elem)).Reads := by
  induction remaining with
  | zero => trivial
  | succ remaining ih =>
      refine ⟨?_, fun _ => ih⟩
      intro val own result executed
      obtain ⟨elem, -, rfl⟩ := Option.map_eq_some_iff.mp executed
      rfl

theorem assign_execute (new before : List Elem) (own : Reading Elem) :
    execute (.sequence (new.map fun elem val own => some (val ++ [elem], own))) before own = some (before ++ new, own) := by
  induction new generalizing before with
  | nil => simp [Body.sequence, execute]
  | cons elem rest ih => simpa [Body.sequence, execute] using ih (before ++ [elem])

def observeVector {Result : Type} (of : List Elem → Result) : Observation (List Elem) (Reading Elem) of where
  body := readVector
  result := fun own => of own.seen
  reads := ⟨by rintro val own result ⟨⟩; rfl, fun own => read_elements_reads own.size⟩
  observed := fun val _ => ⟨⟨val.length, val⟩, read_elements_execute [] val val.length, rfl⟩

def vector [BEq Elem] (toStr : List Elem → Except Exception String) : Memory (List Elem) toStr where
  Scratch := Reading Elem
  empty := ⟨0, []⟩
  compare := fun new => observeVector fun val => val == new
  copy := observeVector fun val => val
  print := observeVector toStr
  assign := assignVector
  assigned := fun new _ own => ⟨own, assign_execute new [] own⟩

end Vectors

end Sylar.Config.ConfigVarStatements
