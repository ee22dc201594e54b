import Sylar.Config.LookupHistory
import Sylar.Config.Snapshot
import Sylar.Lib.Linear

set_option autoImplicit false

namespace Sylar.Config.RegistryStatements

open Lib (Address Body Fine View run)
open Lib.Linear (Explains Implementation in_one_order moves ofThread start)
open Lib.Sections (Observation Undisturbed execute fineStep look look_execute look_reads observe observe_execute observe_reads
  settled)
open Yaml (Exception)

abbrev Datas := Std.TreeMap String Address

-- How the operations of std::map go through memory. Each may take any number of
-- steps; only what they come to is known.
structure MapMemory where
  Scratch : Type
  empty : Scratch
  find : ∀ name : String, Observation Datas Scratch fun datas => datas[name]?
  first : Observation Datas Scratch fun datas => datas.toList.head?
  next : ∀ key : String, Observation Datas Scratch fun datas => datas.toList.find? fun entry => compare key entry.1 == .lt
  assign : String → Address → Body Datas Scratch
  assigned : ∀ name pointer datas scratch, ∃ after,
    execute (assign name pointer) datas scratch = some (datas.insert name pointer, after)

variable {Ty World : Type} {types : Ty → ConfigType} [DecidableEq Ty]

inductive Call (types : Ty → ConfigType) where
  | lookup (ty : Ty) (name : String) (defaultValue : (types ty).Val) (description : String)
  | lookupExisting (ty : Ty) (name : String)
  | lookupBase (name : String)
  | visit

-- What a call returns, and for Visit the pointers its callback was called with.
inductive Answer where
  | created (outcome : Except Exception (Option Address))
  | found (pointer : Option Address)
  | visited (pointers : List Address)

-- What the calls do one at a time.
def apply : Call types → Registry types World → Registry types World × Answer
  | .lookup ty name defaultValue description, registry =>
      let result := registry.lookup ty name defaultValue description
      (result.1, .created result.2)
  | .lookupExisting ty name, registry => (registry, .found (registry.lookupExisting ty name))
  | .lookupBase name, registry => (registry, .found (registry.lookupBase name))
  | .visit, registry => (registry, .visited (registry.datas.toList.map Prod.snd))

-- found is what the find of a Lookup has come to, it is where Visit stands, and
-- size is how often the loop of Visit can run.
structure Frame (Scratch : Type) where
  map : Scratch
  found : Option Address
  tmp : Option Address
  created : Address
  it : Option (String × Address)
  size : Nat
  visited : List Address
  answer : Answer

section Statements

variable (memory : MapMemory)

abbrev Code (types : Ty → ConfigType) (World : Type) := Body (Registry types World) (Frame memory.Scratch)

def datas : View Datas (Registry types World) where
  get := Registry.datas
  put := fun datas registry => { registry with datas := datas }
  get_put := fun _ _ => rfl
  put_put := fun _ _ _ => rfl
  put_get := fun _ => rfl

def map {Scratch : Type} : View Scratch (Frame Scratch) where
  get := Frame.map
  put := fun map own => { own with map := map }
  get_put := fun _ _ => rfl
  put_put := fun _ _ _ => rfl
  put_get := fun _ => rfl

def finish (answer : Frame memory.Scratch → Answer) : Code memory types World :=
  look (fun _ own => { own with answer := answer own }) fun _ => .done

def find (name : String) (next : Frame memory.Scratch → Code memory types World) : Code memory types World :=
  observe datas map (memory.find name) (look (fun _ own => { own with found := (memory.find name).result own.map }) next)

-- Behind the existence check: a name with other characters throws.
def define (ty : Ty) (name : String) (defaultValue : (types ty).Val) (description : String) : Code memory types World :=
  if validName name then
    .step (fun registry own => some ({ registry with
        vars := registry.vars.alloc ⟨ty, ConfigVar.new name defaultValue description⟩ },
      { own with created := registry.vars.size })) fun own =>
      ((memory.assign name own.created).lift datas map).append (finish memory fun own => .created (.ok (some own.created)))
  else finish memory fun _ => .created (.error name)

def lookup (ty : Ty) (name : String) (defaultValue : (types ty).Val) (description : String) : Code memory types World :=
  find memory name fun own =>
    match own.found with
    | none => define memory ty name defaultValue description
    | some pointer =>
        look (fun registry own => { own with tmp := registry.cast ty pointer }) fun own =>
          match own.tmp with
          | some _ => define memory ty name defaultValue description
          | none => finish memory fun _ => .created (.ok none)

def lookupExisting (ty : Ty) (name : String) : Code memory types World :=
  find memory name fun own =>
    match own.found with
    | none => finish memory fun _ => .found none
    | some pointer =>
        look (fun registry own => { own with tmp := registry.cast ty pointer }) fun _ =>
          finish memory fun own => .found own.tmp

def lookupBase (name : String) : Code memory types World :=
  find memory name fun _ => finish memory fun own => .found own.found

-- it != end() is asked again before every round.
def untilEnd (round : String × Address → Code memory types World) : Code memory types World :=
  look (fun _ own => own) fun own =>
    match own.it with
    | none => finish memory fun own => .visited own.visited
    | some entry => round entry

-- No entry is left for another round than there are entries.
def visitFrom : Nat → Code memory types World
  | 0 => untilEnd memory fun _ => .step (fun _ _ => none) fun _ => .done
  | remaining + 1 =>
      untilEnd memory fun entry =>
        look (fun _ own => { own with visited := own.visited ++ [entry.2] }) fun _ =>
          observe datas map (memory.next entry.1)
            (look (fun _ own => { own with it := (memory.next entry.1).result own.map }) fun _ => visitFrom remaining)

def visit : Code memory types World :=
  look (fun registry own => { own with size := registry.datas.size, visited := [] }) fun own =>
    observe datas map memory.first
      (look (fun _ own => { own with it := memory.first.result own.map }) fun _ => visitFrom memory own.size)

def body : Call types → Code memory types World
  | .lookup ty name defaultValue description => lookup memory ty name defaultValue description
  | .lookupExisting ty name => lookupExisting memory ty name
  | .lookupBase name => lookupBase memory name
  | .visit => visit memory

def mode : Call types → Lib.Mode
  | .lookup _ _ _ _ => .exclusive
  | _ => .shared

section Reads

omit [DecidableEq Ty]

theorem finish_reads (answer : Frame memory.Scratch → Answer) : (finish memory answer : Code memory types World).Reads :=
  look_reads _ _ fun _ => trivial

theorem find_reads (name : String) (next : Frame memory.Scratch → Code memory types World) (reads : ∀ own, (next own).Reads) :
    (find memory name next).Reads :=
  observe_reads datas map _ _ (look_reads _ _ reads)

theorem until_end_reads (round : String × Address → Code memory types World) (reads : ∀ entry, (round entry).Reads) :
    (untilEnd memory round).Reads := by
  refine look_reads _ _ fun own => ?_
  cases own.it with
  | none => exact finish_reads memory _
  | some entry => exact reads entry

theorem visit_from_reads (remaining : Nat) : (visitFrom memory remaining : Code memory types World).Reads := by
  induction remaining with
  | zero => exact until_end_reads memory _ fun _ => ⟨by simp, fun _ => trivial⟩
  | succ remaining ih =>
      exact until_end_reads memory _ fun entry =>
        look_reads _ _ fun _ => observe_reads datas map _ _ (look_reads _ _ fun _ => ih)

end Reads

theorem body_reads (call : Call types) (shared : mode call = .shared) : (body memory call : Code memory types World).Reads := by
  cases call with
  | lookup ty name defaultValue description => cases shared
  | lookupExisting ty name =>
      refine find_reads memory name _ fun own => ?_
      cases own.found with
      | none => exact finish_reads memory _
      | some pointer => exact look_reads _ _ fun _ => finish_reads memory _
  | lookupBase name => exact find_reads memory name _ fun _ => finish_reads memory _
  | visit =>
      refine look_reads _ _ fun own => observe_reads datas map _ _ (look_reads _ _ fun _ => ?_)
      exact visit_from_reads memory own.size

section Execution

variable (registry : Registry types World) (own : Frame memory.Scratch)

omit [DecidableEq Ty]

theorem finish_execute (answer : Frame memory.Scratch → Answer) :
    execute (finish memory answer) registry own = some (registry, { own with answer := answer own }) := rfl

theorem find_execute (name : String) (next : Frame memory.Scratch → Code memory types World) :
    ∃ after, after.found = registry.datas[name]? ∧
      execute (find memory name next) registry own = execute (next after) registry after := by
  obtain ⟨map, result, executed⟩ := observe_execute datas map (memory.find name)
    (look (fun _ own => { own with found := (memory.find name).result own.map }) next) registry own
  exact ⟨_, result, executed⟩

theorem define_execute (ty : Ty) (name : String) (defaultValue : (types ty).Val) (description : String) :
    ∃ after, execute (define memory ty name defaultValue description) registry own =
        some ((registry.create ty name defaultValue description).1, after) ∧
      after.answer = .created (registry.create ty name defaultValue description).2 := by
  rw [define, Registry.create]
  split
  · obtain ⟨map, assigned⟩ := memory.assigned name registry.vars.size registry.datas own.map
    refine ⟨{ own with created := registry.vars.size, map := map, answer := .created (.ok (some registry.vars.size)) }, ?_, rfl⟩
    rw [execute, Option.bind_some, Lib.Sections.execute_append, Lib.Sections.execute_lift]
    simp only [datas, RegistryStatements.map, assigned, Option.map_some, Option.bind_some]
    rfl
  · exact ⟨_, rfl, rfl⟩

-- The entries behind the iterator have been handed out, those from it on are
-- still to come.
theorem visit_from_execute (before rest : List (String × Address)) (entries : registry.datas.toList = before ++ rest)
    (it : own.it = rest.head?) (visited : own.visited = before.map Prod.snd) :
    ∃ after, execute (visitFrom memory rest.length) registry own = some (registry, after) ∧
      after.answer = .visited (registry.datas.toList.map Prod.snd) := by
  induction rest generalizing before own with
  | nil =>
      rw [List.append_nil] at entries
      have ended : execute (visitFrom memory 0) registry own =
          execute (finish memory fun own => .visited own.visited) registry own := by
        rw [visitFrom, untilEnd, look_execute, it]
        rfl
      refine ⟨_, ended.trans (finish_execute memory registry own _), ?_⟩
      rw [visited, entries]
  | cons entry rest ih =>
      have ordered := registry.datas.ordered_keys_toList
      rw [entries, List.pairwise_append, List.pairwise_cons] at ordered
      obtain ⟨-, ⟨later, -⟩, earlier⟩ := ordered
      have successor : (registry.datas.toList.find? fun other => compare entry.1 other.1 == .lt) = rest.head? := by
        have passed : ∀ other ∈ before ++ [entry], ¬ (compare entry.1 other.1 == .lt) = true := by
          intro other member
          rcases List.mem_append.mp member with behind | here
          · have less := earlier other behind entry List.mem_cons_self
            simp [Std.OrientedCmp.gt_of_lt less]
          · cases List.mem_singleton.mp here
            simp
        rw [entries, ← List.singleton_append, ← List.append_assoc, List.find?_append, List.find?_eq_none.mpr passed,
          Option.none_or]
        cases rest with
        | nil => rfl
        | cons following others => simp [later following List.mem_cons_self]
      obtain ⟨map, result, executed⟩ := observe_execute datas map (memory.next entry.1)
        (look (fun _ own => { own with it := (memory.next entry.1).result own.map }) fun _ => visitFrom memory rest.length)
        registry { own with visited := own.visited ++ [entry.2] }
      obtain ⟨after, remaining, answer⟩ := ih
        { own with visited := own.visited ++ [entry.2], map := map, it := (memory.next entry.1).result map } (before ++ [entry])
        (by simp [entries]) (result.trans successor) (by simp [visited])
      refine ⟨after, ?_, answer⟩
      rw [List.length_cons, visitFrom, untilEnd, look_execute, it]
      simp only [List.head?_cons]
      rw [look_execute, executed, look_execute]
      exact remaining

theorem visit_execute : ∃ after, execute (visit memory) registry own = some (registry, after) ∧
    after.answer = .visited (registry.datas.toList.map Prod.snd) := by
  obtain ⟨map, result, executed⟩ := observe_execute datas map memory.first
    (look (fun _ own => { own with it := memory.first.result own.map }) fun _ => visitFrom memory registry.datas.size)
    registry { own with size := registry.datas.size, visited := [] }
  obtain ⟨after, remaining, answer⟩ := visit_from_execute memory registry
    { own with size := registry.datas.size, visited := [], map := map, it := memory.first.result map }
    [] registry.datas.toList rfl result rfl
  rw [Std.TreeMap.length_toList] at remaining
  refine ⟨after, ?_, answer⟩
  rw [visit, look_execute, executed, look_execute]
  exact remaining

end Execution

theorem body_execute (call : Call types) (registry : Registry types World) (own : Frame memory.Scratch) :
    ∃ after, execute (body memory call) registry own = some ((apply call registry).1, after) ∧
      after.answer = (apply call registry).2 := by
  cases call with
  | lookup ty name defaultValue description =>
      obtain ⟨middle, found, executed⟩ := find_execute memory registry own name fun own =>
        match own.found with
        | none => define memory ty name defaultValue description
        | some pointer =>
            look (fun registry own => { own with tmp := registry.cast ty pointer }) fun own =>
              match own.tmp with
              | some _ => define memory ty name defaultValue description
              | none => finish memory fun _ => .created (.ok none)
      rw [body, lookup, executed, found, apply, Registry.lookup]
      cases registry.datas[name]? with
      | none => exact define_execute memory registry middle ty name defaultValue description
      | some pointer =>
          simp only [look_execute]
          cases registry.cast ty pointer with
          | none => exact ⟨_, rfl, rfl⟩
          | some typed => exact define_execute memory registry { middle with tmp := some typed } ty name defaultValue description
  | lookupExisting ty name =>
      obtain ⟨middle, found, executed⟩ := find_execute memory registry own name fun own =>
        match own.found with
        | none => finish memory fun _ => .found none
        | some pointer =>
            look (fun registry own => { own with tmp := registry.cast ty pointer }) fun _ =>
              finish memory fun own => .found own.tmp
      rw [body, lookupExisting, executed, found, apply, Registry.lookupExisting]
      cases registry.datas[name]? with
      | none => exact ⟨_, rfl, rfl⟩
      | some pointer => exact ⟨_, rfl, rfl⟩
  | lookupBase name =>
      obtain ⟨middle, found, executed⟩ := find_execute memory registry own name fun _ =>
        finish memory fun own => .found own.found
      rw [body, lookupBase, executed]
      exact ⟨_, rfl, congrArg Answer.found found⟩
  | visit => exact visit_execute memory registry own

def implementation (types : Ty → ConfigType) (World : Type) :
    Implementation (apply : Call types → Registry types World → Registry types World × Answer) where
  Scratch := Frame memory.Scratch
  empty := ⟨memory.empty, none, none, 0, none, 0, [], .found none⟩
  mode := mode
  body := body memory
  answer := fun _ own => own.answer
  reads := body_reads memory
  computes := body_execute memory

abbrev Thread (types : Ty → ConfigType) := Lib.Linear.Client (Call types) Answer (Frame memory.Scratch)

-- What Lookup, LookupBase and Visit come to is what they come to in one order,
-- of which each moment has seen the first calls.
theorem registry_in_one_order (registry : Registry types World) (programs : Nat → List (Call types)) (schedule : List Nat) :
    ∃ (order : List (Nat × Call types × Answer)) (cut : Nat → Nat), Monotone cut ∧ cut schedule.length = order.length ∧
      ∀ before after middle, schedule = before ++ after →
        run (fineStep (moves (implementation memory types World)))
          (settled (start (implementation memory types World) registry programs)) before = some middle →
        Explains (implementation memory types World) registry programs (order.take (cut before.length)) middle :=
  in_one_order (implementation memory types World) registry programs schedule

section HandedOut

def Answer.pointers : Answer → List Address
  | .created (.ok pointer) => pointer.toList
  | .created (.error _) => []
  | .found pointer => pointer.toList
  | .visited pointers => pointers

-- The types and names that a call may hand out pointers for.
def Call.AsksFor : Call types → Ty → String → Prop
  | .lookup ty name _ _, shown, called => ty = shown ∧ name = called
  | .lookupExisting ty name, shown, called => ty = shown ∧ name = called
  | .lookupBase name, _, called => name = called
  | .visit, _, _ => True

-- What has been handed out is of the one type that its name is registered with,
-- and Visit goes through the names in their order.
def Typed (registry : Registry types World) (call : Call types × Answer) : Prop :=
  (∀ pointer ∈ call.2.pointers, ∃ ty name, call.1.AsksFor ty name ∧ registry.shapeAt pointer = some (ty, name) ∧
    registry.typeAt name = some ty) ∧
  ∀ pointers, call.2 = .visited pointers → pointers.Pairwise fun first second =>
    ∃ one other, registry.shapeAt first = some one ∧ registry.shapeAt second = some other ∧ one.2 < other.2

theorem lookup_cases (registry : Registry types World) (ty : Ty) (name : String) (defaultValue : (types ty).Val)
    (description : String) :
    (registry.lookup ty name defaultValue description).1 = registry ∧
      (∀ pointer, (registry.lookup ty name defaultValue description).2 ≠ .ok (some pointer)) ∨
    validName name ∧ (∀ other, registry.typeAt name = some other → other = ty) ∧
      registry.lookup ty name defaultValue description = registry.create ty name defaultValue description := by
  by_cases free : registry.datas[name]? = none ∨ ∃ pointer, registry.lookupExisting ty name = some pointer
  · rw [Registry.lookup_creates registry ty name defaultValue description free]
    by_cases valid : validName name
    · refine .inr ⟨valid, ?_, rfl⟩
      intro other typed
      rcases free with absent | ⟨pointer, existing⟩
      · simp [Registry.typeAt, absent] at typed
      · obtain ⟨stored, same⟩ := (Registry.lookup_existing_iff registry ty name pointer).mp existing
        simp only [Registry.typeAt, stored, Option.bind_some, same, Option.some.injEq] at typed
        exact typed.symm
    · rw [Registry.create_invalid registry ty name defaultValue description valid]
      exact .inl ⟨rfl, by simp⟩
  · rw [not_or] at free
    obtain ⟨pointer, stored⟩ := Option.ne_none_iff_exists'.mp free.1
    have other : registry.lookupExisting ty name = none := by
      by_contra present
      exact free.2 (Option.ne_none_iff_exists'.mp present)
    rw [Registry.lookup_refused registry ty name defaultValue description pointer stored other]
    exact .inl ⟨rfl, by simp⟩

variable (registry : Registry types World) (call : Call types)

theorem apply_well_formed (wf : registry.WellFormed) : (apply call registry).1.WellFormed := by
  cases call with
  | lookup ty name defaultValue description => exact Registry.lookup_well_formed registry ty name defaultValue description wf
  | lookupExisting _ _ | lookupBase _ | visit => exact wf

theorem apply_keeps_shape (pointer : Address) (shape : Ty × String) (present : registry.shapeAt pointer = some shape) :
    (apply call registry).1.shapeAt pointer = some shape := by
  cases call with
  | lookup ty name defaultValue description =>
      rcases lookup_cases registry ty name defaultValue description with ⟨same, -⟩ | ⟨-, -, creates⟩
      · simpa only [apply, same] using present
      · simpa only [apply, creates] using
          Registry.create_shape_old registry ty name defaultValue description pointer shape present
  | lookupExisting _ _ | lookupBase _ | visit => exact present

theorem apply_keeps_type (wf : registry.WellFormed) (name : String) (ty : Ty) (typed : registry.typeAt name = some ty) :
    (apply call registry).1.typeAt name = some ty := by
  cases call with
  | lookup newTy created defaultValue description =>
      rcases lookup_cases registry newTy created defaultValue description with ⟨same, -⟩ | ⟨valid, only, creates⟩
      · simpa only [apply, same] using typed
      · simp only [apply, creates]
        rw [Registry.create_type_at registry wf newTy created name defaultValue description valid]
        split
        · rename_i same
          rw [only ty (same ▸ typed)]
        · exact typed
  | lookupExisting _ _ | lookupBase _ | visit => exact typed

omit [DecidableEq Ty] in
theorem stored_typed (wf : registry.WellFormed) (name : String) (pointer : Address)
    (stored : registry.datas[name]? = some pointer) :
    ∃ ty, registry.shapeAt pointer = some (ty, name) ∧ registry.typeAt name = some ty := by
  obtain ⟨-, ty, shape⟩ := wf name pointer stored
  exact ⟨ty, shape, by simp [Registry.typeAt, stored, shape]⟩

theorem apply_typed (wf : registry.WellFormed) : Typed (apply call registry).1 (call, (apply call registry).2) := by
  cases call with
  | lookup ty name defaultValue description =>
      refine ⟨?_, by simp [apply]⟩
      rcases lookup_cases registry ty name defaultValue description with ⟨-, nothing⟩ | ⟨valid, -, creates⟩
      · intro pointer member
        cases outcome : (registry.lookup ty name defaultValue description).2 with
        | error thrown => simp [apply, outcome, Answer.pointers] at member
        | ok found =>
            cases found with
            | none => simp [apply, outcome, Answer.pointers] at member
            | some found => exact absurd outcome (nothing found)
      · simp only [apply, creates, Registry.create_result registry ty name defaultValue description valid, Answer.pointers,
          Option.toList_some, List.mem_singleton]
        rintro pointer rfl
        refine ⟨ty, name, ⟨rfl, rfl⟩, Registry.create_shape_fresh registry ty name defaultValue description valid, ?_⟩
        rw [Registry.create_type_at registry wf ty name name defaultValue description valid, if_pos rfl]
  | lookupExisting ty name =>
      refine ⟨?_, by simp [apply]⟩
      intro pointer member
      have existing : registry.lookupExisting ty name = some pointer := by simpa [apply, Answer.pointers] using member
      obtain ⟨stored, typed⟩ := (Registry.lookup_existing_iff registry ty name pointer).mp existing
      obtain ⟨actual, shape, named⟩ := stored_typed registry wf name pointer stored
      have same : actual = ty := by simpa [shape] using typed
      subst same
      exact ⟨actual, name, ⟨rfl, rfl⟩, shape, named⟩
  | lookupBase name =>
      refine ⟨?_, by simp [apply]⟩
      intro pointer member
      have stored : registry.datas[name]? = some pointer := by simpa [apply, Answer.pointers, Registry.lookupBase] using member
      obtain ⟨ty, shape, named⟩ := stored_typed registry wf name pointer stored
      exact ⟨ty, name, rfl, shape, named⟩
  | visit =>
      have entries : ∀ entry ∈ registry.datas.toList, ∃ ty, registry.shapeAt entry.2 = some (ty, entry.1) ∧
          registry.typeAt entry.1 = some ty := fun entry member =>
        stored_typed registry wf entry.1 entry.2 (Std.TreeMap.mem_toList_iff_getElem?_eq_some.mp member)
      refine ⟨?_, ?_⟩
      · intro pointer member
        obtain ⟨entry, within, rfl⟩ := List.mem_map.mp member
        obtain ⟨ty, shape, named⟩ := entries entry within
        exact ⟨ty, entry.1, trivial, shape, named⟩
      · rintro pointers ⟨⟩
        rw [List.pairwise_map]
        refine registry.datas.ordered_keys_toList.imp_of_mem ?_
        intro first second here there less
        obtain ⟨one, shape, -⟩ := entries first here
        obtain ⟨other, further, -⟩ := entries second there
        exact ⟨_, _, shape, further, compareOfLessAndEq_eq_lt.mp less⟩

theorem apply_keeps_typed (wf : registry.WellFormed) (answered : Call types × Answer) (typed : Typed registry answered) :
    Typed (apply call registry).1 answered := by
  refine ⟨?_, ?_⟩
  · intro pointer member
    obtain ⟨ty, name, asked, shape, named⟩ := typed.1 pointer member
    exact ⟨ty, name, asked, apply_keeps_shape registry call pointer _ shape, apply_keeps_type registry call wf name ty named⟩
  · intro pointers visited
    refine (typed.2 pointers visited).imp ?_
    rintro first second ⟨one, other, here, there, less⟩
    exact ⟨one, other, apply_keeps_shape registry call first _ here, apply_keeps_shape registry call second _ there, less⟩

end HandedOut

-- Whatever the threads do, a name stands for variables of one type only: all
-- that any of them has been handed under it are of the type it has now.
theorem handed_out_typed (registry : Registry types World) (wf : registry.WellFormed) (programs : Nat → List (Call types))
    (schedule : List Nat) (final : Fine Unit Unit (Registry types World) (Thread memory types))
    (completed : run (fineStep (moves (implementation memory types World)))
      (settled (start (implementation memory types World) registry programs)) schedule = some final) :
    ∃ last : Registry types World, last.WellFormed ∧
      (Undisturbed final () → final.data () = last) ∧
      ∀ thread, ∀ call ∈ (final.locals thread).answers, Typed last call := by
  obtain ⟨order, cut, -, -, moments⟩ := in_one_order (implementation memory types World) registry programs schedule
  obtain ⟨⟨last, answered, undisturbed⟩, own, -⟩ := moments schedule [] final (List.append_nil _).symm completed
  obtain ⟨formed, -, typed⟩ := Lib.Linear.sequential_invariant apply Registry.WellFormed Typed
    (fun registry call wf => apply_well_formed registry call wf) (fun registry call wf => apply_typed registry call wf)
    (fun registry call other wf => apply_keeps_typed registry call wf other) registry _ wf
  rw [answered] at formed typed
  refine ⟨last, formed, undisturbed, ?_⟩
  intro thread call member
  rw [own, Lib.Linear.mem_of_thread] at member
  exact typed call (List.mem_map.mpr ⟨_, member, rfl⟩)

end Statements

-- A map that is searched and written at once.
def observeMap {Result : Type} (of : Datas → Result) : Observation Datas Datas of where
  body := .step (fun datas _ => some (datas, datas)) fun _ => .done
  result := of
  reads := ⟨by rintro datas own result ⟨⟩; rfl, fun _ => trivial⟩
  observed := fun datas _ => ⟨datas, rfl, rfl⟩

def plainMap : MapMemory where
  Scratch := Datas
  empty := ∅
  find := fun _ => observeMap _
  first := observeMap _
  next := fun _ => observeMap _
  assign := fun name pointer => .step (fun datas own => some (datas.insert name pointer, own)) fun _ => .done
  assigned := fun _ _ _ own => ⟨own, rfl⟩

abbrev ints : Unit → ConfigType := fun _ => intType

def hostAndPort : Nat → List (Call ints)
  | 0 => [.lookup () "port" (8080 : Int) "", .visit]
  | 1 => [.lookup () "host" (1 : Int) "", .lookupBase "port"]
  | _ => []

abbrev hostAndPortStep := fineStep (moves (implementation plainMap ints Unit))

abbrev hostAndPortStart := settled (start (implementation plainMap ints Unit) (Registry.start ()) hostAndPort)

def hostBefore : List Nat := [0, 0, 0, 0, 0, 0, 0, 0, 1, 1, 1, 1, 1, 1, 1]

def hostAfter : List Nat := [1, 0, 0, 0, 1, 0, 0, 1, 1, 0, 0, 0, 1, 1, 1, 0, 0, 0, 0, 0, 0, 0, 0]

-- Thread 1 has its answer at the first moment and still holds the lock. Later
-- it looks a name up while thread 0 goes through the variables.
theorem registry_in_one_order_host : ∃ middle final,
    run hostAndPortStep hostAndPortStart hostBefore = some middle ∧
      run hostAndPortStep hostAndPortStart (hostBefore ++ hostAfter) = some final ∧
      (middle.inside 1).isSome ∧ (middle.locals 1).answers.map Prod.snd = [.created (.ok (some 1))] ∧
      (final.locals 0).answers.map Prod.snd = [.created (.ok (some 0)), .visited [1, 0]] ∧
      (final.locals 1).answers.map Prod.snd = [.created (.ok (some 1)), .found (some 0)] ∧
      ∃ (order : List (Nat × Call ints × Answer)) (seen : Nat), (middle.locals 1).answers = ofThread 1 (order.take seen) ∧
        (final.locals 0).answers = ofThread 0 order ∧ (final.locals 1).answers = ofThread 1 order := by
  have ran : ∃ middle final,
      run hostAndPortStep hostAndPortStart hostBefore = some middle ∧
        run hostAndPortStep hostAndPortStart (hostBefore ++ hostAfter) = some final ∧
        (middle.inside 1).isSome ∧ (middle.locals 1).answers.map Prod.snd = [.created (.ok (some 1))] ∧
        (final.locals 0).answers.map Prod.snd = [.created (.ok (some 0)), .visited [1, 0]] ∧
        (final.locals 1).answers.map Prod.snd = [.created (.ok (some 1)), .found (some 0)] :=
    ⟨_, _, rfl, rfl, rfl, rfl, rfl, rfl⟩
  obtain ⟨middle, final, reached, completed, inside, answered, visitor, other⟩ := ran
  obtain ⟨order, cut, -, whole, moments⟩ :=
    registry_in_one_order plainMap (Registry.start ()) hostAndPort (hostBefore ++ hostAfter)
  have early := moments hostBefore hostAfter middle rfl reached
  have late := moments (hostBefore ++ hostAfter) [] final (List.append_nil _).symm completed
  rw [whole, List.take_length] at late
  exact ⟨middle, final, reached, completed, inside, answered, visitor, other, order, cut hostBefore.length, early.own 1,
    late.own 0, late.own 1⟩

theorem handed_out_typed_host : ∃ final,
    run hostAndPortStep hostAndPortStart (hostBefore ++ hostAfter) = some final ∧
      ∃ last : Registry ints Unit, (final.locals 0).answers.map Prod.snd = [.created (.ok (some 0)), .visited [1, 0]] ∧
        ∀ call ∈ (final.locals 0).answers, Typed last call := by
  have ran : ∃ final,
      run hostAndPortStep hostAndPortStart (hostBefore ++ hostAfter) = some final ∧
        (final.locals 0).answers.map Prod.snd = [.created (.ok (some 0)), .visited [1, 0]] := ⟨_, rfl, rfl⟩
  obtain ⟨final, completed, answers⟩ := ran
  obtain ⟨last, -, -, typed⟩ :=
    handed_out_typed plainMap (Registry.start ()) (Registry.start_well_formed ()) hostAndPort _ final completed
  exact ⟨final, completed, last, answers, typed 0⟩

end Sylar.Config.RegistryStatements
