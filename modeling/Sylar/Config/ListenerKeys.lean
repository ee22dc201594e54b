import Sylar.Config.ConfigVar
import Sylar.Lib.Heap
import Sylar.Lib.Runs

set_option autoImplicit false

namespace Sylar.Config.ListenerKeys

open Lib (Address Heap run Along run_invariant run_cons)

-- Where a thread stands in addListener: what comes next is the load and the
-- store of ++s_fun_id, the load of the key that m_cbs gets, or the load of the
-- return value. From its lock on it holds the lock of the variable.
inductive Phase (Cb : Type) where
  | idle
  | load (var : Address) (cb : Cb)
  | store (var : Address) (cb : Cb) (loaded : Nat)
  | register (var : Address) (cb : Cb)
  | answer (var : Address) (key : Nat)

def Phase.var {Cb : Type} : Phase Cb → Option Address
  | .idle => none
  | .load var _ => some var
  | .store var _ _ => some var
  | .register var _ => some var
  | .answer var _ => some var

structure Registration where
  var : Address
  key : Nat
  replaced : Bool
deriving DecidableEq, Repr

structure Answer where
  var : Address
  key : Nat
  taken : Bool
deriving DecidableEq, Repr

structure Shared (Val World : Type) where
  funId : Nat
  vars : Heap (ConfigVar Val World)
  threads : Heap (Phase (OnChange Val World))
  registrations : List Registration
  answers : List Answer

inductive Action (Val World : Type) where
  | construct (name : String) (defaultValue : Val) (description : String)
  | spawn
  | addListener (thread : Address) (var : Address) (cb : OnChange Val World)
  | advance (thread : Address)
  | delListenner (var : Address) (key : Nat)
  | clearListener (var : Address)

section Steps

variable {Val World : Type}

def start : Shared Val World := ⟨0, .empty, .empty, [], []⟩

def busy (shared : Shared Val World) (var : Address) : Bool :=
  shared.threads.cells.any fun phase => phase.var == some var

def move (shared : Shared Val World) (thread : Address) (phase : Phase (OnChange Val World)) : Shared Val World :=
  { shared with threads := shared.threads.modify thread fun _ => phase }

def addStep (shared : Shared Val World) (thread : Address) (var : Address) (cb : OnChange Val World) :
    Phase (OnChange Val World) → Option (Shared Val World)
  | .idle => if var < shared.vars.size ∧ busy shared var = false then some (move shared thread (.load var cb)) else none
  | _ => none

def insertCb (cb : OnChange Val World) (key : Nat) (var : ConfigVar Val World) : ConfigVar Val World :=
  { var with cbs := var.cbs.insert key cb }

def registered (vars : Heap (ConfigVar Val World)) (var : Address) (key : Nat) : Bool :=
  match vars.read var with
  | some found => found.cbs.contains key
  | none => false

def advanceStep (shared : Shared Val World) (thread : Address) : Phase (OnChange Val World) → Option (Shared Val World)
  | .idle => none
  | .load var cb => some (move shared thread (.store var cb shared.funId))
  | .store var cb loaded =>
      some { move shared thread (.register var cb) with funId := (loaded + 1) % UInt64.size }
  | .register var cb =>
      some { move shared thread (.answer var shared.funId) with
        vars := shared.vars.modify var (insertCb cb shared.funId)
        registrations := shared.registrations ++ [⟨var, shared.funId, registered shared.vars var shared.funId⟩] }
  | .answer var key =>
      some { move shared thread .idle with
        answers := shared.answers ++
          [⟨var, shared.funId, shared.funId != key && registered shared.vars var shared.funId⟩] }

-- delListenner and clearListener use nothing that is shared but the variable,
-- so one step under its lock stands for the whole call.
def locked (shared : Shared Val World) (var : Address) (update : ConfigVar Val World → ConfigVar Val World) :
    Option (Shared Val World) :=
  if busy shared var = false then some { shared with vars := shared.vars.modify var update } else none

def delListenner (key : Nat) (var : ConfigVar Val World) : ConfigVar Val World :=
  { var with cbs := var.cbs.erase key }

def clearListener (var : ConfigVar Val World) : ConfigVar Val World := { var with cbs := ∅ }

def step (shared : Shared Val World) : Action Val World → Option (Shared Val World)
  | .construct name defaultValue description =>
      some { shared with vars := shared.vars.alloc (ConfigVar.new name defaultValue description) }
  | .spawn => some { shared with threads := shared.threads.alloc .idle }
  | .addListener thread var cb => (shared.threads.read thread).bind (addStep shared thread var cb)
  | .advance thread => (shared.threads.read thread).bind (advanceStep shared thread)
  | .delListenner var key => locked shared var (delListenner key)
  | .clearListener var => locked shared var clearListener

def KeysFresh (shared : Shared Val World) : Prop :=
  (∀ registration ∈ shared.registrations, registration.replaced = false) ∧
    ∀ answer ∈ shared.answers, answer.taken = false

def CountsOn (shared : Shared Val World) : Action Val World → Prop
  | .advance thread => ∀ var cb loaded, shared.threads.read thread = some (.store var cb loaded) →
      shared.funId ≤ (loaded + 1) % UInt64.size
  | _ => True

def AtMost (vars : Heap (ConfigVar Val World)) (var : Address) (bound : Nat) : Prop :=
  ∀ key, registered vars var key = true → key ≤ bound

def Phase.Knows (funId : Nat) (vars : Heap (ConfigVar Val World)) : Phase (OnChange Val World) → Prop
  | .idle => True
  | .load _ _ => True
  | .store var _ loaded => AtMost vars var loaded ∧ loaded ≤ funId
  | .register var _ => ∀ key, registered vars var key = true → key < funId
  | .answer var key => AtMost vars var key ∧ key ≤ funId

structure Ordered (shared : Shared Val World) : Prop where
  small : shared.funId < UInt64.size
  bound : ∀ var, AtMost shared.vars var shared.funId
  knows : ∀ thread phase, shared.threads.read thread = some phase → phase.Knows shared.funId shared.vars
  alone : ∀ thread other phase second var, shared.threads.read thread = some phase →
    shared.threads.read other = some second → phase.var = some var → second.var = some var → thread = other
  fresh : KeysFresh shared

section Keys

variable (vars changed : Heap (ConfigVar Val World)) (var other : Address) (key : Nat)

theorem registered_modify_elsewhere (update : ConfigVar Val World → ConfigVar Val World) (different : other ≠ var) :
    registered (vars.modify var update) other key = registered vars other key := by
  rw [registered, registered, Heap.read_modify_elsewhere _ _ _ _ different]

theorem registered_insert (cb : OnChange Val World) (inserted : Nat)
    (present : registered (vars.modify var (insertCb cb inserted)) var key = true) :
    key = inserted ∨ registered vars var key = true := by
  rw [registered, Heap.read_modify_here] at present
  rw [registered]
  cases stored : vars.read var with
  | none =>
      rw [stored] at present
      cases present
  | some found =>
      rw [stored] at present
      simp only [Option.map_some, insertCb, Std.TreeMap.contains_insert, Bool.or_eq_true, beq_iff_eq,
        Nat.compare_eq_eq] at present
      rcases present with same | old
      · exact .inl same.symm
      · exact .inr old

theorem registered_shrinks (update : ConfigVar Val World → ConfigVar Val World)
    (shrinks : ∀ found : ConfigVar Val World, (update found).cbs.contains key = true → found.cbs.contains key = true)
    (present : registered (vars.modify var update) other key = true) : registered vars other key = true := by
  by_cases same : other = var
  · subst same
    rw [registered, Heap.read_modify_here] at present
    rw [registered]
    cases stored : vars.read other with
    | none =>
        rw [stored] at present
        cases present
    | some found =>
        rw [stored] at present
        exact shrinks found present
  · rwa [registered_modify_elsewhere vars var other key update same] at present

theorem del_shrinks (removed : Nat) (found : ConfigVar Val World)
    (present : (delListenner removed found).cbs.contains key = true) : found.cbs.contains key = true := by
  simp only [delListenner, Std.TreeMap.contains_erase, Bool.and_eq_true] at present
  exact present.2

theorem clear_shrinks (found : ConfigVar Val World) (present : (clearListener found).cbs.contains key = true) :
    found.cbs.contains key = true := by
  simp [clearListener] at present

theorem registered_new (name : String) (defaultValue : Val) (description : String)
    (present : registered (vars.alloc (ConfigVar.new name defaultValue description)) other key = true) :
    registered vars other key = true := by
  by_cases fresh : other = vars.size
  · subst fresh
    simp [registered, ConfigVar.new] at present
  · rw [registered] at present
    rw [registered]
    cases stored : (vars.alloc (ConfigVar.new name defaultValue description)).read other with
    | none =>
        rw [stored] at present
        cases present
    | some found =>
        rw [stored] at present
        rw [Heap.read_alloc_known _ _ _ _ fresh stored]
        exact present

end Keys

theorem knows_kept (vars changed : Heap (ConfigVar Val World)) (funId later : Nat) (phase : Phase (OnChange Val World))
    (grows : funId ≤ later)
    (shrinks : ∀ var, phase.var = some var → ∀ key, registered changed var key = true → registered vars var key = true)
    (knows : phase.Knows funId vars) : phase.Knows later changed := by
  cases phase with
  | idle => trivial
  | load var cb => trivial
  | store var cb loaded =>
      exact ⟨fun key present => knows.1 key (shrinks var rfl key present), Nat.le_trans knows.2 grows⟩
  | register var cb =>
      intro key present
      exact Nat.lt_of_lt_of_le (knows key (shrinks var rfl key present)) grows
  | answer var answered =>
      exact ⟨fun key present => knows.1 key (shrinks var rfl key present), Nat.le_trans knows.2 grows⟩

section Shared

variable (shared : Shared Val World)

theorem start_ordered : Ordered (start : Shared Val World) := by
  have small : 0 < UInt64.size := by decide
  refine ⟨small, fun var key present => ?_, fun thread phase stored => ?_, fun thread other phase second var stored => ?_, ?_⟩
  · cases present
  · cases stored
  · cases stored
  · simp [KeysFresh, start]

theorem free_of_busy (var : Address) (free : busy shared var = false) (thread : Address) (phase : Phase (OnChange Val World))
    (stored : shared.threads.read thread = some phase) : phase.var ≠ some var := by
  intro inside
  have used : busy shared var = true :=
    List.any_eq_true.mpr ⟨phase, List.mem_of_getElem? stored, by rw [inside]; exact beq_self_eq_true _⟩
  rw [free] at used
  cases used

theorem shrink_ordered (vars : Heap (ConfigVar Val World)) (ordered : Ordered shared)
    (shrinks : ∀ var key, registered vars var key = true → registered shared.vars var key = true) :
    Ordered { shared with vars := vars } := by
  refine ⟨ordered.small, fun var key present => ordered.bound var key (shrinks var key present),
    fun thread phase stored => ?_, ordered.alone, ordered.fresh⟩
  exact knows_kept shared.vars vars shared.funId shared.funId phase (Nat.le_refl _) (fun var _ => shrinks var)
    (ordered.knows thread phase stored)

theorem spawn_ordered (ordered : Ordered shared) : Ordered { shared with threads := shared.threads.alloc .idle } := by
  have known (thread : Address) (phase : Phase (OnChange Val World)) (stored : (shared.threads.alloc .idle).read thread = some phase) :
      phase = .idle ∨ shared.threads.read thread = some phase := by
    by_cases fresh : thread = shared.threads.size
    · subst fresh
      rw [Heap.read_alloc_fresh] at stored
      cases stored
      exact .inl rfl
    · exact .inr (Heap.read_alloc_known _ _ _ _ fresh stored)
  refine ⟨ordered.small, ordered.bound, fun thread phase stored => ?_,
    fun thread other phase second var stored read inside also => ?_, ordered.fresh⟩
  · rcases known thread phase stored with rfl | old
    · trivial
    · exact ordered.knows thread phase old
  · rcases known thread phase stored with rfl | old
    · cases inside
    · rcases known other second read with rfl | older
      · cases also
      · exact ordered.alone thread other phase second var old older inside also

theorem move_ordered (ordered : Ordered shared) (thread : Address) (phase next : Phase (OnChange Val World)) (funId : Nat)
    (vars : Heap (ConfigVar Val World)) (registrations : List Registration) (answers : List Answer)
    (stored : shared.threads.read thread = some phase) (grows : shared.funId ≤ funId) (small : funId < UInt64.size)
    (bound : ∀ var, AtMost vars var funId)
    (shrinks : ∀ var, phase.var ≠ some var → ∀ key, registered vars var key = true → registered shared.vars var key = true)
    (knows : next.Knows funId vars)
    (lock : ∀ var, next.var = some var → phase.var = some var ∨ busy shared var = false)
    (fresh : KeysFresh { shared with registrations := registrations, answers := answers }) :
    Ordered ⟨funId, vars, shared.threads.modify thread fun _ => next, registrations, answers⟩ := by
  have reads (other : Address) (found : Phase (OnChange Val World))
      (read : (shared.threads.modify thread fun _ => next).read other = some found) :
      other = thread ∧ found = next ∨ other ≠ thread ∧ shared.threads.read other = some found := by
    by_cases same : other = thread
    · subst same
      rw [Heap.read_modify_here, stored, Option.map_some, Option.some.injEq] at read
      exact .inl ⟨rfl, read.symm⟩
    · rw [Heap.read_modify_elsewhere _ _ _ _ same] at read
      exact .inr ⟨same, read⟩
  -- No other thread is where this one goes.
  have apart (other : Address) (found : Phase (OnChange Val World)) (var : Address) (different : other ≠ thread)
      (read : shared.threads.read other = some found) (inside : next.var = some var) : found.var ≠ some var := by
    intro also
    rcases lock var inside with own | free
    · exact different (ordered.alone other thread found phase var read stored also own)
    · exact free_of_busy shared var free other found read also
  refine ⟨small, bound, fun other found read => ?_, fun first second found also var read readAlso inside insideAlso => ?_, fresh⟩
  · rcases reads other found read with ⟨-, rfl⟩ | ⟨different, old⟩
    · exact knows
    · apply knows_kept shared.vars vars shared.funId funId found grows _ (ordered.knows other found old)
      intro var inside
      apply shrinks
      intro own
      exact different (ordered.alone other thread found phase var old stored inside own)
  · rcases reads first found read with ⟨rfl, rfl⟩ | ⟨different, old⟩
    · rcases reads second also readAlso with ⟨rfl, rfl⟩ | ⟨different, old⟩
      · rfl
      · exact absurd insideAlso (apart second also var different old inside)
    · rcases reads second also readAlso with ⟨rfl, rfl⟩ | ⟨differentAlso, oldAlso⟩
      · exact absurd inside (apart first found var different old insideAlso)
      · exact ordered.alone first second found also var old oldAlso inside insideAlso

theorem add_ordered (ordered : Ordered shared) (thread var : Address) (cb : OnChange Val World)
    (phase : Phase (OnChange Val World)) (next : Shared Val World) (stored : shared.threads.read thread = some phase)
    (added : addStep shared thread var cb phase = some next) : Ordered next := by
  cases phase with
  | idle =>
      simp only [addStep, Option.ite_none_right_eq_some, Option.some.injEq] at added
      obtain ⟨⟨-, free⟩, rfl⟩ := added
      apply move_ordered shared ordered thread .idle (.load var cb) _ _ _ _ stored (Nat.le_refl _) ordered.small ordered.bound
      · intro _ _ key present
        exact present
      · trivial
      · intro inside same
        cases same
        exact .inr free
      · exact ordered.fresh
  | _ => cases added

-- The counter has not passed any key of a locked variable back, so the value
-- stored over the loaded one is above all of them.
theorem store_ordered (ordered : Ordered shared) (thread var : Address) (cb : OnChange Val World) (loaded : Nat)
    (stored : shared.threads.read thread = some (.store var cb loaded)) (counts : shared.funId ≤ (loaded + 1) % UInt64.size) :
    Ordered { move shared thread (.register var cb) with funId := (loaded + 1) % UInt64.size } := by
  obtain ⟨keys, behind⟩ := ordered.knows thread _ stored
  have room : loaded + 1 < UInt64.size := by
    by_contra wraps
    have full : loaded + 1 = UInt64.size := Nat.le_antisymm (Nat.lt_of_le_of_lt behind ordered.small) (Nat.le_of_not_lt wraps)
    rw [full, Nat.mod_self] at counts
    have positive : 1 < UInt64.size := by decide
    omega
  have next : (loaded + 1) % UInt64.size = loaded + 1 := Nat.mod_eq_of_lt room
  rw [next] at counts ⊢
  apply move_ordered shared ordered thread (.store var cb loaded) (.register var cb) _ _ _ _ stored counts room
  · intro other key present
    exact Nat.le_trans (ordered.bound other key present) counts
  · intro _ _ key present
    exact present
  · intro key present
    exact Nat.lt_succ_of_le (keys key present)
  · intro _ same
    exact .inl same
  · exact ordered.fresh

theorem register_ordered (ordered : Ordered shared) (thread var : Address) (cb : OnChange Val World)
    (stored : shared.threads.read thread = some (.register var cb)) :
    Ordered { move shared thread (.answer var shared.funId) with
      vars := shared.vars.modify var (insertCb cb shared.funId)
      registrations := shared.registrations ++ [⟨var, shared.funId, registered shared.vars var shared.funId⟩] } := by
  have below := ordered.knows thread _ stored
  have inserted (other key : Address) (present : registered (shared.vars.modify var (insertCb cb shared.funId)) other key = true) :
      key ≤ shared.funId := by
    by_cases same : other = var
    · subst same
      rcases registered_insert shared.vars other key cb shared.funId present with rfl | old
      · exact Nat.le_refl _
      · exact Nat.le_of_lt (below key old)
    · rw [registered_modify_elsewhere _ _ _ _ _ same] at present
      exact ordered.bound other key present
  apply move_ordered shared ordered thread (.register var cb) (.answer var shared.funId) _ _ _ _ stored (Nat.le_refl _)
    ordered.small
  · exact inserted
  · intro other outside key present
    have different : other ≠ var := fun same => outside (by rw [same]; rfl)
    rwa [registered_modify_elsewhere _ _ _ _ _ different] at present
  · exact ⟨inserted var, Nat.le_refl _⟩
  · intro _ same
    exact .inl same
  · refine ⟨fun registration member => ?_, ordered.fresh.2⟩
    rcases List.mem_append.mp member with old | new
    · exact ordered.fresh.1 registration old
    · rw [List.mem_singleton] at new
      subst new
      rw [Bool.eq_false_iff]
      intro present
      exact Nat.lt_irrefl _ (below _ present)

theorem answer_ordered (ordered : Ordered shared) (thread var : Address) (key : Nat)
    (stored : shared.threads.read thread = some (.answer var key)) :
    Ordered { move shared thread .idle with
      answers := shared.answers ++ [⟨var, shared.funId, shared.funId != key && registered shared.vars var shared.funId⟩] } := by
  obtain ⟨keys, behind⟩ := ordered.knows thread _ stored
  apply move_ordered shared ordered thread (.answer var key) .idle _ _ _ _ stored (Nat.le_refl _) ordered.small ordered.bound
  · intro _ _ other present
    exact present
  · trivial
  · intro _ same
    cases same
  · refine ⟨ordered.fresh.1, fun answer member => ?_⟩
    rcases List.mem_append.mp member with old | new
    · exact ordered.fresh.2 answer old
    · rw [List.mem_singleton] at new
      subst new
      rw [Bool.and_eq_false_imp]
      intro differs
      rw [Bool.eq_false_iff]
      intro present
      have own : shared.funId = key := Nat.le_antisymm (keys _ present) behind
      simp [own] at differs

theorem advance_ordered (ordered : Ordered shared) (thread : Address) (phase : Phase (OnChange Val World))
    (next : Shared Val World) (stored : shared.threads.read thread = some phase) (counts : CountsOn shared (.advance thread))
    (advanced : advanceStep shared thread phase = some next) : Ordered next := by
  cases phase with
  | idle => cases advanced
  | load var cb =>
      cases advanced
      apply move_ordered shared ordered thread (.load var cb) (.store var cb shared.funId) _ _ _ _ stored (Nat.le_refl _)
        ordered.small ordered.bound
      · intro _ _ key present
        exact present
      · exact ⟨ordered.bound var, Nat.le_refl _⟩
      · intro _ same
        exact .inl same
      · exact ordered.fresh
  | store var cb loaded =>
      cases advanced
      exact store_ordered shared ordered thread var cb loaded stored (counts var cb loaded stored)
  | register var cb =>
      cases advanced
      exact register_ordered shared ordered thread var cb stored
  | answer var key =>
      cases advanced
      exact answer_ordered shared ordered thread var key stored

theorem locked_ordered (ordered : Ordered shared) (var : Address) (update : ConfigVar Val World → ConfigVar Val World)
    (next : Shared Val World)
    (shrinks : ∀ key (found : ConfigVar Val World), (update found).cbs.contains key = true → found.cbs.contains key = true)
    (stepped : locked shared var update = some next) : Ordered next := by
  rw [locked, Option.ite_none_right_eq_some, Option.some.injEq] at stepped
  obtain ⟨-, rfl⟩ := stepped
  apply shrink_ordered shared _ ordered
  intro other key present
  exact registered_shrinks shared.vars var other key update (shrinks key) present

theorem step_ordered (ordered : Ordered shared) (action : Action Val World) (next : Shared Val World)
    (counts : CountsOn shared action) (stepped : step shared action = some next) : Ordered next := by
  cases action with
  | construct name defaultValue description =>
      cases stepped
      apply shrink_ordered shared _ ordered
      intro other key present
      exact registered_new shared.vars other key name defaultValue description present
  | spawn =>
      cases stepped
      exact spawn_ordered shared ordered
  | addListener thread var cb =>
      obtain ⟨phase, stored, added⟩ := Option.bind_eq_some_iff.mp stepped
      exact add_ordered shared ordered thread var cb phase next stored added
  | advance thread =>
      obtain ⟨phase, stored, advanced⟩ := Option.bind_eq_some_iff.mp stepped
      exact advance_ordered shared ordered thread phase next stored counts advanced
  | delListenner var key =>
      exact locked_ordered shared ordered var _ next (fun kept found => del_shrinks kept key found) stepped
  | clearListener var =>
      exact locked_ordered shared ordered var _ next clear_shrinks stepped

end Shared

theorem add_listener_alone (shared : Shared Val World) (thread var : Address) (cb : OnChange Val World)
    (found : ConfigVar Val World) (stored : shared.vars.read var = some found)
    (idle : shared.threads.read thread = some .idle) (free : busy shared var = false) :
    (run step shared (.addListener thread var cb :: List.replicate 4 (.advance thread))).map
        (fun final => (final.funId, final.vars, final.answers)) =
      some ((found.addListener shared.funId cb).2,
        shared.vars.modify var fun current => (current.addListener shared.funId cb).1,
        shared.answers ++ [⟨var, (found.addListener shared.funId cb).2, false⟩]) := by
  have bound := Heap.read_bound _ _ _ stored
  have registers : insertCb cb ((shared.funId + 1) % UInt64.size) = fun current => (current.addListener shared.funId cb).1 := rfl
  simp [run_cons, step, idle, addStep, bound, free, List.replicate, move, advanceStep, registers, ConfigVar.addListener]

theorem keys_fresh_along (schedule : List (Action Val World)) (final : Shared Val World)
    (along : Along step CountsOn start schedule) (completed : run step start schedule = some final) : KeysFresh final := by
  have kept (shared : Shared Val World) (action : Action Val World) (next : Shared Val World) (ordered : Ordered shared)
      (counts : CountsOn shared action) (stepped : step shared action = some next) : Ordered next :=
    step_ordered shared ordered action next counts stepped
  exact (run_invariant step CountsOn Ordered kept schedule start final start_ordered along completed).fresh

instance (shared : Shared Val World) : (action : Action Val World) → Decidable (CountsOn shared action)
  | .advance thread =>
      match stored : shared.threads.read thread with
      | some (.store _ _ loaded) =>
          decidable_of_iff (shared.funId ≤ (loaded + 1) % UInt64.size)
            ⟨fun counts _ _ _ read => by
                rw [stored, Option.some.injEq] at read
                cases read
                exact counts,
              fun counts => counts _ _ _ stored⟩
      | none => .isTrue fun _ _ _ read => by rw [stored] at read; cases read
      | some .idle => .isTrue fun _ _ _ read => by rw [stored] at read; cases read
      | some (.load _ _) => .isTrue fun _ _ _ read => by rw [stored] at read; cases read
      | some (.register _ _) => .isTrue fun _ _ _ read => by rw [stored] at read; cases read
      | some (.answer _ _) => .isTrue fun _ _ _ read => by rw [stored] at read; cases read
  | .construct _ _ _ => .isTrue trivial
  | .spawn => .isTrue trivial
  | .addListener _ _ _ => .isTrue trivial
  | .delListenner _ _ => .isTrue trivial
  | .clearListener _ => .isTrue trivial

def Action.adds : Action Val World → Bool
  | .addListener _ _ _ => true
  | _ => false

end Steps

def setUp : List (Action Nat Unit) :=
  [.construct "tcp.timeout" 5 "timeout", .construct "tcp.port" 80 "port", .spawn, .spawn]

def silent : OnChange Nat Unit := fun _ _ world => (world, none)

def wholeCall (thread var : Address) : List (Action Nat Unit) :=
  .addListener thread var silent :: List.replicate 4 (.advance thread)

theorem keys_fresh_along_two :
    ∃ final, run step start (setUp ++ wholeCall 0 0 ++ wholeCall 1 1) = some final ∧ KeysFresh final :=
  ⟨_, rfl, keys_fresh_along (setUp ++ wholeCall 0 0 ++ wholeCall 1 1) _ (by decide) rfl⟩

-- Thread 0 loads 0 on the first variable; thread 1 registers 1 and 2 on the
-- second; thread 0 stores 1, and thread 1 gets 2 again.
def lostIncrements : List (Action Nat Unit) :=
  setUp ++ [.addListener 0 0 silent, .advance 0] ++ wholeCall 1 1 ++ wholeCall 1 1 ++ [.advance 0] ++ wholeCall 1 1

theorem listener_replaced :
    ¬ ∀ (Val World : Type) (schedule : List (Action Val World)) (final : Shared Val World),
      schedule.countP Action.adds < UInt64.size → run step start schedule = some final → KeysFresh final := by
  intro fresh
  have kept := (fresh Nat Unit lostIncrements _ (by decide) rfl).1 ⟨1, 2, true⟩ (by decide)
  cases kept

end Sylar.Config.ListenerKeys
