import Sylar.Lib.Overwrite
import Sylar.Config.FailedUpdate
import Sylar.Config.LoadedValues

set_option autoImplicit false

namespace Sylar.Config

open Lib (Heap Address overwrite overwriteAll)
open Yaml (Exception Node YamlCpp)

namespace ConfigVar

variable {Val World : Type} [BEq Val]

theorem assign_overwrites (fromStr : String → Except Exception Val) (current : Val) (text : String) :
    assign fromStr current text = overwriteAll current (fromStr text).toOption.toList := by
  rw [assign]
  cases fromStr text <;> rfl

theorem from_string_quiet_var (fromStr : String → Except Exception Val) (var : ConfigVar Val World) (text : String)
    (world : World) (quiet : var.Quiet) :
    (var.fromString fromStr text world).1 = { var with val := assign fromStr var.val text } := by
  have value := from_string_quiet fromStr var text world quiet
  have others : (var.fromString fromStr text world).1 =
      { var with val := (var.fromString fromStr text world).1.val } := by
    rw [from_string_var]
    split
    · rfl
    · rw [setValue]
      split
      · rfl
      · split <;> rfl
  rw [others, value]

-- An update that calls no listener can only have changed a variable that has none.
theorem still_var (fromStr : String → Except Exception Val) (var : ConfigVar Val World) (text : String) (world : World)
    (still : var.Still fromStr text) (listened : var.cbs.toList ≠ []) : (var.fromString fromStr text world).1 = var := by
  rw [from_string_var]
  split
  · rfl
  · rename_i new converted
    rw [setValue, if_pos ((still new converted).resolve_right listened)]

end ConfigVar

-- A listener that was called: the type of its variable, the old and the new value.
abbrev ListenerCall {Ty : Type} (types : Ty → ConfigType) := (ty : Ty) × (types ty).Val × (types ty).Val

namespace Registry

variable {Ty World : Type} {types : Ty → ConfigType}

def recordedCell (cell : AnyVar types World) : AnyVar types (World × List (ListenerCall types)) :=
  ⟨cell.1, cell.2.recorded fun old new => ⟨cell.1, old, new⟩⟩

def recorded (registry : Registry types World) (calls : List (ListenerCall types)) :
    Registry types (World × List (ListenerCall types)) where
  vars := registry.vars.map recordedCell
  datas := registry.datas
  funId := registry.funId
  world := (registry.world, calls)

-- The calls of one LoadFromYaml, in order.
def loadCalls (yaml : YamlCpp) (registry : Registry types World) (root : Node) : List (ListenerCall types) :=
  ((registry.recorded []).loadFromYaml yaml root).world.2

def StillAt (registry : Registry types World) (pointer : Address) (text : String) : Prop :=
  ∀ cell, registry.vars.read pointer = some cell → cell.2.Still (types cell.1).fromStr text

theorem from_string_cell (registry : Registry types World) (pointer : Address) (text : String) (cell : AnyVar types World)
    (read : registry.vars.read pointer = some cell) (result : ConfigVar (types cell.1).Val World × World × Bool)
    (run : cell.2.fromString (types cell.1).fromStr text registry.world = result) :
    registry.fromString pointer text =
      ({ registry with
          vars := registry.vars.modify pointer fun _ => ⟨cell.1, result.1⟩
          world := result.2.1 }, result.2.2) := by
  subst run
  rw [fromString, read]

theorem from_string_recorded (registry : Registry types World) (pointer : Address) (text : String)
    (calls : List (ListenerCall types)) :
    ∃ told, (told = [] ↔ registry.StillAt pointer text) ∧
      (registry.recorded calls).fromString pointer text =
        ((registry.fromString pointer text).1.recorded (calls ++ told), (registry.fromString pointer text).2) := by
  cases read : registry.vars.read pointer with
  | none =>
      refine ⟨[], by simp [StillAt, read], ?_⟩
      simp [fromString, recorded, read]
  | some cell =>
      obtain ⟨told, none, run⟩ := ConfigVar.from_string_noted (types cell.1).fromStr cell.2 text registry.world
        (fun old new => (⟨cell.1, old, new⟩ : ListenerCall types)) calls
      refine ⟨told, by simp [StillAt, read, none], ?_⟩
      have seen : (registry.recorded calls).vars.read pointer = some (recordedCell cell) := by
        simp [recorded, read]
      let result := cell.2.fromString (types cell.1).fromStr text registry.world
      let next : AnyVar types World := ⟨cell.1, result.1⟩
      have stored := Heap.modify_map registry.vars recordedCell pointer (fun _ => next) (fun _ => recordedCell next)
        fun _ _ => rfl
      rw [from_string_cell registry pointer text cell read _ rfl,
        from_string_cell (registry.recorded calls) pointer text (recordedCell cell) seen _ run]
      exact Prod.ext (congrArg (Registry.mk · registry.datas registry.funId (result.2.1, calls ++ told)) stored) rfl

-- The pointer that one round of the loop finds.
def reached (registry : Registry types World) (item : String × Node) : Option Address :=
  if item.1.isEmpty then none else registry.lookupBase item.1.toLower

theorem load_member_reached (yaml : YamlCpp) (registry : Registry types World) (item : String × Node) :
    loadMember yaml registry item =
      match registry.reached item with
      | none => registry
      | some pointer => (registry.fromString pointer (nodeText yaml item.2)).1 := by
  rw [loadMember, reached]
  split
  · rfl
  · rfl

theorem load_member_elsewhere (yaml : YamlCpp) (registry : Registry types World) (item : String × Node) (pointer : Address)
    (elsewhere : registry.reached item ≠ some pointer) :
    (loadMember yaml registry item).vars.read pointer = registry.vars.read pointer := by
  rw [load_member_reached]
  split
  · rfl
  · rename_i target found
    exact from_string_elsewhere registry target pointer _ fun same => elsewhere (same ▸ found)

def StillMember (yaml : YamlCpp) (registry : Registry types World) (item : String × Node) : Prop :=
  ∀ pointer, registry.reached item = some pointer → registry.StillAt pointer (nodeText yaml item.2)

theorem load_member_recorded (yaml : YamlCpp) (registry : Registry types World) (item : String × Node)
    (calls : List (ListenerCall types)) :
    ∃ told, (told = [] ↔ registry.StillMember yaml item) ∧
      loadMember yaml (registry.recorded calls) item = (loadMember yaml registry item).recorded (calls ++ told) := by
  have found : (registry.recorded calls).reached item = registry.reached item := rfl
  rw [load_member_reached, load_member_reached, found]
  cases target : registry.reached item with
  | none => exact ⟨[], by simp [StillMember, target], by simp⟩
  | some pointer =>
      obtain ⟨told, none, run⟩ := from_string_recorded registry pointer (nodeText yaml item.2) calls
      exact ⟨told, by simp [StillMember, target, none], congrArg Prod.fst run⟩

-- The texts that a list of members hands to the variable behind a pointer.
def reaching (yaml : YamlCpp) (registry : Registry types World) (pointer : Address) (items : List (String × Node)) :
    List String :=
  (items.filter fun item => registry.reached item == some pointer).map fun item => nodeText yaml item.2

theorem reaching_keeps (yaml : YamlCpp) (before after : Registry types World) (keeps : Keeps before after)
    (pointer : Address) (items : List (String × Node)) :
    reaching yaml after pointer items = reaching yaml before pointer items := by
  simp only [reaching, reached, lookupBase, keeps.1]

theorem reaching_own (yaml : YamlCpp) (registry : Registry types World) (pointer : Address) (item : String × Node)
    (rest : List (String × Node)) (here : registry.reached item = some pointer) :
    reaching yaml registry pointer (item :: rest) = nodeText yaml item.2 :: reaching yaml registry pointer rest := by
  simp [reaching, here]

theorem reaching_other (yaml : YamlCpp) (registry : Registry types World) (pointer : Address) (item : String × Node)
    (rest : List (String × Node)) (elsewhere : registry.reached item ≠ some pointer) :
    reaching yaml registry pointer (item :: rest) = reaching yaml registry pointer rest := by
  simp [reaching, elsewhere]

-- The flattened names are valid, and lower-casing leaves valid names as they are.
theorem reaching_valid (yaml : YamlCpp) (registry : Registry types World) (pointer : Address)
    (items : List (String × Node)) (valid : ∀ item ∈ items, validName item.1) :
    reaching yaml registry pointer items =
      (items.filter fun item => (if item.1.isEmpty then none else registry.lookupBase item.1) == some pointer).map
        fun item => nodeText yaml item.2 := by
  rw [reaching, List.filter_congr]
  intro item member
  rw [reached, valid_name_lower item.1 (valid item member)]

theorem still_at_kept (registry : Registry types World) (pointer other : Address) (text later : String)
    (still : registry.StillAt pointer text) :
    (registry.fromString pointer text).1.StillAt other later ↔ registry.StillAt other later := by
  by_cases here : other = pointer
  · subst other
    cases read : registry.vars.read pointer with
    | none => simp only [fromString, read]
    | some cell =>
        have next : (registry.fromString pointer text).1.vars.read pointer =
            some ⟨cell.1, (cell.2.fromString (types cell.1).fromStr text registry.world).1⟩ := by
          simp [fromString, read]
        simp only [StillAt, read, next, Option.some.injEq, forall_eq']
        by_cases listened : cell.2.cbs.toList = []
        · simp [ConfigVar.Still, listened]
        · rw [ConfigVar.still_var _ cell.2 text registry.world (still cell read) listened]
  · simp only [StillAt, from_string_elsewhere registry pointer other text here]

theorem still_next (yaml : YamlCpp) (registry : Registry types World) (item : String × Node)
    (still : registry.StillMember yaml item) (pointer : Address) (text : String) :
    (loadMember yaml registry item).StillAt pointer text ↔ registry.StillAt pointer text := by
  rw [load_member_reached]
  split
  · rfl
  · rename_i own target
    exact still_at_kept registry own pointer _ text (still own target)

theorem still_reaching_cons (yaml : YamlCpp) (registry : Registry types World) (item : String × Node)
    (rest : List (String × Node)) :
    (∀ pointer, ∀ text ∈ reaching yaml registry pointer (item :: rest), registry.StillAt pointer text) ↔
      registry.StillMember yaml item ∧
        ∀ pointer, ∀ text ∈ reaching yaml registry pointer rest, registry.StillAt pointer text := by
  constructor
  · intro all
    constructor
    · intro own target
      apply all own
      rw [reaching_own yaml registry own item rest target]
      exact List.mem_cons_self
    · intro pointer text member
      apply all pointer text
      by_cases here : registry.reached item = some pointer
      · rw [reaching_own yaml registry pointer item rest here]
        exact List.mem_cons_of_mem _ member
      · rw [reaching_other yaml registry pointer item rest here]
        exact member
  · intro both pointer text member
    obtain ⟨still, remaining⟩ := both
    by_cases here : registry.reached item = some pointer
    · rw [reaching_own yaml registry pointer item rest here] at member
      rcases List.mem_cons.mp member with rfl | later
      · exact still pointer here
      · exact remaining pointer text later
    · rw [reaching_other yaml registry pointer item rest here] at member
      exact remaining pointer text member

-- A run without a call leaves every variable that has listeners as it is, so
-- each of its texts is compared with the value at the start.
theorem load_members_recorded (yaml : YamlCpp) (items : List (String × Node)) (registry : Registry types World)
    (calls : List (ListenerCall types)) :
    ∃ told, (told = [] ↔ ∀ pointer, ∀ text ∈ reaching yaml registry pointer items, registry.StillAt pointer text) ∧
      items.foldl (loadMember yaml) (registry.recorded calls) =
        (items.foldl (loadMember yaml) registry).recorded (calls ++ told) := by
  induction items generalizing registry calls with
  | nil => exact ⟨[], by simp [reaching], by simp⟩
  | cons item rest ih =>
      obtain ⟨first, firstNone, firstRun⟩ := load_member_recorded yaml registry item calls
      obtain ⟨later, laterNone, laterRun⟩ := ih (loadMember yaml registry item) (calls ++ first)
      refine ⟨first ++ later, ?_, ?_⟩
      · rw [List.append_eq_nil_iff, firstNone, laterNone, still_reaching_cons]
        apply and_congr_right
        intro still
        simp only [reaching_keeps yaml registry _ (load_member_keeps yaml registry item),
          still_next yaml registry item still]
      · rw [List.foldl_cons, firstRun, laterRun, List.foldl_cons, List.append_assoc]

-- The values that texts convert to, those that do not convert left out.
def converted {Val : Type} (fromStr : String → Except Exception Val) (texts : List String) : List Val :=
  texts.filterMap fun text => (fromStr text).toOption

def assigned (cell : AnyVar types World) (texts : List String) : AnyVar types World :=
  ⟨cell.1, { cell.2 with val := overwriteAll cell.2.val (converted (types cell.1).fromStr texts) }⟩

theorem assigned_cons (cell : AnyVar types World) (text : String) (rest : List String) :
    assigned cell (text :: rest) = assigned (assigned cell [text]) rest := by
  simp only [assigned, converted, List.filterMap_cons]
  cases ((types cell.1).fromStr text).toOption <;> rfl

theorem assigned_twice (cell : AnyVar types World) (texts : List String) [EquivBEq (types cell.1).Val] :
    assigned (assigned cell texts) texts = assigned cell texts :=
  congrArg (fun val => (⟨cell.1, { cell.2 with val := val }⟩ : AnyVar types World)) (Lib.overwrite_all_twice cell.2.val _)

theorem from_string_read (registry : Registry types World) (pointer : Address) (text : String) (cell : AnyVar types World)
    (read : registry.vars.read pointer = some cell) (quiet : registry.QuietAt pointer) :
    (registry.fromString pointer text).1.vars.read pointer = some (assigned cell [text]) := by
  rw [from_string_cell registry pointer text cell read _ rfl,
    ConfigVar.from_string_quiet_var _ cell.2 text registry.world (quiet cell read), ConfigVar.assign_overwrites]
  simp only [Heap.read_modify_here, read, Option.map_some, assigned, converted, List.filterMap_cons, List.filterMap_nil]
  cases ((types cell.1).fromStr text).toOption <;> rfl

theorem load_members_read (yaml : YamlCpp) (items : List (String × Node)) (registry : Registry types World)
    (pointer : Address) (cell : AnyVar types World) (read : registry.vars.read pointer = some cell)
    (quiet : registry.QuietAt pointer) :
    (items.foldl (loadMember yaml) registry).vars.read pointer =
      some (assigned cell (reaching yaml registry pointer items)) := by
  induction items generalizing registry cell with
  | nil => exact read
  | cons item rest ih =>
      have quietNext := load_member_quiet_at yaml registry item pointer quiet
      have texts := reaching_keeps yaml registry _ (load_member_keeps yaml registry item) pointer rest
      by_cases own : registry.reached item = some pointer
      · have next : (loadMember yaml registry item).vars.read pointer = some (assigned cell [nodeText yaml item.2]) := by
          rw [load_member_reached, own]
          exact from_string_read registry pointer _ cell read quiet
        rw [List.foldl_cons, ih _ _ next quietNext, texts, reaching_own yaml registry pointer item rest own,
          assigned_cons cell _ (reaching yaml registry pointer rest)]
      · have next : (loadMember yaml registry item).vars.read pointer = some cell :=
          (load_member_elsewhere yaml registry item pointer own).trans read
        rw [List.foldl_cons, ih _ _ next quietNext, texts, reaching_other yaml registry pointer item rest own]

theorem keeps_unread (before after : Registry types World) (keeps : Keeps before after) (pointer : Address)
    (unread : before.vars.read pointer = none) : after.vars.read pointer = none := by
  have shape := keeps.2 pointer
  rw [shapeAt, shapeAt, unread] at shape
  exact Option.map_eq_none_iff.mp shape

-- All values that the document gives to one variable with listeners are equal.
def Consistent (yaml : YamlCpp) (registry : Registry types World) (root : Node) : Prop :=
  ∀ pointer cell, registry.vars.read pointer = some cell → cell.2.cbs.toList ≠ [] →
    ∀ first ∈ converted (types cell.1).fromStr (reaching yaml registry pointer (listAllMember "" root)),
      ∀ second ∈ converted (types cell.1).fromStr (reaching yaml registry pointer (listAllMember "" root)), first == second

theorem still_converted (registry : Registry types World) (pointer : Address) (texts : List String)
    (cell : AnyVar types World) (read : registry.vars.read pointer = some cell) :
    (∀ text ∈ texts, registry.StillAt pointer text) ↔
      (cell.2.cbs.toList ≠ [] → ∀ new ∈ converted (types cell.1).fromStr texts, cell.2.val == new) := by
  constructor
  · intro still listened new member
    obtain ⟨text, within, convert⟩ := List.mem_filterMap.mp member
    have ok : (types cell.1).fromStr text = .ok new := by
      cases result : (types cell.1).fromStr text with
      | error thrown => simp [result, Except.toOption] at convert
      | ok value => simpa [result, Except.toOption] using convert
    exact (still text within cell read new ok).resolve_right listened
  · intro equal text within found present new ok
    cases read.symm.trans present
    by_cases listened : cell.2.cbs.toList = []
    · exact .inr listened
    · exact .inl (equal listened new (List.mem_filterMap.mpr ⟨text, within, by simp [ok, Except.toOption]⟩))

section Reload

variable (yaml : YamlCpp) (registry : Registry types World) (root : Node) (equal : ∀ ty, EquivBEq (types ty).Val)
  (quiet : ∀ pointer, registry.QuietAt pointer)

include quiet

theorem load_from_yaml_quiet (pointer : Address) : (registry.loadFromYaml yaml root).QuietAt pointer := by
  have kept (items : List (String × Node)) (current : Registry types World) (silent : current.QuietAt pointer) :
      (items.foldl (loadMember yaml) current).QuietAt pointer := by
    induction items generalizing current with
    | nil => exact silent
    | cons item rest ih => exact ih _ (load_member_quiet_at yaml current item pointer silent)
  exact kept _ registry (quiet pointer)

include equal

theorem reload_read (pointer : Address) :
    ((registry.loadFromYaml yaml root).loadFromYaml yaml root).vars.read pointer =
      (registry.loadFromYaml yaml root).vars.read pointer := by
  have keeps := load_from_yaml_keeps yaml registry root
  cases read : registry.vars.read pointer with
  | none =>
      have once := keeps_unread registry _ keeps pointer read
      rw [once]
      exact keeps_unread _ _ (load_from_yaml_keeps yaml _ root) pointer once
  | some cell =>
      have := equal cell.1
      have once : (registry.loadFromYaml yaml root).vars.read pointer = _ :=
        load_members_read yaml (listAllMember "" root) registry pointer cell read (quiet pointer)
      have twice : ((registry.loadFromYaml yaml root).loadFromYaml yaml root).vars.read pointer = _ :=
        load_members_read yaml (listAllMember "" root) _ pointer _ once (load_from_yaml_quiet yaml registry root quiet pointer)
      rw [twice, once, reaching_keeps yaml registry _ keeps, assigned_twice]

theorem reload_calls :
    (registry.loadFromYaml yaml root).loadCalls yaml root = [] ↔ Consistent yaml registry root := by
  have keeps := load_from_yaml_keeps yaml registry root
  obtain ⟨told, none, run⟩ := load_members_recorded yaml (listAllMember "" root) (registry.loadFromYaml yaml root) []
  have calls : (registry.loadFromYaml yaml root).loadCalls yaml root = told := by
    rw [loadCalls, loadFromYaml, run]
    rfl
  rw [calls, none, Consistent]
  refine forall_congr' fun pointer => ?_
  rw [reaching_keeps yaml registry _ keeps]
  cases read : registry.vars.read pointer with
  | none =>
      have unread := keeps_unread registry _ keeps pointer read
      simp [StillAt, unread]
  | some cell =>
      have := equal cell.1
      have once : (registry.loadFromYaml yaml root).vars.read pointer = _ :=
        load_members_read yaml (listAllMember "" root) registry pointer cell read (quiet pointer)
      rw [still_converted _ pointer _ _ once]
      simp only [Option.some.injEq, forall_eq']
      exact forall_congr' fun _ => Lib.overwrite_all_settled cell.2.val _

end Reload

-- The second run finds every variable as the first one left it. It calls
-- listeners exactly where the document gives one variable values that differ.
theorem reload_settles (yaml : YamlCpp) (registry : Registry types World) (root : Node)
    (equal : ∀ ty, EquivBEq (types ty).Val) (quiet : ∀ pointer, registry.QuietAt pointer) :
    (∀ pointer, ((registry.loadFromYaml yaml root).loadFromYaml yaml root).vars.read pointer =
        (registry.loadFromYaml yaml root).vars.read pointer) ∧
      ((registry.loadFromYaml yaml root).loadCalls yaml root = [] ↔ Consistent yaml registry root) :=
  ⟨reload_read yaml registry root equal quiet, reload_calls yaml registry root equal quiet⟩

def heardPort : Registry (fun _ : Unit => intType) Unit :=
  ((portRegistry "system.port").addListener () 0 fun _ _ world => (world, none)).1

theorem heard_port_quiet (pointer : Address) : heardPort.QuietAt pointer := by
  intro cell present entry member old new world
  match pointer with
  | 0 =>
      cases present
      cases List.mem_singleton.mp member
      rfl
  | next + 1 => cases present

theorem int_equal (ty : Unit) : EquivBEq ((fun _ : Unit => intType) ty).Val := inferInstanceAs (EquivBEq Int)

theorem port_document_texts : reaching portYaml heardPort 0 (listAllMember "" portDocument) = ["9090"] := by
  rw [reaching_valid]
  · rfl
  · exact list_all_member_valid "" portDocument

theorem reload_settles_port : (heardPort.loadFromYaml portYaml portDocument).loadCalls portYaml portDocument = [] := by
  apply (reload_settles portYaml heardPort portDocument int_equal heard_port_quiet).2.mpr
  intro pointer cell present _ first firstMember second secondMember
  match pointer with
  | 0 =>
      cases present
      rw [port_document_texts] at firstMember secondMember
      change first ∈ ([9090] : List Int) at firstMember
      change second ∈ ([9090] : List Int) at secondMember
      rw [List.mem_singleton.mp firstMember, List.mem_singleton.mp secondMember]
      rfl
  | next + 1 => cases present

def spelledTwice : Node :=
  .map [(.scalar "system.port", .scalar "1"), (.scalar "system", .map [(.scalar "port", .scalar "2")])]

theorem spelled_twice_texts : reaching portYaml heardPort 0 (listAllMember "" spelledTwice) = ["1", "2"] := by
  rw [reaching_valid]
  · rfl
  · exact list_all_member_valid "" spelledTwice

theorem reload_calls_again :
    ¬ ∀ (yaml : YamlCpp) (registry : Registry (fun _ : Unit => intType) Unit) (root : Node),
      (∀ ty : Unit, EquivBEq ((fun _ : Unit => intType) ty).Val) → (∀ pointer, registry.QuietAt pointer) →
        (∀ pointer, ((registry.loadFromYaml yaml root).loadFromYaml yaml root).vars.read pointer =
            (registry.loadFromYaml yaml root).vars.read pointer) ∧
          (registry.loadFromYaml yaml root).loadCalls yaml root = [] := by
  intro claimed
  obtain ⟨-, silent⟩ := claimed portYaml heardPort spelledTwice int_equal heard_port_quiet
  have consistent := (reload_calls portYaml heardPort spelledTwice int_equal heard_port_quiet).mp silent
  have values := consistent 0 _ rfl (fun silent => by cases silent) (1 : Int)
    (by rw [spelled_twice_texts]; exact List.mem_cons_self) (2 : Int)
    (by rw [spelled_twice_texts]; exact List.mem_cons_of_mem _ List.mem_cons_self)
  exact absurd values (by decide)

end Registry

end Sylar.Config
