import Mathlib.Data.List.Infix
import Sylar.Config.LoadFromYaml

set_option autoImplicit false

namespace Sylar.Config

open Lib (Heap Address)
open Yaml (Exception Node YamlCpp)

-- What loading means, stated without prefixes: every node of the document with
-- the keys that lead to it, in pre-order.
mutual

def paths (node : Node) : List (List String × Node) :=
  ([], node) :: (match node with
    | .map entries => pathsEntries entries
    | _ => [])
termination_by structural node

def pathsEntries : List (Node × Node) → List (List String × Node)
  | [] => []
  | (key, value) :: rest =>
      (paths value).map (fun item => (key.scalarText :: item.1, item.2)) ++ pathsEntries rest
termination_by structural entries => entries

end

mutual

def NamedKeys (node : Node) : Prop :=
  match node with
  | .map entries => NamedEntries entries
  | _ => True
termination_by structural node

def NamedEntries : List (Node × Node) → Prop
  | [] => True
  | (key, value) :: rest =>
      (key.isScalar ∧ key.scalarText ≠ "") ∧ NamedKeys value ∧ NamedEntries rest
termination_by structural entries => entries

end

def joined (path : List String) : String := ".".intercalate path

def openPath (path : List String) : Bool := path.inits.all fun pre => validName (joined pre)

def textsFor (yaml : YamlCpp) (root : Node) (name : String) : List String :=
  ((paths root).filter fun item => openPath item.1 && joined item.1 == name).map
    fun item => Registry.nodeText yaml item.2

-- The names that ListAllMember builds along a path, from a prefix on.
def namesAlong (pfx : String) (path : List String) : String := path.foldl memberName pfx

def openFrom (pfx : String) (path : List String) : Bool := path.inits.all fun pre => validName (namesAlong pfx pre)

def emitted (pfx : String) (item : List String × Node) : Option (String × Node) :=
  if openFrom pfx item.1 then some (namesAlong pfx item.1, item.2) else none

theorem open_from_cons (pfx key : String) (path : List String) :
    openFrom pfx (key :: path) = (validName pfx && openFrom (memberName pfx key) path) := by
  simp [openFrom, List.inits, namesAlong, List.all_map, Function.comp_def]

theorem open_from_valid (pfx : String) (path : List String) (reached : openFrom pfx path) : validName pfx := by
  have all := List.all_eq_true.mp reached
  exact all [] ((List.mem_inits _ _).mpr (List.nil_prefix))

-- Every name on the way is a part of the last one.
theorem open_from_iff (pfx : String) (path : List String) :
    openFrom pfx path = true ↔ validName (namesAlong pfx path) = true := by
  induction path generalizing pfx with
  | nil => simp [openFrom, namesAlong]
  | cons key rest ih =>
      have step := ih (memberName pfx key)
      have along : namesAlong pfx (key :: rest) = namesAlong (memberName pfx key) rest := rfl
      rw [open_from_cons, Bool.and_eq_true, step, along]
      constructor
      · intro reached
        exact reached.2
      · intro valid
        have grown := open_from_valid _ rest (step.mpr valid)
        rw [member_name_valid, Bool.and_eq_true] at grown
        exact ⟨grown.1, valid⟩

theorem emitted_under_key (pfx key : String) (valid : validName pfx) (item : List String × Node) :
    emitted pfx (key :: item.1, item.2) = emitted (memberName pfx key) item := by
  simp only [emitted, open_from_cons, valid, Bool.true_and, namesAlong, List.foldl_cons]

theorem emitted_below_invalid (pfx : String) (invalid : ¬ validName pfx) (items : List (List String × Node)) :
    items.filterMap (emitted pfx) = [] := by
  apply List.filterMap_eq_nil_iff.mpr
  intro item _
  exact if_neg fun reached => invalid (open_from_valid pfx item.1 reached)

-- Both proofs follow the recursion over the nodes; the prefix is carried along.
mutual

theorem list_all_member_paths (pfx : String) (node : Node) :
    listAllMember pfx node = (paths node).filterMap (emitted pfx) := by
  by_cases valid : validName pfx
  · have here : emitted pfx ([], node) = some (pfx, node) := by
      simp [emitted, openFrom, namesAlong, valid]
    cases node with
    | map entries =>
        simp only [listAllMember, if_pos valid, paths, List.filterMap_cons_some here]
        exact congrArg _ (list_entries_paths pfx valid entries)
    | null => simp [listAllMember, valid, paths, here]
    | scalar text => simp [listAllMember, valid, paths, here]
    | sequence items => simp [listAllMember, valid, paths, here]
  · rw [emitted_below_invalid pfx valid]
    cases node <;> simp [listAllMember, valid]

theorem list_entries_paths (pfx : String) (valid : validName pfx) (entries : List (Node × Node)) :
    listEntries pfx entries = (pathsEntries entries).filterMap (emitted pfx) := by
  cases entries with
  | nil => rfl
  | cons entry rest =>
      obtain ⟨key, value⟩ := entry
      have below : (paths value).filterMap (emitted (memberName pfx key.scalarText)) =
          (paths value).filterMap (fun item => emitted pfx (key.scalarText :: item.1, item.2)) :=
        List.filterMap_congr fun item _ => (emitted_under_key pfx key.scalarText valid item).symm
      rw [listEntries, pathsEntries, List.filterMap_append, List.filterMap_map,
        list_all_member_paths (memberName pfx key.scalarText) value, below,
        list_entries_paths pfx valid rest]
      rfl

end

theorem list_all_member_valid (pfx : String) (node : Node) : ∀ item ∈ listAllMember pfx node, validName item.1 := by
  intro item member
  rw [list_all_member_paths] at member
  obtain ⟨⟨path, inner⟩, _, listed⟩ := List.mem_filterMap.mp member
  rw [emitted] at listed
  split at listed
  · rename_i reached
    cases listed
    exact List.all_eq_true.mp reached path ((List.mem_inits _ _).mpr (List.prefix_refl _))
  · cases listed

theorem member_name_nonempty (pfx key : String) (nonempty : pfx ≠ "") : memberName pfx key = pfx ++ ("." ++ key) := by
  simp [memberName, nonempty, String.append_assoc]

theorem names_along_joined (key : String) (path : List String) (nonempty : key ≠ "") :
    namesAlong key path = joined (key :: path) := by
  induction path generalizing key with
  | nil => simp [namesAlong, joined]
  | cons next rest ih =>
      have grown : key ++ ("." ++ next) ≠ "" := by simp [nonempty]
      have step := ih (key ++ ("." ++ next)) grown
      rw [joined, String.intercalate_cons_append, String.intercalate_cons_append] at step
      rw [joined, String.intercalate_cons_cons, String.append_assoc, ← step]
      simp only [namesAlong, List.foldl_cons, member_name_nonempty key next nonempty]

theorem names_along_root (path : List String) (named : ∀ key ∈ path, key ≠ "") : namesAlong "" path = joined path := by
  cases path with
  | nil => rfl
  | cons key rest => exact names_along_joined key rest (named key List.mem_cons_self)

theorem open_from_root (path : List String) (named : ∀ key ∈ path, key ≠ "") : openFrom "" path = openPath path := by
  have same : ∀ pre ∈ path.inits, namesAlong "" pre = joined pre := by
    intro pre member
    have within := ((List.mem_inits _ _).mp member).subset
    exact names_along_root pre fun key later => named key (within later)
  rw [openFrom, openPath, Bool.eq_iff_iff, List.all_eq_true, List.all_eq_true]
  constructor
  · intro all pre member
    rw [← same pre member]
    exact all pre member
  · intro all pre member
    rw [same pre member]
    exact all pre member

mutual

theorem paths_named (node : Node) (named : NamedKeys node) : ∀ item ∈ paths node, ∀ key ∈ item.1, key ≠ "" := by
  cases node with
  | map entries =>
      simp only [NamedKeys] at named
      intro item member
      simp only [paths, List.mem_cons] at member
      rcases member with root | below
      · simp [root]
      · exact paths_entries_named entries named item below
  | null => simp [paths]
  | scalar text => simp [paths]
  | sequence items => simp [paths]

theorem paths_entries_named (entries : List (Node × Node)) (named : NamedEntries entries) :
    ∀ item ∈ pathsEntries entries, ∀ key ∈ item.1, key ≠ "" := by
  cases entries with
  | nil => simp [pathsEntries]
  | cons entry rest =>
      obtain ⟨key, value⟩ := entry
      obtain ⟨keyNamed, valueNamed, restNamed⟩ := named
      intro item member
      simp only [pathsEntries, List.mem_append, List.mem_map] at member
      rcases member with ⟨inner, innerMember, rfl⟩ | later
      · intro other inPath
        rcases List.mem_cons.mp inPath with same | deeper
        · exact same ▸ keyNamed.2
        · exact paths_named value valueNamed inner innerMember other deeper
      · exact paths_entries_named rest restNamed item later

end

theorem list_all_member_root (root : Node) (named : NamedKeys root) :
    listAllMember "" root =
      ((paths root).filter fun item => openPath item.1).map fun item => (joined item.1, item.2) := by
  rw [list_all_member_paths, List.filterMap_congr (g := fun item =>
    if openPath item.1 then some (joined item.1, item.2) else none)]
  · rw [← List.filterMap_eq_map, List.filterMap_filter]
    rfl
  · intro item member
    have keys := paths_named root named item member
    rw [emitted, open_from_root item.1 keys, names_along_root item.1 keys]

namespace Registry

variable {Ty World : Type} {types : Ty → ConfigType}

def valueAt (registry : Registry types World) (pointer : Address) : Option ((ty : Ty) × (types ty).Val) :=
  (registry.vars.read pointer).map fun cell => ⟨cell.1, cell.2.val⟩

def QuietAt (registry : Registry types World) (pointer : Address) : Prop :=
  ∀ cell, registry.vars.read pointer = some cell → cell.2.Quiet

def assignText (value : (ty : Ty) × (types ty).Val) (text : String) : (ty : Ty) × (types ty).Val :=
  ⟨value.1, ConfigVar.assign (types value.1).fromStr value.2 text⟩

theorem from_string_value (registry : Registry types World) (pointer : Address) (text : String)
    (quiet : registry.QuietAt pointer) :
    (registry.fromString pointer text).1.valueAt pointer =
      (registry.valueAt pointer).map fun value => assignText value text := by
  unfold fromString valueAt
  cases read : registry.vars.read pointer with
  | none => simp [read]
  | some cell =>
      simp only [Heap.read_modify_here, read, Option.map_some, assignText]
      rw [ConfigVar.from_string_quiet _ cell.2 text registry.world (quiet cell read)]

theorem from_string_elsewhere (registry : Registry types World) (pointer other : Address) (text : String)
    (different : other ≠ pointer) :
    (registry.fromString pointer text).1.vars.read other = registry.vars.read other := by
  rw [fromString]
  cases registry.vars.read pointer with
  | none => rfl
  | some cell => exact Heap.read_modify_elsewhere registry.vars pointer other _ different

theorem from_string_quiet_at (registry : Registry types World) (pointer other : Address) (text : String)
    (quiet : registry.QuietAt other) : (registry.fromString pointer text).1.QuietAt other := by
  by_cases here : other = pointer
  · subst other
    rw [fromString]
    cases read : registry.vars.read pointer with
    | none => exact quiet
    | some cell =>
        intro updated present
        simp only [Heap.read_modify_here, read, Option.map_some, Option.some.injEq] at present
        subst updated
        have before := quiet cell read
        simpa only [ConfigVar.Quiet, ConfigVar.from_string_cbs] using before
  · intro cell present
    rw [from_string_elsewhere registry pointer other text here] at present
    exact quiet cell present

theorem load_member_own (yaml : YamlCpp) (registry : Registry types World) (name : String) (pointer : Address)
    (node : Node) (valid : validName name) (nonempty : name ≠ "") (stored : registry.datas[name]? = some pointer)
    (quiet : registry.QuietAt pointer) :
    (loadMember yaml registry (name, node)).valueAt pointer =
      (registry.valueAt pointer).map fun value => assignText value (nodeText yaml node) := by
  have found : registry.lookupBase name.toLower = some pointer := by
    rw [valid_name_lower name valid]
    exact stored
  have present : name.isEmpty = false := by simpa using nonempty
  simp only [loadMember, present, Bool.false_eq_true, if_false, found]
  exact from_string_value registry pointer (nodeText yaml node) quiet

theorem load_member_other (yaml : YamlCpp) (registry : Registry types World) (wf : registry.WellFormed)
    (name : String) (pointer : Address) (item : String × Node) (valid : validName item.1)
    (other : item.1 ≠ name ∨ item.1 = "") (stored : registry.datas[name]? = some pointer) :
    (loadMember yaml registry item).valueAt pointer = registry.valueAt pointer := by
  by_cases root : item.1 = ""
  · simp [loadMember, root]
  · have different : item.1 ≠ name := other.resolve_right root
    have present : item.1.isEmpty = false := by simpa using root
    simp only [loadMember, present, Bool.false_eq_true, if_false, valid_name_lower item.1 valid]
    cases found : registry.lookupBase item.1 with
    | none => rfl
    | some target =>
        have apart : pointer ≠ target := by
          intro same
          subst target
          exact different (well_formed_distinct registry wf item.1 name pointer found stored)
        simp only [valueAt, from_string_elsewhere registry target pointer _ apart]

theorem load_member_quiet_at (yaml : YamlCpp) (registry : Registry types World) (item : String × Node)
    (pointer : Address) (quiet : registry.QuietAt pointer) : (loadMember yaml registry item).QuietAt pointer := by
  rw [loadMember]
  split
  · exact quiet
  · split
    · exact quiet
    · exact from_string_quiet_at registry _ pointer _ quiet

def textsAt (yaml : YamlCpp) (name : String) (items : List (String × Node)) : List String :=
  (items.filter fun item => item.1 == name && !item.1.isEmpty).map fun item => nodeText yaml item.2

theorem load_members_value (yaml : YamlCpp) (name : String) (pointer : Address) (items : List (String × Node))
    (registry : Registry types World) (wf : registry.WellFormed) (valid : ∀ item ∈ items, validName item.1)
    (stored : registry.datas[name]? = some pointer) (quiet : registry.QuietAt pointer) :
    (items.foldl (loadMember yaml) registry).valueAt pointer =
      (registry.valueAt pointer).map fun value => (textsAt yaml name items).foldl assignText value := by
  induction items generalizing registry with
  | nil => simp [textsAt]
  | cons item rest ih =>
      have keeps := load_member_keeps yaml registry item
      have headValid := valid item List.mem_cons_self
      have remaining := ih (loadMember yaml registry item) (keeps_well_formed _ _ keeps wf)
        (fun later member => valid later (List.mem_cons_of_mem _ member)) (by rw [keeps.1]; exact stored)
        (load_member_quiet_at yaml registry item pointer quiet)
      rw [List.foldl_cons, remaining]
      by_cases own : item.1 = name ∧ item.1 ≠ ""
      · obtain ⟨key, node⟩ := item
        obtain ⟨same, nonempty⟩ := own
        dsimp only at same nonempty headValid
        subst same
        have hit : textsAt yaml key ((key, node) :: rest) = nodeText yaml node :: textsAt yaml key rest := by
          simp [textsAt, nonempty]
        rw [load_member_own yaml registry key pointer node headValid nonempty stored quiet, hit, Option.map_map]
        rfl
      · have other : item.1 ≠ name ∨ item.1 = "" := by
          by_cases same : item.1 = name
          · exact .inr (not_not.mp fun nonempty => own ⟨same, nonempty⟩)
          · exact .inl same
        have miss : textsAt yaml name (item :: rest) = textsAt yaml name rest := by
          have unmatched : (item.1 == name && !item.1.isEmpty) = false := by
            rcases other with different | empty
            · simp [different]
            · simp [empty]
          simp only [textsAt, List.filter_cons, unmatched, Bool.false_eq_true, if_false]
        rw [load_member_other yaml registry wf name pointer item headValid other stored, miss]

-- The flattened list holds for a name what the document holds for it; the root
-- node has no key, so nothing reaches a variable whose name is empty.
theorem texts_at_root (yaml : YamlCpp) (root : Node) (named : NamedKeys root) (name : String) :
    textsAt yaml name (listAllMember "" root) = if name = "" then [] else textsFor yaml root name := by
  rw [list_all_member_root root named, textsAt, List.filter_map, List.filter_filter, List.map_map]
  split
  · rename_i empty
    rw [List.filter_eq_nil_iff.mpr]
    · rfl
    · intro item _
      by_cases same : joined item.1 = name <;> simp [same, empty]
  · rename_i nonempty
    rw [textsFor]
    congr 1
    apply List.filter_congr
    intro item _
    by_cases same : joined item.1 = name
    · simp [same, nonempty]
    · have unmatched : (joined item.1 == name) = false := by simpa using same
      simp [unmatched]

-- Every registered variable ends as its own texts leave it, one after the other;
-- only the variable with the empty name keeps its value whatever the document is.
theorem load_from_yaml_values (yaml : YamlCpp) (registry : Registry types World) (root : Node)
    (wf : registry.WellFormed) (named : NamedKeys root) (name : String) (pointer : Address)
    (stored : registry.datas[name]? = some pointer) (quiet : registry.QuietAt pointer) :
    (registry.loadFromYaml yaml root).valueAt pointer =
      if name = "" then registry.valueAt pointer
      else (registry.valueAt pointer).map fun value => (textsFor yaml root name).foldl assignText value := by
  rw [loadFromYaml, load_members_value yaml name pointer _ registry wf (list_all_member_valid "" root) stored quiet,
    texts_at_root yaml root named name]
  split
  · simp
  · rfl

def portRegistry (name : String) : Registry (fun _ : Unit => intType) Unit :=
  ((start ()).lookup () name (8080 : Int) "port").1

def portDocument : Node := .map [(.scalar "system", .map [(.scalar "port", .scalar "9090"), (.scalar "Bad", .scalar "1")])]

def portYaml : YamlCpp where
  emit
    | .scalar text => text
    | .map [(.scalar "system", _)] => "system:\n  port: 9090\n  Bad: 1"
    | _ => "port: 9090\nBad: 1"
  load text := .ok (.scalar text)
  asIndex := String.toNat?

theorem port_registry_well_formed (name : String) : (portRegistry name).WellFormed :=
  lookup_well_formed _ () name _ _ (start_well_formed ())

theorem port_registry_quiet (name : String) : (portRegistry name).QuietAt 0 := by
  intro cell present
  have fresh : cell.2.cbs = ∅ := by
    by_cases valid : validName name
    · have read : (portRegistry name).vars.read 0 = some ⟨(), ConfigVar.new name (8080 : Int) "port"⟩ := by
        simp [portRegistry, lookup, start, create, valid, Heap.read, Heap.alloc, Heap.empty]
      cases read.symm.trans present
      rfl
    · simp [portRegistry, lookup, start, create, valid, Heap.read, Heap.empty] at present
  intro entry member
  rw [fresh] at member
  exact absurd member List.not_mem_nil

theorem assign_texts_value (value : (ty : Ty) × (types ty).Val) (texts : List String) :
    texts.foldl assignText value = ⟨value.1, texts.foldl (ConfigVar.assign (types value.1).fromStr) value.2⟩ := by
  induction texts generalizing value with
  | nil => rfl
  | cons text rest ih => rw [List.foldl_cons, ih, assignText, List.foldl_cons]

theorem port_loaded (root : Node) (texts : List String) (value : Int)
    (found : textsAt portYaml "system.port" (listAllMember "" root) = texts)
    (assigned : texts.foldl (ConfigVar.assign lexicalCastInt) (8080 : Int) = value) :
    ((portRegistry "system.port").loadFromYaml portYaml root).valueAt 0 = some ⟨(), value⟩ := by
  subst assigned
  have before : (portRegistry "system.port").valueAt 0 = some ⟨(), (8080 : Int)⟩ := rfl
  rw [loadFromYaml, load_members_value portYaml "system.port" 0 _ _ (port_registry_well_formed _)
    (list_all_member_valid "" root) rfl (port_registry_quiet _), found, before, Option.map_some, assign_texts_value]
  rfl

theorem load_from_yaml_values_port :
    ((portRegistry "system.port").loadFromYaml portYaml portDocument).valueAt 0 = some ⟨(), (9090 : Int)⟩ := by
  have texts : textsFor portYaml portDocument "system.port" = ["9090"] := rfl
  have before : (portRegistry "system.port").valueAt 0 = some ⟨(), (8080 : Int)⟩ := rfl
  have assigned : ConfigVar.assign lexicalCastInt (8080 : Int) "9090" = (9090 : Int) := by decide
  rw [load_from_yaml_values portYaml (portRegistry "system.port") portDocument (port_registry_well_formed _)
    (by simp [portDocument, NamedKeys, NamedEntries, Node.isScalar, Node.scalarText]) "system.port" 0 rfl
    (port_registry_quiet _), if_neg (by decide), texts, before]
  exact congrArg (fun value : Int => some (⟨(), value⟩ : (_ : Unit) × intType.Val)) assigned

-- A variable registered under the empty name has the root as the only node whose
-- keys join to its name, and the loop passes over the root.
theorem empty_name_not_loaded :
    ¬ ∀ (yaml : YamlCpp) (registry : Registry (fun _ : Unit => intType) Unit) (root : Node),
      registry.WellFormed → NamedKeys root → ∀ name pointer, registry.datas[name]? = some pointer →
        registry.QuietAt pointer →
          (registry.loadFromYaml yaml root).valueAt pointer =
            (registry.valueAt pointer).map fun value => (textsFor yaml root name).foldl assignText value := by
  intro claimed
  have loaded := claimed portYaml (portRegistry "") (.scalar "9090") (port_registry_well_formed _)
    (by simp [NamedKeys]) "" 0 rfl (port_registry_quiet _)
  have kept : ((portRegistry "").loadFromYaml portYaml (.scalar "9090")).valueAt 0 = some ⟨(), (8080 : Int)⟩ := rfl
  have before : (portRegistry "").valueAt 0 = some ⟨(), (8080 : Int)⟩ := rfl
  have texts : textsFor portYaml (.scalar "9090") "" = ["9090"] := rfl
  have assigned : ConfigVar.assign lexicalCastInt (8080 : Int) "9090" = (9090 : Int) := by decide
  rw [kept, before, texts] at loaded
  have number : (8080 : Int) = ConfigVar.assign lexicalCastInt (8080 : Int) "9090" :=
    eq_of_heq (Sigma.mk.inj (Option.some.inj loaded)).2
  rw [assigned] at number
  exact absurd number (by decide)

end Registry

end Sylar.Config
