import Mathlib.Data.List.TakeWhile
import Sylar.Config.Containers
import Sylar.Config.Reload

set_option autoImplicit false

namespace Sylar.Config

open Lib (Address Heap Ordered)
open Yaml (Exception Node YamlCpp)

-- The containers of strings that a ConfigVar is instantiated with.
inductive StringContainer where
  | vector
  | list
  | map
deriving DecidableEq, Repr

namespace StringContainer

def Val : StringContainer → Type
  | .vector => List String
  | .list => List String
  | .map => OrderedMap String

instance decidableVal : (container : StringContainer) → DecidableEq container.Val
  | .vector => inferInstanceAs (DecidableEq (List String))
  | .list => inferInstanceAs (DecidableEq (List String))
  | .map => fun first second => decidable_of_iff (first.items = second.items) Ordered.items_injective.eq_iff

-- boost::lexical_cast<std::string> of a string copies it.
def lexicalCastString (text : String) : Except Exception String := .ok text

def fromString (yaml : YamlCpp) : (container : StringContainer) → String → Except Exception container.Val
  | .vector => vectorFromString yaml lexicalCastString
  | .list => listFromString yaml lexicalCastString
  | .map => mapFromString yaml lexicalCastString

def type (yaml : YamlCpp) (container : StringContainer) : ConfigType :=
  ⟨container.Val, inferInstance, container.fromString yaml⟩

-- The document that spells out a value: the sequence or the map of its scalars.
def node : (container : StringContainer) → container.Val → Node
  | .vector, (texts : List String) => .sequence (texts.map .scalar)
  | .list, (texts : List String) => .sequence (texts.map .scalar)
  | .map, (texts : OrderedMap String) => .map (texts.items.map fun entry => (.scalar entry.1, .scalar entry.2))

-- The strings that pass through the emitter one by one. Keys are not among them.
def scalars : (container : StringContainer) → container.Val → List String
  | .vector, (texts : List String) => texts
  | .list, (texts : List String) => texts
  | .map, (texts : OrderedMap String) => texts.items.map Prod.snd

def emitEntry (yaml : YamlCpp) (entry : String × String) : String × String := (entry.1, yaml.emit (.scalar entry.2))

theorem emit_entries_ascending (yaml : YamlCpp) (items : List (String × String)) (ascending : Lib.Ascending Prod.fst items) :
    Lib.Ascending Prod.fst (items.map (emitEntry yaml)) :=
  List.pairwise_map.mpr ascending

-- What the document of a value reads as: every element in the emitter's spelling.
def reread (yaml : YamlCpp) : (container : StringContainer) → container.Val → container.Val
  | .vector, (texts : List String) => texts.map fun text => yaml.emit (.scalar text)
  | .list, (texts : List String) => texts.map fun text => yaml.emit (.scalar text)
  | .map, (texts : OrderedMap String) =>
      (⟨texts.items.map (emitEntry yaml), emit_entries_ascending yaml texts.items texts.ascending⟩ : OrderedMap String)

theorem node_not_scalar (container : StringContainer) (value : container.Val) : (container.node value).isScalar = false := by
  cases container <;> rfl

theorem elements_reread (yaml : YamlCpp) (texts : List String) (v : String)
    (loaded : yaml.load v = .ok (.sequence (texts.map .scalar))) :
    elements yaml lexicalCastString v = .ok (texts.map fun text => yaml.emit (.scalar text)) := by
  rw [elements_sequence yaml lexicalCastString _ v loaded, List.mapM_map]
  exact map_each_ok _ _ texts fun _ _ => rfl

theorem entries_reread (yaml : YamlCpp) (items : List (String × String)) (v : String)
    (loaded : yaml.load v = .ok (.map (items.map fun entry => (.scalar entry.1, .scalar entry.2)))) :
    entries yaml lexicalCastString v = .ok (items.map (emitEntry yaml)) := by
  rw [entries_map yaml lexicalCastString _ v loaded, List.mapM_map]
  exact map_each_ok _ _ items fun _ _ => rfl

theorem from_string_reread (yaml : YamlCpp) (container : StringContainer) (value : container.Val) (v : String)
    (loaded : yaml.load v = .ok (container.node value)) :
    container.fromString yaml v = .ok (container.reread yaml value) := by
  cases container with
  | vector => exact elements_reread yaml value v loaded
  | list => exact elements_reread yaml value v loaded
  | map =>
      have converted := entries_reread yaml _ v loaded
      have ordered := Ordered.of_list_items (reread yaml .map value)
      rw [fromString, mapFromString, converted]
      exact congrArg Except.ok ordered

theorem map_fixed_iff {α : Type} (items : List α) (change : α → α) :
    items.map change = items ↔ ∀ item ∈ items, change item = item := by
  have fixed : items.map change = items.map id ↔ ∀ item ∈ items, change item = id item := List.map_inj_left
  rwa [List.map_id] at fixed

theorem emit_entry_fixed_iff (yaml : YamlCpp) (entry : String × String) :
    emitEntry yaml entry = entry ↔ yaml.emit (.scalar entry.2) = entry.2 := by
  simp [emitEntry, Prod.ext_iff]

theorem reread_iff (yaml : YamlCpp) (container : StringContainer) (value : container.Val) :
    container.reread yaml value = value ↔ ∀ text ∈ container.scalars value, yaml.emit (.scalar text) = text := by
  cases container with
  | vector => exact map_fixed_iff _ _
  | list => exact map_fixed_iff _ _
  | map =>
      have texts : (reread yaml .map value = value) ↔ (Ordered.items value).map (emitEntry yaml) = Ordered.items value :=
        Ordered.items_injective.eq_iff.symm
      rw [texts, map_fixed_iff]
      simp only [emit_entry_fixed_iff, scalars, List.mem_map, forall_exists_index, and_imp, forall_apply_eq_imp_iff₂]

end StringContainer

theorem filter_single {α : Type} (p : α → Bool) (items : List α) (item : α) (single : items.filter p = [item]) :
    ∃ after, items = (items.takeWhile fun other => !p other) ++ item :: after ∧ p item ∧ ∀ other ∈ after, p other = false := by
  induction items with
  | nil => cases single
  | cons head rest ih =>
      cases found : p head with
      | true =>
          rw [List.filter_cons_of_pos found] at single
          obtain ⟨rfl, others⟩ := List.cons.inj single
          refine ⟨rest, by simp [found], found, fun other member => ?_⟩
          simpa using List.filter_eq_nil_iff.mp others other member
      | false =>
          rw [List.filter_cons_of_neg (by simp [found])] at single
          obtain ⟨after, split, hit, missed⟩ := ih single
          refine ⟨after, ?_, hit, missed⟩
          simpa [found] using split

namespace Registry

variable {Ty World : Type} {types : Ty → ConfigType}

-- In the document the name stands for the node, once.
def Maps (root : Node) (name : String) (node : Node) : Prop :=
  ((listAllMember "" root).filter fun item => item.1 == name) = [(name, node)]

-- The state in which the loop over all_nodes comes to the name.
def arriving (yaml : YamlCpp) (registry : Registry types World) (root : Node) (name : String) : Registry types World :=
  ((listAllMember "" root).takeWhile fun item => !(item.1 == name)).foldl (loadMember yaml) registry

theorem reached_other (registry : Registry types World) (wf : registry.WellFormed) (name : String) (pointer : Address)
    (item : String × Node) (valid : validName item.1) (other : item.1 ≠ name)
    (stored : registry.datas[name]? = some pointer) : registry.reached item ≠ some pointer := by
  rw [reached, valid_name_lower item.1 valid]
  split
  · simp
  · intro found
    exact other (well_formed_distinct registry wf item.1 name pointer found stored)

theorem load_others_read (yaml : YamlCpp) (items : List (String × Node)) (registry : Registry types World)
    (wf : registry.WellFormed) (name : String) (pointer : Address) (valid : ∀ item ∈ items, validName item.1)
    (others : ∀ item ∈ items, (item.1 == name) = false) (stored : registry.datas[name]? = some pointer) :
    (items.foldl (loadMember yaml) registry).vars.read pointer = registry.vars.read pointer := by
  induction items generalizing registry with
  | nil => rfl
  | cons item rest ih =>
      have keeps := load_member_keeps yaml registry item
      have different : item.1 ≠ name := by simpa using others item List.mem_cons_self
      rw [List.foldl_cons, ih (loadMember yaml registry item) (keeps_well_formed _ _ keeps wf)
        (fun later member => valid later (List.mem_cons_of_mem _ member))
        (fun later member => others later (List.mem_cons_of_mem _ member)) (by rw [keeps.1]; exact stored)]
      exact load_member_elsewhere yaml registry item pointer
        (reached_other registry wf name pointer item (valid item List.mem_cons_self) different stored)

theorem member_name_longer (name key : String) (nonempty : name ≠ "") : memberName name key ≠ name := by
  rw [member_name_nonempty name key nonempty]
  intro same
  have length := congrArg String.length same
  simp [String.length_append] at length

theorem list_entries_longer (name : String) (nonempty : name ≠ "") (items : List (String × String)) :
    ∀ item ∈ listEntries name (items.map fun entry => (.scalar entry.1, .scalar entry.2)), item.1 ≠ name := by
  induction items with
  | nil => simp [listEntries]
  | cons entry rest ih =>
      intro item member
      simp only [List.map_cons, listEntries, List.mem_append] at member
      rcases member with here | later
      · simp only [listAllMember] at here
        split at here
        · rw [List.mem_singleton.mp here]
          exact member_name_longer name _ nonempty
        · cases here
      · exact ih item later

theorem maps_flat (name : String) (valid : validName name) (nonempty : name ≠ "") (container : StringContainer)
    (value : container.Val) :
    Maps (.map [(.scalar name, container.node value)]) name (container.node value) := by
  have key : memberName "" name = name := rfl
  have top : ("" == name) = false := by simpa using Ne.symm nonempty
  have root : validName "" = true := rfl
  simp only [Maps, listAllMember, root, if_true, listEntries, Node.scalarText, key, List.append_nil, List.filter_cons, top,
    Bool.false_eq_true, if_false]
  have own : (listAllMember name (container.node value)).filter (fun item => item.1 == name) =
      [(name, container.node value)] := by
    cases container with
    | vector => simp [StringContainer.node, listAllMember, valid]
    | list => simp [StringContainer.node, listAllMember, valid]
    | map =>
        have others := list_entries_longer name nonempty (Ordered.items value)
        simp only [StringContainer.node, listAllMember, valid, if_true, List.filter_cons, beq_self_eq_true]
        rw [List.filter_eq_nil_iff.mpr fun item member => by simpa using others item member]
  exact own

section Mapped

variable (yaml : YamlCpp) (registry : Registry types World) (root : Node) (name : String) (pointer : Address) (node : Node)
  (wf : registry.WellFormed) (stored : registry.datas[name]? = some pointer) (mapped : Maps root name node)

include wf stored mapped

-- Of the whole load only the round for the name touches the variable.
theorem load_mapped_read :
    (registry.loadFromYaml yaml root).vars.read pointer =
        (loadMember yaml (registry.arriving yaml root name) (name, node)).vars.read pointer ∧
      (registry.arriving yaml root name).vars.read pointer = registry.vars.read pointer ∧
      (registry.arriving yaml root name).datas = registry.datas := by
  obtain ⟨after, split, -, missed⟩ := filter_single _ _ _ mapped
  have valid := list_all_member_valid "" root
  rw [split] at valid
  have arrived := load_members_keep yaml registry ((listAllMember "" root).takeWhile fun item => !(item.1 == name))
  have own := load_member_keeps yaml (registry.arriving yaml root name) (name, node)
  have both := keeps_trans _ _ _ arrived own
  refine ⟨?_, ?_, arrived.1⟩
  · have run : registry.loadFromYaml yaml root =
        after.foldl (loadMember yaml) (loadMember yaml (registry.arriving yaml root name) (name, node)) := by
      rw [loadFromYaml, split, List.foldl_append, List.foldl_cons]
      rfl
    rw [run]
    exact load_others_read yaml after _ (keeps_well_formed _ _ both wf) name pointer
      (fun item member => valid item (List.mem_append_right _ (List.mem_cons_of_mem _ member))) missed
      (by rw [both.1]; exact stored)
  · apply load_others_read yaml _ registry wf name pointer _ _ stored
    · exact fun item member => valid item (List.mem_append_left _ member)
    · intro item member
      simpa using List.mem_takeWhile_imp member

theorem load_mapped_value (cell : AnyVar types World) (read : registry.vars.read pointer = some cell) (nonempty : name ≠ "") :
    (registry.loadFromYaml yaml root).vars.read pointer =
      some ⟨cell.1, (cell.2.fromString (types cell.1).fromStr (nodeText yaml node)
        (registry.arriving yaml root name).world).1⟩ := by
  obtain ⟨loaded, before, datas⟩ := load_mapped_read yaml registry root name pointer node wf stored mapped
  obtain ⟨after, split, -, -⟩ := filter_single _ _ _ mapped
  have valid : validName name := by
    apply list_all_member_valid "" root (name, node)
    rw [split]
    exact List.mem_append_right _ List.mem_cons_self
  have found : (registry.arriving yaml root name).reached (name, node) = some pointer := by
    have present : name.isEmpty = false := by simpa using nonempty
    simpa [reached, present, valid_name_lower name valid, lookupBase, datas] using stored
  rw [loaded, load_member_reached, found]
  simp only
  rw [from_string_cell _ pointer _ cell (before.trans read) _ rfl, Heap.read_modify_here, before, read]
  rfl

theorem load_unnamed_value (unnamed : name = "") :
    (registry.loadFromYaml yaml root).vars.read pointer = registry.vars.read pointer := by
  obtain ⟨loaded, before, -⟩ := load_mapped_read yaml registry root name pointer node wf stored mapped
  rw [loaded, ← before, loadMember, if_pos (by simp [unnamed])]

end Mapped

end Registry

theorem ConfigVar.set_value_agreed {Val World : Type} [BEq Val] [LawfulBEq Val] (var : ConfigVar Val World) (new : Val)
    (world : World) (agreed : ¬ var.Vetoed new world) : (var.setValue new world).1.val = new := by
  have returned := mt (set_value_thrown_iff var new world).mp agreed
  revert returned
  rw [setValue]
  split
  · rename_i same
    exact fun _ => eq_of_beq same
  · split
    · exact fun _ => rfl
    · simp

section Verbatim

variable {Other World : Type}

-- The containers of strings, and any other types that the registry holds.
def withStrings (yaml : YamlCpp) (others : Other → ConfigType) : StringContainer ⊕ Other → ConfigType
  | .inl container => container.type yaml
  | .inr other => others other

variable (yaml : YamlCpp) (others : Other → ConfigType) (registry : Registry (withStrings yaml others) World) (root : Node)
  (name : String) (container : StringContainer) (var : ConfigVar container.Val World) (value : container.Val)

-- The loop passes over an empty key, and a listener that throws keeps the old value.
def PassedOver : Prop :=
  name = "" ∨ var.Vetoed (container.reread yaml value) (registry.arriving yaml root name).world

theorem silent_not_passed (nonempty : name ≠ "") (silent : var.cbs.toList = []) :
    ¬ PassedOver yaml others registry root name container var value := by
  intro passed
  rcases passed with unnamed | vetoed
  · exact nonempty unnamed
  · exact ConfigVar.vetoed_listener var _ _ vetoed silent

theorem value_at_own (current : Registry (withStrings yaml others) World) (pointer : Address)
    (read : current.vars.read pointer = some ⟨.inl container, var⟩) :
    current.valueAt pointer = some ⟨.inl container, value⟩ ↔ var.val = value := by
  rw [Registry.valueAt, read]
  constructor
  · intro same
    exact eq_of_heq (Sigma.mk.inj (Option.some.inj same)).2
  · intro same
    subst same
    rfl

section Mapped

variable (pointer : Address) (wf : registry.WellFormed) (stored : registry.datas[name]? = some pointer)
  (read : registry.vars.read pointer = some ⟨.inl container, var⟩)
  (mapped : Registry.Maps root name (container.node value))
  (faithful : yaml.load (yaml.emit (container.node value)) = .ok (container.node value))

include wf stored read mapped faithful

theorem load_mapped_var (nonempty : name ≠ "") :
    (registry.loadFromYaml yaml root).vars.read pointer =
      some ⟨.inl container, (var.setValue (container.reread yaml value) (registry.arriving yaml root name).world).1⟩ := by
  have loaded := Registry.load_mapped_value yaml registry root name pointer _ wf stored mapped _ read nonempty
  have text : Registry.nodeText yaml (container.node value) = yaml.emit (container.node value) := by
    rw [Registry.nodeText, container.node_not_scalar value]
    rfl
  have converted := container.from_string_reread yaml value _ faithful
  have run := ConfigVar.from_string_converted (container.fromString yaml) var _ (registry.arriving yaml root name).world _
    converted
  rw [loaded, text]
  exact congrArg (fun next => some (⟨.inl container, next⟩ : AnyVar (withStrings yaml others) World)) (congrArg Prod.fst run)

theorem passed_over_value (passed : PassedOver yaml others registry root name container var value) :
    (registry.loadFromYaml yaml root).vars.read pointer = some ⟨.inl container, var⟩ := by
  by_cases unnamed : name = ""
  · rw [Registry.load_unnamed_value yaml registry root name pointer _ wf stored mapped unnamed, read]
  · rw [load_mapped_var yaml others registry root name container var value pointer wf stored read mapped faithful unnamed,
      ConfigVar.set_value_refused var _ _ (passed.resolve_left unnamed)]

theorem reread_value (taken : ¬ PassedOver yaml others registry root name container var value) :
    ∃ next : ConfigVar container.Val World, next.val = container.reread yaml value ∧
      (registry.loadFromYaml yaml root).vars.read pointer = some ⟨.inl container, next⟩ := by
  obtain ⟨nonempty, agreed⟩ := not_or.mp taken
  exact ⟨_, ConfigVar.set_value_agreed var _ _ agreed,
    load_mapped_var yaml others registry root name container var value pointer wf stored read mapped faithful nonempty⟩

end Mapped

-- Loaded from its own document, a container of strings holds every element as
-- the emitter writes it.
theorem string_elements_iff (pointer : Address) (wf : registry.WellFormed) (stored : registry.datas[name]? = some pointer)
    (read : registry.vars.read pointer = some ⟨.inl container, var⟩)
    (mapped : Registry.Maps root name (container.node value))
    (faithful : yaml.load (yaml.emit (container.node value)) = .ok (container.node value)) :
    (registry.loadFromYaml yaml root).valueAt pointer = some ⟨.inl container, value⟩ ↔
      (PassedOver yaml others registry root name container var value ∧ var.val = value) ∨
        (¬ PassedOver yaml others registry root name container var value ∧
          ∀ text ∈ container.scalars value, yaml.emit (.scalar text) = text) := by
  by_cases passed : PassedOver yaml others registry root name container var value
  · have kept := passed_over_value yaml others registry root name container var value pointer wf stored read mapped faithful
      passed
    rw [value_at_own yaml others container var value _ pointer kept]
    simp [passed]
  · obtain ⟨next, holds, loaded⟩ := reread_value yaml others registry root name container var value pointer wf stored read
      mapped faithful passed
    rw [value_at_own yaml others container next value _ pointer loaded, holds, container.reread_iff yaml value]
    simp [passed]

end Verbatim

-- The two laws of yaml-cpp already make the emitter quote the empty string.
theorem empty_text_quoted (yaml : YamlCpp) (faithful : yaml.load (yaml.emit (.scalar "")) = .ok (.scalar ""))
    (null : yaml.load "" = .ok .null) : yaml.emit (.scalar "") ≠ "" := by
  intro plain
  rw [plain, null] at faithful
  cases faithful

def quotingYaml : YamlCpp where
  emit
    | .scalar "" => "\"\""
    | .scalar text => text
    | .sequence [.scalar ""] => "- \"\""
    | .sequence [.scalar "a", .scalar "b c"] => "- a\n- b c"
    | _ => "~"
  load
    | "" => .ok .null
    | "\"\"" => .ok (.scalar "")
    | "- \"\"" => .ok (.sequence [.scalar ""])
    | "- a\n- b c" => .ok (.sequence [.scalar "a", .scalar "b c"])
    | text => .ok (.scalar text)
  asIndex := String.toNat?

def namesVar : ConfigVar (List String) Unit := ConfigVar.new "system.names" ["b"] "system names"

def namesRegistry : Registry (withStrings quotingYaml Empty.elim) Unit :=
  ((Registry.start ()).lookup (.inl .vector) "system.names" namesVar.val "system names").1

theorem names_registry_well_formed : namesRegistry.WellFormed :=
  Registry.lookup_well_formed _ _ _ _ _ (Registry.start_well_formed ())

theorem string_elements_iff_names :
    (namesRegistry.loadFromYaml quotingYaml (.map [(.scalar "system.names", .sequence [.scalar "a", .scalar "b c"])])).valueAt 0 =
      some ⟨.inl .vector, ["a", "b c"]⟩ := by
  have mapped := Registry.maps_flat "system.names" (by decide) (by decide) .vector ["a", "b c"]
  apply (string_elements_iff quotingYaml Empty.elim namesRegistry _ "system.names" .vector namesVar ["a", "b c"] 0
    names_registry_well_formed rfl rfl mapped rfl).mpr
  refine .inr ⟨silent_not_passed _ _ _ _ _ _ _ _ (by decide) rfl, ?_⟩
  intro text member
  rcases List.mem_pair.mp member with rfl | rfl
  · rfl
  · rfl

theorem empty_string_not_verbatim :
    ¬ ∀ (yaml : YamlCpp) (registry : Registry (withStrings yaml Empty.elim) Unit) (root : Node) (name : String)
        (container : StringContainer) (value : container.Val) (pointer : Address) (var : ConfigVar container.Val Unit),
      yaml.load "" = .ok .null →
        (∀ node, node = container.node value ∨ (∃ text ∈ container.scalars value, node = .scalar text) →
          yaml.load (yaml.emit node) = .ok node) →
        registry.WellFormed → registry.datas[name]? = some pointer →
          registry.vars.read pointer = some ⟨.inl container, var⟩ → Registry.Maps root name (container.node value) →
            (registry.loadFromYaml yaml root).valueAt pointer = some ⟨.inl container, value⟩ := by
  intro claimed
  have mapped := Registry.maps_flat "system.names" (by decide) (by decide) .vector [""]
  have verbatim := claimed quotingYaml namesRegistry _ "system.names" .vector [""] 0 namesVar rfl (by
    intro node involved
    rcases involved with rfl | ⟨text, member, rfl⟩
    · rfl
    · rw [List.mem_singleton.mp member]
      rfl) names_registry_well_formed rfl rfl mapped
  obtain ⟨next, holds, loaded⟩ := reread_value quotingYaml Empty.elim namesRegistry _ "system.names" .vector namesVar [""] 0
    names_registry_well_formed rfl rfl mapped rfl (silent_not_passed _ _ _ _ _ _ _ _ (by decide) rfl)
  have equal := (value_at_own quotingYaml Empty.elim .vector next [""] _ 0 loaded).mp verbatim
  have plain := (StringContainer.reread_iff quotingYaml .vector [""]).mp (holds.symm.trans equal)
  exact empty_text_quoted quotingYaml rfl rfl (plain "" List.mem_cons_self)

end Sylar.Config
