import Mathlib.Data.List.Forall2
import Mathlib.Data.List.Lex
import Mathlib.Data.Prod.Lex
import Mathlib.Order.Defs.LinearOrder
import Sylar.Config.Containers

set_option autoImplicit false

namespace Sylar.Config

open Lib (Ordered)
open Yaml (Entries Exception Node YamlCpp)

-- The values of a C++ type with its operator==, and its operator< where it has one.
structure Carrier (ordered : Bool) where
  Val : Type
  order : ordered = true → LinearOrder Val
  equal : Val → Val → Bool

-- The types built from the fixed-width integers. A set compares its elements,
-- and unordered_map has no operator<; the index says which types have one.
inductive Nesting : Bool → Type where
  | integer (ty : IntType) : Nesting true
  | vector {ordered : Bool} (element : Nesting ordered) : Nesting ordered
  | list {ordered : Bool} (element : Nesting ordered) : Nesting ordered
  | set (element : Nesting true) : Nesting true
  | map {ordered : Bool} (element : Nesting ordered) : Nesting ordered
  | unorderedMap {ordered : Bool} (element : Nesting ordered) : Nesting false

def sameEntry {α : Type} (equal : α → α → Bool) (first second : String × α) : Bool :=
  first.1 == second.1 && equal first.2 second.2

namespace Carrier

instance orderOf (element : Carrier true) : LinearOrder element.Val := element.order rfl

def integer (ty : IntType) : Carrier true where
  Val := ty.Val
  order := fun _ => inferInstanceAs (LinearOrder { n : Int // ty.lo ≤ n ∧ n ≤ ty.hi })
  equal := fun first second => first.1 == second.1

-- std::vector and std::list compare alike, element by element.
def sequence {ordered : Bool} (element : Carrier ordered) : Carrier ordered where
  Val := List element.Val
  order := fun orderly =>
    have := element.order orderly
    inferInstanceAs (LinearOrder (List element.Val))
  equal := fun first second => first.isEqv second element.equal

def set (element : Carrier true) : Carrier true where
  Val := OrderedSet element.Val
  order := fun _ => LinearOrder.lift' Ordered.items Ordered.items_injective
  equal := fun first second => first.items.isEqv second.items element.equal

def entriesLex {α : Type} (m : OrderedMap α) : List (Lex (String × α)) := m.items.map toLex

theorem entries_lex_injective {α : Type} : Function.Injective (entriesLex : OrderedMap α → List (Lex (String × α))) := by
  intro first second same
  exact Ordered.items_injective (List.map_injective_iff.mpr toLex.injective same)

def map {ordered : Bool} (element : Carrier ordered) : Carrier ordered where
  Val := OrderedMap element.Val
  order := fun orderly =>
    have := element.order orderly
    LinearOrder.lift' entriesLex entries_lex_injective
  equal := fun first second => first.items.isEqv second.items (sameEntry element.equal)

def unorderedMap {ordered : Bool} (element : Carrier ordered) : Carrier false where
  Val := UnorderedMap element.Val
  order := fun orderly => nomatch orderly
  equal := fun first second =>
    first.entries.length == second.entries.length &&
      first.entries.all fun entry => second.entries.any (sameEntry element.equal entry)

end Carrier

namespace Nesting

def carrier : {ordered : Bool} → Nesting ordered → Carrier ordered
  | _, .integer ty => .integer ty
  | _, .vector element => .sequence element.carrier
  | _, .list element => .sequence element.carrier
  | _, .set element => .set element.carrier
  | _, .map element => .map element.carrier
  | _, .unorderedMap element => .unorderedMap element.carrier

abbrev Val {ordered : Bool} (nesting : Nesting ordered) : Type := nesting.carrier.Val

def fromString (yaml : YamlCpp) (hashing : Hashing) :
    {ordered : Bool} → (nesting : Nesting ordered) → String → Except Exception nesting.Val
  | _, .integer ty => ty.fromString
  | _, .vector element => vectorFromString yaml (element.fromString yaml hashing)
  | _, .list element => listFromString yaml (element.fromString yaml hashing)
  | _, .set element => setFromString yaml (element.fromString yaml hashing)
  | _, .map element => mapFromString yaml (element.fromString yaml hashing)
  | _, .unorderedMap element => unorderedMapFromString yaml (element.fromString yaml hashing) hashing

def toString (yaml : YamlCpp) : {ordered : Bool} → (nesting : Nesting ordered) → nesting.Val → Except Exception String
  | _, .integer ty => fun v => .ok (ty.toString v)
  | _, .vector element => vectorToString yaml (element.toString yaml)
  | _, .list element => listToString yaml (element.toString yaml)
  | _, .set element => setToString yaml (element.toString yaml)
  | _, .map element => mapToString yaml (element.toString yaml)
  | _, .unorderedMap element => unorderedMapToString yaml (element.toString yaml)

-- The node that toString emits. Without elements the sequence stays null.
def sequenceNode : List Node → Node
  | [] => .null
  | items => .sequence items

def entryNode {α : Type} (node : α → Node) (i : String × α) : Node × Node := (.scalar i.1, node i.2)

def node : {ordered : Bool} → (nesting : Nesting ordered) → nesting.Val → Node
  | _, .integer ty => fun v => .scalar (ty.toString v)
  | _, .vector element => fun (v : List element.Val) => sequenceNode (v.map element.node)
  | _, .list element => fun (v : List element.Val) => sequenceNode (v.map element.node)
  | _, .set element => fun (v : OrderedSet element.Val) => sequenceNode (v.items.map element.node)
  | _, .map element => fun (v : OrderedMap element.Val) => .map (v.items.map (entryNode element.node))
  | _, .unorderedMap element => fun (v : UnorderedMap element.Val) => .map (v.entries.map (entryNode element.node))

end Nesting

-- YAML::Load gives back what was emitted, for the node and every node in it.
mutual

def Reloads (yaml : YamlCpp) (node : Node) : Prop :=
  yaml.load (yaml.emit node) = .ok node ∧
    match node with
    | .sequence items => ItemsReload yaml items
    | .map entries => EntriesReload yaml entries
    | _ => True
termination_by structural node

def ItemsReload (yaml : YamlCpp) : List Node → Prop
  | [] => True
  | item :: rest => Reloads yaml item ∧ ItemsReload yaml rest
termination_by structural items => items

def EntriesReload (yaml : YamlCpp) : List (Node × Node) → Prop
  | [] => True
  | (_, value) :: rest => Reloads yaml value ∧ EntriesReload yaml rest
termination_by structural entries => entries

end

section Reloads

variable (yaml : YamlCpp)

theorem items_reload (items : List Node) (reload : ItemsReload yaml items) : ∀ item ∈ items, Reloads yaml item := by
  induction items with
  | nil => simp
  | cons item rest ih =>
      obtain ⟨here, later⟩ := reload
      intro other member
      rcases List.mem_cons.mp member with same | deeper
      · exact same ▸ here
      · exact ih later other deeper

theorem entries_reload (entries : List (Node × Node)) (reload : EntriesReload yaml entries) :
    ∀ entry ∈ entries, Reloads yaml entry.2 := by
  induction entries with
  | nil => simp
  | cons entry rest ih =>
      obtain ⟨here, later⟩ := reload
      intro other member
      rcases List.mem_cons.mp member with same | deeper
      · exact same ▸ here
      · exact ih later other deeper

theorem reloads_here (node : Node) (reload : Reloads yaml node) : yaml.load (yaml.emit node) = .ok node := by
  cases node <;> exact reload.1

theorem reloads_sequence (items : List Node) (reload : Reloads yaml (Nesting.sequenceNode items)) :
    ∀ item ∈ items, Reloads yaml item := by
  cases items with
  | nil => simp
  | cons item rest => exact items_reload yaml _ reload.2

end Reloads

open Nesting (entryNode sequenceNode)

section Write

variable {α : Type} (yaml : YamlCpp) (toStr : α → Except Exception String) (node : α → Node)

theorem push_back_sequence (items : List Node) (item : Node) :
    pushBack (sequenceNode items) item = sequenceNode (items ++ [item]) := by
  cases items <;> rfl

theorem elements_reload (v : List α) (reload : Reloads yaml (sequenceNode (v.map node))) :
    ∀ i ∈ v, Reloads yaml (node i) := fun _ member =>
  reloads_sequence yaml _ reload _ (List.mem_map_of_mem member)

theorem members_reload (v : List (String × α)) (reload : Reloads yaml (.map (v.map (entryNode node)))) :
    ∀ i ∈ v, Reloads yaml (node i.2) := fun i member =>
  entries_reload yaml _ reload.2 (entryNode node i) (List.mem_map_of_mem member)

theorem write_elements_node (v : List α) (reload : Reloads yaml (sequenceNode (v.map node)))
    (written : ∀ i, Reloads yaml (node i) → toStr i = .ok (yaml.emit (node i))) :
    writeElements yaml toStr v = .ok (yaml.emit (sequenceNode (v.map node))) := by
  have pushed (before : List Node) (inner : ∀ i ∈ v, Reloads yaml (node i)) :
      v.foldlM (fun node i => do return pushBack node (← yaml.load (← toStr i))) (sequenceNode before) =
        Except.ok (sequenceNode (before ++ v.map node)) := by
    clear reload
    induction v generalizing before with
    | nil => exact congrArg (fun items => Except.ok (sequenceNode items)) (List.append_nil before).symm
    | cons i rest ih =>
        have here := inner i List.mem_cons_self
        have next := ih (before ++ [node i]) fun other member => inner other (List.mem_cons_of_mem _ member)
        rw [List.foldlM_cons, written i here, List.map_cons, List.append_cons, ← next, ← push_back_sequence before (node i)]
        simp only [bind, Except.bind, reloads_here yaml (node i) here]
        rfl
  have all := pushed [] (elements_reload yaml node v reload)
  rw [writeElements]
  exact congrArg (fun result : Except Exception Node => result.bind fun node => .ok (yaml.emit node)) all

theorem set_fresh (entries : Entries) (key : String) (value : Node)
    (fresh : ∀ entry ∈ entries, entry.1 ≠ .scalar key) : entries.set key value = entries ++ [(.scalar key, value)] := by
  induction entries with
  | nil => rfl
  | cons entry rest ih =>
      have later := ih fun other member => fresh other (List.mem_cons_of_mem _ member)
      have different := fresh entry List.mem_cons_self
      obtain ⟨name, old⟩ := entry
      cases name with
      | scalar text =>
          have unequal : text ≠ key := fun same => different (by rw [same])
          rw [Entries.set, if_neg unequal, later]
          rfl
      | null => exact congrArg _ later
      | sequence items => exact congrArg _ later
      | map inner => exact congrArg _ later

theorem write_entries_node (v : List (String × α)) (distinct : (v.map Prod.fst).Nodup)
    (reload : Reloads yaml (.map (v.map (entryNode node))))
    (written : ∀ i, Reloads yaml (node i) → toStr i = .ok (yaml.emit (node i))) :
    writeEntries yaml toStr v = .ok (yaml.emit (.map (v.map (entryNode node)))) := by
  have stored (before : List (String × α)) (all : ((before ++ v).map Prod.fst).Nodup)
      (inner : ∀ i ∈ v, Reloads yaml (node i.2)) :
      v.foldlM (fun node i => do return Entries.set node i.1 (← yaml.load (← toStr i.2))) (before.map (entryNode node)) =
        Except.ok ((before ++ v).map (entryNode node)) := by
    clear distinct reload
    induction v generalizing before with
    | nil => exact congrArg (fun items => Except.ok (items.map (entryNode node))) (List.append_nil before).symm
    | cons i rest ih =>
        have here := inner i List.mem_cons_self
        have next := ih (before ++ [i]) (by rwa [List.append_assoc]) fun other member =>
          inner other (List.mem_cons_of_mem _ member)
        have fresh : ∀ entry ∈ before.map (entryNode node), entry.1 ≠ .scalar i.1 := by
          intro entry member same
          obtain ⟨other, within, rfl⟩ := List.mem_map.mp member
          rw [List.map_append, List.nodup_append] at all
          exact all.2.2 other.1 (List.mem_map_of_mem within) i.1 (by simp) (Node.scalar.inj same)
        rw [List.map_append, List.map_singleton] at next
        rw [List.foldlM_cons, written i.2 here, List.append_cons, ← next]
        simp only [bind, Except.bind, reloads_here yaml (node i.2) here]
        rw [set_fresh _ i.1 (node i.2) fresh]
        rfl
  have all := stored [] distinct (members_reload yaml node v reload)
  rw [writeEntries]
  exact congrArg (fun result : Except Exception Entries => result.bind fun node => .ok (yaml.emit (.map node))) all

end Write

section Read

variable {α : Type} (equal : α → α → Bool)

theorem eqv_forall (first second : List α) :
    first.isEqv second equal ↔ List.Forall₂ (fun left right => equal left right) first second := by
  induction first generalizing second with
  | nil => cases second <;> simp
  | cons head rest ih =>
      cases second with
      | nil => simp
      | cons other others => rw [List.isEqv_cons_cons, Bool.and_eq_true, ih, List.forall₂_cons]

theorem eqv_exact (exact : ∀ first second, equal first second → first = second) (first second : List α)
    (same : first.isEqv second equal) : first = second := by
  have equalities := ((eqv_forall equal first second).mp same).imp exact
  rwa [List.forall₂_eq_eq_eq] at equalities

theorem eqv_length (first second : List α) (same : first.isEqv second equal) : first.length = second.length :=
  ((eqv_forall equal first second).mp same).length_eq

theorem eqv_member (first second : List α) (same : first.isEqv second equal) :
    ∀ item ∈ first, ∃ other ∈ second, equal item other := by
  have pairs := (eqv_forall equal first second).mp same
  clear same
  induction pairs with
  | nil => simp
  | cons here _ ih =>
      intro item member
      rcases List.mem_cons.mp member with rfl | later
      · exact ⟨_, List.mem_cons_self, here⟩
      · obtain ⟨other, within, found⟩ := ih item later
        exact ⟨other, List.mem_cons_of_mem _ within, found⟩

theorem eqv_keys (first second : List (String × α)) (same : first.isEqv second (sameEntry equal)) :
    first.map Prod.fst = second.map Prod.fst := by
  have pairs := (eqv_forall (sameEntry equal) first second).mp same
  have keys : List.Forall₂ (fun left right : String × α => left.1 = right.1) first second :=
    pairs.imp fun left right found => by
      simp only [sameEntry, Bool.and_eq_true, beq_iff_eq] at found
      exact found.1
  rw [← List.forall₂_eq_eq_eq, List.forall₂_map_left_iff, List.forall₂_map_right_iff]
  exact keys

theorem same_entry_exact (exact : ∀ first second, equal first second → first = second) (first second : String × α)
    (same : sameEntry equal first second) : first = second := by
  simp only [sameEntry, Bool.and_eq_true, beq_iff_eq] at same
  exact Prod.ext same.1 (exact _ _ same.2)

theorem convert_each (convert : α → Except Exception α) (items : List α)
    (each : ∀ item ∈ items, ∃ read, convert item = .ok read ∧ equal read item) :
    ∃ reads, items.mapM convert = .ok reads ∧ reads.isEqv items equal := by
  induction items with
  | nil => exact ⟨[], rfl, rfl⟩
  | cons item rest ih =>
      obtain ⟨read, converted, same⟩ := each item List.mem_cons_self
      obtain ⟨reads, convertedRest, sameRest⟩ := ih fun other member => each other (List.mem_cons_of_mem _ member)
      refine ⟨read :: reads, ?_, ?_⟩
      · rw [List.mapM_cons, converted, convertedRest]
        rfl
      · rw [List.isEqv_cons_cons, same, sameRest]
        rfl

variable (yaml : YamlCpp) (fromStr : String → Except Exception α) (node : α → Node)

theorem read_elements_node (v : List α) (reload : Reloads yaml (sequenceNode (v.map node)))
    (each : ∀ i, Reloads yaml (node i) → ∃ read, fromStr (yaml.emit (node i)) = .ok read ∧ equal read i) :
    ∃ reads, elements yaml fromStr (yaml.emit (sequenceNode (v.map node))) = .ok reads ∧ reads.isEqv v equal := by
  have inner := elements_reload yaml node v reload
  have loaded := reloads_here yaml _ reload
  cases v with
  | nil =>
      refine ⟨[], ?_, rfl⟩
      rw [elements, loaded]
      rfl
  | cons i rest =>
      rw [elements_sequence yaml fromStr ((i :: rest).map node) _ loaded, List.mapM_map]
      exact convert_each equal _ (i :: rest) fun other member => each other (inner other member)

theorem read_entries_node (v : List (String × α)) (reload : Reloads yaml (.map (v.map (entryNode node))))
    (each : ∀ i, Reloads yaml (node i) → ∃ read, fromStr (yaml.emit (node i)) = .ok read ∧ equal read i) :
    ∃ reads, entries yaml fromStr (yaml.emit (.map (v.map (entryNode node)))) = .ok reads ∧
      reads.isEqv v (sameEntry equal) := by
  have inner := members_reload yaml node v reload
  rw [entries_map yaml fromStr _ _ (reloads_here yaml _ reload), List.mapM_map]
  apply convert_each (sameEntry equal)
  intro i member
  obtain ⟨read, converted, same⟩ := each i.2 (inner i member)
  refine ⟨(i.1, read), ?_, by simp [sameEntry, same]⟩
  simp only [Function.comp_apply, entryNode, Node.scalarText, converted]
  rfl

end Read

-- Of the ordered types operator== is equality itself.
theorem equal_exact {ordered : Bool} (nesting : Nesting ordered) (orderly : ordered = true) (first second : nesting.Val)
    (same : nesting.carrier.equal first second) : first = second := by
  induction nesting with
  | integer ty => exact Subtype.ext (eq_of_beq same)
  | vector element ih => exact eqv_exact _ (fun _ _ => ih orderly _ _) first second same
  | list element ih => exact eqv_exact _ (fun _ _ => ih orderly _ _) first second same
  | set element ih => exact Ordered.items_injective (eqv_exact _ (fun _ _ => ih rfl _ _) _ _ same)
  | map element ih =>
      exact Ordered.items_injective (eqv_exact _ (same_entry_exact _ fun _ _ => ih orderly _ _) _ _ same)
  | unorderedMap element ih => cases orderly

theorem ascending_distinct {α : Type} (v : OrderedMap α) : (v.items.map Prod.fst).Nodup :=
  (List.pairwise_map.mpr v.ascending).imp fun less => ne_of_lt less

theorem ascending_keys {α : Type} (reads : List (String × α)) (v : OrderedMap α)
    (keys : reads.map Prod.fst = v.items.map Prod.fst) : Lib.Ascending Prod.fst reads := by
  have strings : (reads.map Prod.fst).Pairwise (· < ·) := by
    rw [keys]
    exact List.pairwise_map.mpr v.ascending
  exact List.pairwise_map.mp strings

-- The rebuilt table is an arrangement of the entries that were read.
theorem unordered_map_equal {α : Type} (hashing : Hashing) (equal : α → α → Bool) (reads : List (String × α))
    (v : UnorderedMap α) (same : reads.isEqv v.entries (sameEntry equal)) :
    ((UnorderedMap.ofList hashing reads).entries.length == v.entries.length &&
      (UnorderedMap.ofList hashing reads).entries.all fun entry => v.entries.any (sameEntry equal entry)) = true := by
  have distinct : (reads.map Prod.fst).Nodup := by
    rw [eqv_keys equal reads _ same]
    exact v.distinct
  have inserted : reads.foldl UnorderedMap.insertEntry [] = reads := UnorderedMap.insert_entries_fresh reads [] distinct
  have arranged : (UnorderedMap.ofList hashing reads).entries.Perm reads := (hashing.perm _).trans (.of_eq inserted)
  rw [Bool.and_eq_true, beq_iff_eq, arranged.length_eq, List.all_eq_true]
  refine ⟨eqv_length _ reads _ same, ?_⟩
  intro entry member
  obtain ⟨other, within, found⟩ := eqv_member _ reads _ same entry (arranged.mem_iff.mp member)
  exact List.any_eq_true.mpr ⟨other, within, found⟩

section RoundTrip

variable (yaml : YamlCpp) (hashing : Hashing) (plain : ∀ n : Int, yaml.emit (.scalar n.repr) = n.repr)

include plain

theorem to_string_node {ordered : Bool} (nesting : Nesting ordered) (v : nesting.Val)
    (reload : Reloads yaml (nesting.node v)) : nesting.toString yaml v = .ok (yaml.emit (nesting.node v)) := by
  induction nesting with
  | integer ty => exact congrArg Except.ok (plain v.1).symm
  | vector element ih => exact write_elements_node yaml _ element.node v reload ih
  | list element ih => exact write_elements_node yaml _ element.node v reload ih
  | set element ih => exact write_elements_node yaml _ element.node (Ordered.items v) reload ih
  | map element ih => exact write_entries_node yaml _ element.node (Ordered.items v) (ascending_distinct v) reload ih
  | unorderedMap element ih => exact write_entries_node yaml _ element.node v.entries v.distinct reload ih

theorem from_string_node {ordered : Bool} (nesting : Nesting ordered) (v : nesting.Val)
    (reload : Reloads yaml (nesting.node v)) :
    ∃ read, nesting.fromString yaml hashing (yaml.emit (nesting.node v)) = .ok read ∧ nesting.carrier.equal read v := by
  induction nesting with
  | integer ty =>
      have text : yaml.emit ((Nesting.integer ty).node v) = ty.toString v := plain v.1
      refine ⟨v, ?_, beq_self_eq_true v.1⟩
      rw [text]
      exact int_from_to_string ty v
  | vector element ih => exact read_elements_node _ yaml _ element.node v reload ih
  | list element ih => exact read_elements_node _ yaml _ element.node v reload ih
  | set element ih =>
      obtain ⟨reads, converted, same⟩ := read_elements_node _ yaml _ element.node (Ordered.items v) reload ih
      have exact : reads = Ordered.items v := eqv_exact _ (equal_exact element rfl) reads _ same
      let rebuild : List element.Val → OrderedSet element.Val := Ordered.ofList
      have rebuilt : rebuild reads = v := by
        rw [exact]
        exact Ordered.of_list_items v
      refine ⟨v, ?_, ?_⟩
      · exact (congrArg (Except.map rebuild) converted).trans (congrArg Except.ok rebuilt)
      · rw [exact] at same
        exact same
  | map element ih =>
      obtain ⟨reads, converted, same⟩ := read_entries_node _ yaml _ element.node (Ordered.items v) reload ih
      let rebuild : List (String × element.Val) → OrderedMap element.Val := Ordered.ofList
      refine ⟨rebuild reads, congrArg (Except.map rebuild) converted, ?_⟩
      have ascending : Lib.Ascending Prod.fst reads := ascending_keys reads v (eqv_keys _ reads _ same)
      exact (congrArg (fun items => items.isEqv (Ordered.items v) (sameEntry element.carrier.equal))
        (Ordered.of_list_ascending reads ascending)).trans same
  | unorderedMap element ih =>
      obtain ⟨reads, converted, same⟩ := read_entries_node _ yaml _ element.node v.entries reload ih
      refine ⟨UnorderedMap.ofList hashing reads, congrArg (Except.map (UnorderedMap.ofList hashing)) converted, ?_⟩
      exact unordered_map_equal hashing _ reads v same

end RoundTrip

theorem container_round_trip (yaml : YamlCpp) (hashing : Hashing)
    (plain : ∀ n : Int, yaml.emit (.scalar n.repr) = n.repr) {ordered : Bool} (nesting : Nesting ordered) (v : nesting.Val)
    (reload : Reloads yaml (nesting.node v)) :
    ∃ read, (nesting.toString yaml v).bind (nesting.fromString yaml hashing) = .ok read ∧ nesting.carrier.equal read v := by
  rw [to_string_node yaml plain nesting v reload]
  exact from_string_node yaml hashing plain nesting v reload

def int16 : IntType := ⟨true, 16, by decide⟩

def vectorMap : Nesting true := .map (.vector (.integer int16))

def five : int16.Val := ⟨5, by decide⟩

-- {"": {}, "a": {5}}
def emptyAndFive : vectorMap.Val := (⟨[("", []), ("a", [five])], List.pairwise_pair.mpr (by decide)⟩ : OrderedMap (List int16.Val))

def nestedYaml : YamlCpp where
  emit
    | .scalar text => text
    | .null => "~"
    | .sequence _ => "- 5"
    | .map _ => "\"\": ~\na:\n  - 5"
  load
    | "5" => .ok (.scalar "5")
    | "~" => .ok .null
    | "- 5" => .ok (.sequence [.scalar "5"])
    | _ => .ok (.map [(.scalar "", .null), (.scalar "a", .sequence [.scalar "5"])])
  asIndex := String.toNat?

def insertionOrder : Hashing := ⟨fun entries => entries, fun _ => .refl _⟩

theorem container_round_trip_map :
    ∃ read, (vectorMap.toString nestedYaml emptyAndFive).bind (vectorMap.fromString nestedYaml insertionOrder) = .ok read ∧
      vectorMap.carrier.equal read emptyAndFive :=
  container_round_trip nestedYaml insertionOrder (fun _ => rfl) vectorMap emptyAndFive
    ⟨rfl, ⟨rfl, trivial⟩, ⟨rfl, ⟨rfl, trivial⟩, trivial⟩, trivial⟩

end Sylar.Config
