import Sylar.Config.LoadFromYaml
import Sylar.Lib.Acyclic

set_option autoImplicit false

namespace Sylar.Config

open Lib (Descends NoCycle descends_iff_no_cycle)
open Yaml (Node)

-- A node of a loaded document, with references to the nodes it holds.
inductive Content (Ref : Type) where
  | null
  | scalar (text : String)
  | sequence (items : List Ref)
  | map (entries : List (Ref × Ref))
deriving Repr

-- The node graph behind a loaded YAML::Node. An alias is a reference to the node
-- of its anchor, so a map may hold itself.
structure Document where
  size : Nat
  content : Fin size → Content (Fin size)
  root : Fin size

namespace Document

variable (doc : Document)

def scalarText (ref : Fin doc.size) : String :=
  match doc.content ref with
  | .scalar text => text
  | _ => ""

-- ListAllMember on the graph, with a bound on how deep it may call itself; none
-- is a call that the bound cuts off.
def listAllMember : Nat → String → Fin doc.size → Option (List (String × Fin doc.size))
  | 0, _, _ => none
  | depth + 1, pfx, node =>
      if validName pfx then
        match doc.content node with
        | .map entries =>
            (entries.mapM fun entry => listAllMember depth (memberName pfx (doc.scalarText entry.1)) entry.2).map
              fun below => (pfx, node) :: below.flatten
        | _ => some [(pfx, node)]
      else some []

def Returns (depth : Nat) (pfx : String) (node : Fin doc.size) : Prop := (doc.listAllMember depth pfx node).isSome = true

-- The recursion ends on the document.
def Ends : Prop := ∃ depth, doc.Returns depth "" doc.root

-- A map holds the node under a key of accepted characters only.
def Holds (parent child : Fin doc.size) : Prop :=
  ∃ entries, doc.content parent = .map entries ∧
    ∃ entry ∈ entries, validName (doc.scalarText entry.1) = true ∧ entry.2 = child

end Document

section Loops

variable {α β : Type}

theorem map_m_returns (convert : α → Option β) (items : List α) :
    (items.mapM convert).isSome = true ↔ ∀ item ∈ items, (convert item).isSome = true := by
  induction items with
  | nil => simp
  | cons item rest ih =>
      rw [List.mapM_cons, List.forall_mem_cons, ← ih]
      cases convert item with
      | none => simp
      | some value => cases rest.mapM convert <;> simp

theorem map_m_more (convert further : α → Option β) (items : List α) (results : List β)
    (more : ∀ item ∈ items, ∀ value, convert item = some value → further item = some value)
    (converted : items.mapM convert = some results) : items.mapM further = some results := by
  induction items generalizing results with
  | nil => exact converted
  | cons item rest ih =>
      rw [List.mapM_cons] at converted ⊢
      obtain ⟨value, first, converted⟩ := Option.bind_eq_some_iff.mp converted
      obtain ⟨values, others, converted⟩ := Option.bind_eq_some_iff.mp converted
      have later := ih values (fun other member => more other (List.mem_cons_of_mem _ member)) others
      rw [more item List.mem_cons_self value first, later]
      exact converted

-- What each item has at some bound, all items have at one.
theorem common_bound (holds : Nat → α → Prop) (items : List α)
    (grows : ∀ item bound more, bound ≤ more → holds bound item → holds more item)
    (each : ∀ item ∈ items, ∃ bound, holds bound item) : ∃ bound, ∀ item ∈ items, holds bound item := by
  induction items with
  | nil => exact ⟨0, fun item member => absurd member List.not_mem_nil⟩
  | cons item rest ih =>
      obtain ⟨first, here⟩ := each item List.mem_cons_self
      obtain ⟨others, later⟩ := ih fun other member => each other (List.mem_cons_of_mem _ member)
      refine ⟨max first others, fun other member => ?_⟩
      rcases List.mem_cons.mp member with rfl | inRest
      · exact grows other first _ (Nat.le_max_left _ _) here
      · exact grows other others _ (Nat.le_max_right _ _) (later other inRest)

end Loops

namespace Document

variable (doc : Document)

theorem members_invalid (depth : Nat) (pfx : String) (node : Fin doc.size) (invalid : validName pfx = false) :
    doc.listAllMember (depth + 1) pfx node = some [] := by
  simp [listAllMember, invalid]

theorem members_leaf (depth : Nat) (pfx : String) (node : Fin doc.size) (valid : validName pfx = true)
    (leaf : ∀ entries, doc.content node ≠ .map entries) : doc.listAllMember (depth + 1) pfx node = some [(pfx, node)] := by
  rw [listAllMember, if_pos valid]
  split
  · rename_i entries here
    exact absurd here (leaf entries)
  · rfl

theorem members_map (depth : Nat) (pfx : String) (node : Fin doc.size) (entries : List (Fin doc.size × Fin doc.size))
    (valid : validName pfx = true) (here : doc.content node = .map entries) :
    doc.listAllMember (depth + 1) pfx node =
      (entries.mapM fun entry => doc.listAllMember depth (memberName pfx (doc.scalarText entry.1)) entry.2).map
        fun below => (pfx, node) :: below.flatten := by
  rw [listAllMember, if_pos valid, here]

-- A call that returns puts out the same with more room.
theorem members_more (depth : Nat) (pfx : String) (node : Fin doc.size) (found : List (String × Fin doc.size))
    (returns : doc.listAllMember depth pfx node = some found) : doc.listAllMember (depth + 1) pfx node = some found := by
  induction depth generalizing pfx node found with
  | zero => cases returns
  | succ depth ih =>
      cases valid : validName pfx with
      | false =>
          rw [members_invalid doc _ pfx node valid] at returns ⊢
          exact returns
      | true =>
          by_cases leaf : ∀ entries, doc.content node ≠ .map entries
          · rw [members_leaf doc _ pfx node valid leaf] at returns ⊢
            exact returns
          · push Not at leaf
            obtain ⟨entries, here⟩ := leaf
            rw [members_map doc _ pfx node entries valid here] at returns ⊢
            obtain ⟨below, each, rfl⟩ := Option.map_eq_some_iff.mp returns
            have deeper := map_m_more _ (fun entry => doc.listAllMember (depth + 1) (memberName pfx (doc.scalarText entry.1)) entry.2)
              entries below (fun entry _ value => ih _ entry.2 value) each
            rw [deeper, Option.map_some]

theorem members_grow (pfx : String) (node : Fin doc.size) (depth more : Nat) (within : depth ≤ more)
    (found : List (String × Fin doc.size)) (returns : doc.listAllMember depth pfx node = some found) :
    doc.listAllMember more pfx node = some found := by
  induction within with
  | refl => exact returns
  | step _ ih => exact members_more doc _ pfx node found ih

theorem returns_grows (pfx : String) (node : Fin doc.size) (depth more : Nat) (within : depth ≤ more)
    (returns : doc.Returns depth pfx node) : doc.Returns more pfx node := by
  obtain ⟨found, returned⟩ := Option.isSome_iff_exists.mp returns
  rw [Returns, members_grow doc pfx node depth more within found returned]
  rfl

theorem returns_invalid (depth : Nat) (pfx : String) (node : Fin doc.size) (invalid : validName pfx = false) :
    doc.Returns (depth + 1) pfx node := by
  rw [Returns, members_invalid doc depth pfx node invalid]
  rfl

theorem returns_leaf (depth : Nat) (pfx : String) (node : Fin doc.size) (valid : validName pfx = true)
    (leaf : ∀ entries, doc.content node ≠ .map entries) : doc.Returns (depth + 1) pfx node := by
  rw [Returns, members_leaf doc depth pfx node valid leaf]
  rfl

theorem returns_map (depth : Nat) (pfx : String) (node : Fin doc.size) (entries : List (Fin doc.size × Fin doc.size))
    (valid : validName pfx = true) (here : doc.content node = .map entries) :
    doc.Returns (depth + 1) pfx node ↔
      ∀ entry ∈ entries, doc.Returns depth (memberName pfx (doc.scalarText entry.1)) entry.2 := by
  rw [Returns, members_map doc depth pfx node entries valid here, Option.isSome_map]
  exact map_m_returns _ entries

-- A call that returns has looked below every node it holds.
theorem descends_of_returns (depth : Nat) (pfx : String) (node : Fin doc.size) (valid : validName pfx = true)
    (returns : doc.Returns depth pfx node) : Descends doc.Holds node := by
  induction depth generalizing pfx node with
  | zero => cases returns
  | succ depth ih =>
      constructor
      rintro child ⟨entries, here, entry, member, accepted, rfl⟩
      have below := (returns_map doc depth pfx node entries valid here).mp returns entry member
      exact ih _ entry.2 (by rw [member_name_valid, valid]; exact accepted) below

theorem returns_of_descends (node : Fin doc.size) (descends : Descends doc.Holds node) (pfx : String) :
    ∃ depth, doc.Returns depth pfx node := by
  induction descends generalizing pfx with
  | intro node _ ih =>
      cases valid : validName pfx with
      | false => exact ⟨1, returns_invalid doc 0 pfx node valid⟩
      | true =>
          by_cases leaf : ∀ entries, doc.content node ≠ .map entries
          · exact ⟨1, returns_leaf doc 0 pfx node valid leaf⟩
          · push Not at leaf
            obtain ⟨entries, here⟩ := leaf
            have each : ∀ entry ∈ entries, ∃ depth, doc.Returns depth (memberName pfx (doc.scalarText entry.1)) entry.2 := by
              intro entry member
              cases accepted : validName (doc.scalarText entry.1) with
              | false => exact ⟨1, returns_invalid doc 0 _ entry.2 (by rw [member_name_valid, valid]; exact accepted)⟩
              | true => exact ih entry.2 ⟨entries, here, entry, member, accepted, rfl⟩ _
            obtain ⟨depth, all⟩ := common_bound
              (fun depth entry => doc.Returns depth (memberName pfx (doc.scalarText entry.1)) entry.2) entries
              (fun entry => returns_grows doc _ entry.2) each
            exact ⟨depth + 1, (returns_map doc depth pfx node entries valid here).mpr all⟩

-- A tree that the graph unfolds to below a node; a node that is aliased is
-- unfolded at each of its places.
mutual

inductive Represents : Fin doc.size → Node → Prop where
  | null (ref : Fin doc.size) (here : doc.content ref = .null) : Represents ref .null
  | scalar (ref : Fin doc.size) (text : String) (here : doc.content ref = .scalar text) : Represents ref (.scalar text)
  | sequence (ref : Fin doc.size) (refs : List (Fin doc.size)) (items : List Node) (here : doc.content ref = .sequence refs)
      (each : RepresentsItems refs items) : Represents ref (.sequence items)
  | map (ref : Fin doc.size) (pairs : List (Fin doc.size × Fin doc.size)) (entries : List (Node × Node))
      (here : doc.content ref = .map pairs) (each : RepresentsEntries pairs entries) : Represents ref (.map entries)

inductive RepresentsItems : List (Fin doc.size) → List Node → Prop where
  | nil : RepresentsItems [] []
  | cons (ref : Fin doc.size) (refs : List (Fin doc.size)) (item : Node) (items : List Node) (first : Represents ref item)
      (rest : RepresentsItems refs items) : RepresentsItems (ref :: refs) (item :: items)

inductive RepresentsEntries : List (Fin doc.size × Fin doc.size) → List (Node × Node) → Prop where
  | nil : RepresentsEntries [] []
  | cons (key value : Fin doc.size) (pairs : List (Fin doc.size × Fin doc.size)) (name node : Node)
      (entries : List (Node × Node)) (named : Represents key name) (below : Represents value node)
      (rest : RepresentsEntries pairs entries) : RepresentsEntries ((key, value) :: pairs) ((name, node) :: entries)

end

theorem represents_text (ref : Fin doc.size) (node : Node) (rep : doc.Represents ref node) :
    doc.scalarText ref = node.scalarText := by
  cases rep with
  | null _ here => rw [scalarText, here]; rfl
  | scalar _ text here => rw [scalarText, here]; rfl
  | sequence _ refs items here => rw [scalarText, here]; rfl
  | map _ pairs entries here => rw [scalarText, here]; rfl

-- The same members under the same names.
def SameMembers (found : List (String × Fin doc.size)) (members : List (String × Node)) : Prop :=
  List.Forall₂ (fun item member => item.1 = member.1 ∧ doc.Represents item.2 member.2) found members

theorem leaf_same_members (ref : Fin doc.size) (node : Node) (rep : doc.Represents ref node) (pfx : String)
    (leaf : ∀ entries, doc.content ref ≠ .map entries) (tree : ∀ entries, node ≠ .map entries) :
    ∃ depth found, doc.listAllMember depth pfx ref = some found ∧ doc.SameMembers found (Config.listAllMember pfx node) := by
  cases valid : validName pfx with
  | false =>
      refine ⟨1, [], members_invalid doc 0 pfx ref valid, ?_⟩
      have none : Config.listAllMember pfx node = [] := by cases node <;> simp [Config.listAllMember, valid]
      rw [none]
      exact .nil
  | true =>
      refine ⟨1, [(pfx, ref)], members_leaf doc 0 pfx ref valid leaf, ?_⟩
      have one : Config.listAllMember pfx node = [(pfx, node)] := by
        cases node with
        | map entries => exact absurd rfl (tree entries)
        | _ => simp [Config.listAllMember, valid]
      rw [one]
      exact .cons ⟨rfl, rep⟩ .nil

mutual

theorem represented_returns (ref : Fin doc.size) (node : Node) (rep : doc.Represents ref node) (pfx : String) :
    ∃ depth found, doc.listAllMember depth pfx ref = some found ∧ doc.SameMembers found (Config.listAllMember pfx node) := by
  cases rep with
  | null _ here => exact leaf_same_members doc ref _ (.null ref here) pfx (by simp [here]) (by simp)
  | scalar _ text here => exact leaf_same_members doc ref _ (.scalar ref text here) pfx (by simp [here]) (by simp)
  | sequence _ refs items here each =>
      exact leaf_same_members doc ref _ (.sequence ref refs items here each) pfx (by simp [here]) (by simp)
  | map _ pairs entries here each =>
      cases valid : validName pfx with
      | false =>
          refine ⟨1, [], members_invalid doc 0 pfx ref valid, ?_⟩
          have none : Config.listAllMember pfx (.map entries) = [] := by simp [Config.listAllMember, valid]
          rw [none]
          exact .nil
      | true =>
          obtain ⟨depth, found, returned, same⟩ := represented_entries_return pairs entries each pfx
          refine ⟨depth + 1, (pfx, ref) :: found.flatten, ?_, ?_⟩
          · rw [members_map doc depth pfx ref pairs valid here, returned, Option.map_some]
          · have members : Config.listAllMember pfx (.map entries) = (pfx, .map entries) :: listEntries pfx entries := by
              simp [Config.listAllMember, valid]
            rw [members]
            exact .cons ⟨rfl, .map ref pairs entries here each⟩ same

theorem represented_entries_return (pairs : List (Fin doc.size × Fin doc.size)) (entries : List (Node × Node))
    (rep : doc.RepresentsEntries pairs entries) (pfx : String) :
    ∃ depth found,
      (pairs.mapM fun entry => doc.listAllMember depth (memberName pfx (doc.scalarText entry.1)) entry.2) = some found ∧
      doc.SameMembers found.flatten (listEntries pfx entries) := by
  cases rep with
  | nil => exact ⟨0, [], rfl, .nil⟩
  | cons key value rest name node others named below later =>
      obtain ⟨depth, members, returned, same⟩ := represented_returns value node below (memberName pfx name.scalarText)
      obtain ⟨further, found, all, sameRest⟩ := represented_entries_return rest others later pfx
      have text := doc.represents_text key name named
      have first := members_grow doc _ value depth (max depth further) (Nat.le_max_left _ _) members returned
      have behind := map_m_more _
        (fun entry => doc.listAllMember (max depth further) (memberName pfx (doc.scalarText entry.1)) entry.2) rest found
        (fun entry _ => members_grow doc _ entry.2 further (max depth further) (Nat.le_max_right _ _)) all
      refine ⟨max depth further, members :: found, ?_, ?_⟩
      · rw [List.mapM_cons, text, first, behind]
        rfl
      · rw [List.flatten_cons, listEntries]
        exact List.rel_append same sameRest

end

theorem ends_iff_no_cycle : doc.Ends ↔ NoCycle doc.Holds doc.root := by
  rw [← descends_iff_no_cycle]
  constructor
  · intro ends
    obtain ⟨depth, returns⟩ := ends
    exact descends_of_returns doc depth "" doc.root rfl returns
  · intro descends
    exact returns_of_descends doc doc.root descends ""

end Document

-- &a {x: *a}
def holdsItself : Document where
  size := 2
  content ref := if ref = 0 then .map [(1, 0)] else .scalar "x"
  root := 0

theorem self_alias_never_ends : ¬ ∀ doc : Document, doc.Ends := by
  intro ends
  obtain ⟨depth, returns⟩ := ends holdsItself
  have descends := holdsItself.descends_of_returns depth "" holdsItself.root rfl returns
  have holds : holdsItself.Holds holdsItself.root holdsItself.root :=
    ⟨[((1 : Fin 2), (0 : Fin 2))], rfl, ((1 : Fin 2), (0 : Fin 2)), List.mem_singleton.mpr rfl, by decide, rfl⟩
  exact Lib.acc_irreflexive _ _ descends holds

end Sylar.Config
