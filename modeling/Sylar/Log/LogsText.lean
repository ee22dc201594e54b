import Sylar.Log.LogIniter

set_option autoImplicit false

namespace Sylar.Log

open Yaml (Exception Node YamlCpp)

theorem bind_ok {α β : Type} (first : Except Exception α) (rest : α → Except Exception β) (result : β)
    (completed : (first >>= rest) = .ok result) : ∃ value, first = .ok value ∧ rest value = .ok result := by
  cases first with
  | error thrown => cases completed
  | ok value => exact ⟨value, rfl, completed⟩

namespace LogDefine

theorem decode_appender_known (a : Node) (read : LogAppenderDefine) (decoded : decodeAppender a = .ok (some read)) :
    read.type = 1 ∨ read.type = 2 := by
  obtain ⟨typeNode, -, decoded⟩ := bind_ok _ _ _ decoded
  split at decoded
  · cases decoded
  · obtain ⟨type, -, decoded⟩ := bind_ok _ _ _ decoded
    split at decoded
    · obtain ⟨fileNode, -, decoded⟩ := bind_ok _ _ _ decoded
      split at decoded
      · cases decoded
      · obtain ⟨file, -, decoded⟩ := bind_ok _ _ _ decoded
        obtain ⟨formatter, -, decoded⟩ := bind_ok _ _ _ decoded
        obtain ⟨level, -, decoded⟩ := bind_ok _ _ _ decoded
        cases decoded
        exact .inl rfl
    · split at decoded
      · obtain ⟨formatter, -, decoded⟩ := bind_ok _ _ _ decoded
        obtain ⟨level, -, decoded⟩ := bind_ok _ _ _ decoded
        cases decoded
        exact .inr rfl
      · cases decoded

theorem decode_appenders_known (yaml : YamlCpp) (node : Node) (indices : List Nat) (list : List LogAppenderDefine)
    (decoded : decodeAppenders yaml node indices = .ok list) : ∀ a ∈ list, a.type = 1 ∨ a.type = 2 := by
  induction indices generalizing list with
  | nil =>
      cases decoded
      simp
  | cons i rest ih =>
      -- What comes behind the first entry is the same for each way to read it.
      have behind (first : Option LogAppenderDefine) (all : ∀ a ∈ first, a.type = 1 ∨ a.type = 2)
          (joined : (do return first.toList ++ (← decodeAppenders yaml node rest)) = Except.ok list) :
          ∀ a ∈ list, a.type = 1 ∨ a.type = 2 := by
        obtain ⟨others, othersDecoded, joined⟩ := bind_ok _ _ _ joined
        cases joined
        intro a member
        rcases List.mem_append.mp member with inFirst | inOthers
        · exact all a (Option.mem_toList.mp inFirst)
        · exact ih others othersDecoded a inOthers
      rw [decodeAppenders] at decoded
      split at decoded
      · exact behind none (by simp) decoded
      · rename_i a here
        obtain ⟨first, firstDecoded, joined⟩ := bind_ok _ _ _ decoded
        refine behind first (fun read same => ?_) joined
        cases same
        exact decode_appender_known a read firstDecoded

theorem decode_node_known (yaml : YamlCpp) (node : Node) (d : LogDefine) (decoded : decodeNode yaml node = .ok d) :
    ∀ a ∈ d.appenders, a.type = 1 ∨ a.type = 2 := by
  obtain ⟨name, -, decoded⟩ := bind_ok _ _ _ decoded
  split at decoded
  · cases decoded
  · obtain ⟨text, -, decoded⟩ := bind_ok _ _ _ decoded
    obtain ⟨level, -, decoded⟩ := bind_ok _ _ _ decoded
    obtain ⟨formatter, -, decoded⟩ := bind_ok _ _ _ decoded
    obtain ⟨found, -, decoded⟩ := bind_ok _ _ _ decoded
    split at decoded
    · cases decoded
      simp
    · obtain ⟨appenders, listed, decoded⟩ := bind_ok _ _ _ decoded
      cases decoded
      exact decode_appenders_known yaml _ _ appenders listed

theorem decode_known (yaml : YamlCpp) (v : String) (d : LogDefine) (decoded : decode yaml v = .ok d) :
    ∀ a ∈ d.appenders, a.type = 1 ∨ a.type = 2 := by
  obtain ⟨node, -, decoded⟩ := bind_ok _ _ _ decoded
  exact decode_node_known yaml node d decoded

end LogDefine

namespace LogDefineSet

-- std::set::insert: a definition whose name is there already is not taken.
def insertDefine (i : LogDefine) : List LogDefine → List LogDefine
  | [] => [i]
  | other :: rest =>
      if i.name < other.name then i :: other :: rest
      else if other.name < i.name then other :: insertDefine i rest
      else other :: rest

theorem insert_define_subset (i : LogDefine) (list : List LogDefine) : insertDefine i list ⊆ i :: list := by
  induction list with
  | nil => exact List.Subset.refl _
  | cons other rest ih =>
      rw [insertDefine]
      split
      · exact List.Subset.refl _
      · split
        · intro member inList
          rcases List.mem_cons.mp inList with same | later
          · simp [same]
          · rcases List.mem_cons.mp (ih later) with same | old
            · simp [same]
            · simp [old]
        · exact List.subset_cons_self _ _

theorem insert_define_sorted (i : LogDefine) (list : List LogDefine)
    (sorted : list.Pairwise fun first second => first.name < second.name) :
    (insertDefine i list).Pairwise fun first second => first.name < second.name := by
  induction list with
  | nil => exact List.pairwise_singleton _ _
  | cons other rest ih =>
      rw [List.pairwise_cons] at sorted
      rw [insertDefine]
      split
      · rename_i less
        rw [List.pairwise_cons, List.pairwise_cons]
        refine ⟨fun member inList => ?_, sorted⟩
        rcases List.mem_cons.mp inList with same | later
        · rw [same]
          exact less
        · exact String.lt_trans less (sorted.1 member later)
      · split
        · rename_i less
          rw [List.pairwise_cons]
          refine ⟨fun member inList => ?_, ih sorted.2⟩
          rcases List.mem_cons.mp (insert_define_subset i rest inList) with same | old
          · rw [same]
            exact less
          · exact sorted.1 member old
        · rw [List.pairwise_cons]
          exact sorted

theorem insert_define_mem (i : LogDefine) (list : List LogDefine) (fresh : ∀ other ∈ list, other.name ≠ i.name)
    (member : LogDefine) : member ∈ insertDefine i list ↔ member = i ∨ member ∈ list := by
  induction list with
  | nil => simp [insertDefine]
  | cons other rest ih =>
      rw [insertDefine]
      split
      · simp
      · rename_i notLess
        split
        · rw [List.mem_cons, ih fun later inRest => fresh later (List.mem_cons_of_mem _ inRest), List.mem_cons]
          exact or_left_comm
        · rename_i notGreater
          exact absurd (String.le_antisymm (String.not_lt.mp notLess) (String.not_lt.mp notGreater))
            (fresh other List.mem_cons_self)

def insert (set : LogDefineSet) (i : LogDefine) : LogDefineSet :=
  ⟨insertDefine i set.defines, insert_define_sorted i set.defines set.sorted⟩

-- The loop of LexicalCast<std::string,std::set<LogDefine>>; an entry that is
-- not there reads as null and has no name.
def decodeItems (yaml : YamlCpp) (node : Node) : List Nat → LogDefineSet → Except Exception LogDefineSet
  | [], set => return set
  | i :: rest, set => do
      let define ← LogDefine.decode yaml (yaml.emit ((node.index yaml i).getD .null))
      decodeItems yaml node rest (set.insert define)

-- LexicalCast<std::string,std::set<LogDefine>>.
def decode (yaml : YamlCpp) (v : String) : Except Exception LogDefineSet := do
  let node ← yaml.load v
  decodeItems yaml node (List.range node.size) .empty

theorem decode_items_known (yaml : YamlCpp) (node : Node) (indices : List Nat) (set value : LogDefineSet)
    (known : ∀ i ∈ set.defines, ∀ a ∈ i.appenders, a.type = 1 ∨ a.type = 2)
    (decoded : decodeItems yaml node indices set = .ok value) :
    ∀ i ∈ value.defines, ∀ a ∈ i.appenders, a.type = 1 ∨ a.type = 2 := by
  induction indices generalizing set with
  | nil =>
      cases decoded
      exact known
  | cons index rest ih =>
      obtain ⟨define, defined, decoded⟩ := bind_ok _ _ _ decoded
      refine ih (set.insert define) (fun i member => ?_) decoded
      rcases List.mem_cons.mp (insert_define_subset define set.defines member) with same | old
      · rw [same]
        exact LogDefine.decode_known yaml _ define defined
      · exact known i old

theorem decode_known (yaml : YamlCpp) (v : String) (value : LogDefineSet) (decoded : decode yaml v = .ok value) :
    ∀ i ∈ value.defines, ∀ a ∈ i.appenders, a.type = 1 ∨ a.type = 2 := by
  obtain ⟨node, -, decoded⟩ := bind_ok _ _ _ decoded
  exact decode_items_known yaml node _ .empty value (by simp [empty]) decoded

end LogDefineSet

end Sylar.Log
