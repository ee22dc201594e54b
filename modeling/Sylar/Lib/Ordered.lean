import Mathlib.Data.List.Lex
import Mathlib.Data.List.Pairwise
import Mathlib.Order.Lattice

set_option autoImplicit false

namespace Sylar.Lib

section Lists

variable {α κ : Type} [LinearOrder κ] (key : α → κ)

-- Insertion that keeps the element already there under the same key.
def insertOrdered (new : α) : List α → List α
  | [] => [new]
  | item :: rest =>
      if key new < key item then new :: item :: rest
      else if key item < key new then item :: insertOrdered new rest
      else item :: rest

def Ascending (items : List α) : Prop := items.Pairwise fun first second => key first < key second

theorem insert_ordered_subset (new : α) (items : List α) : insertOrdered key new items ⊆ new :: items := by
  induction items with
  | nil => exact List.Subset.refl _
  | cons item rest ih =>
      rw [insertOrdered]
      split
      · exact List.Subset.refl _
      · split
        · intro other member
          rcases List.mem_cons.mp member with same | later
          · simp [same]
          · rcases List.mem_cons.mp (ih later) with same | old
            · simp [same]
            · simp [old]
        · exact List.subset_cons_self _ _

theorem insert_ordered_ascending (new : α) (items : List α) (ascending : Ascending key items) :
    Ascending key (insertOrdered key new items) := by
  induction items with
  | nil => exact List.pairwise_singleton _ _
  | cons item rest ih =>
      have below := List.pairwise_cons.mp ascending
      rw [insertOrdered]
      split
      · rename_i less
        refine List.pairwise_cons.mpr ⟨fun other member => ?_, ascending⟩
        rcases List.mem_cons.mp member with same | later
        · rw [same]
          exact less
        · exact lt_trans less (below.1 other later)
      · split
        · rename_i less
          refine List.pairwise_cons.mpr ⟨fun other member => ?_, ih below.2⟩
          rcases List.mem_cons.mp (insert_ordered_subset key new rest member) with same | old
          · rw [same]
            exact less
          · exact below.1 other old
        · exact ascending

theorem insert_ordered_last (new : α) (items : List α) (above : ∀ item ∈ items, key item < key new) :
    insertOrdered key new items = items ++ [new] := by
  induction items with
  | nil => rfl
  | cons item rest ih =>
      have less := above item List.mem_cons_self
      rw [insertOrdered, if_neg (lt_asymm less), if_pos less,
        ih fun other member => above other (List.mem_cons_of_mem _ member)]
      rfl

end Lists

-- A set or a map that hands its elements out in the ascending order of their
-- keys, with one element for each key.
structure Ordered {α κ : Type} [LinearOrder κ] (key : α → κ) where
  items : List α
  ascending : Ascending key items

namespace Ordered

variable {α κ : Type} [LinearOrder κ] {key : α → κ}

theorem items_injective : Function.Injective (items : Ordered key → List α) := by
  intro first second same
  cases first
  cases second
  cases same
  rfl

def empty : Ordered key := ⟨[], .nil⟩

def insert (table : Ordered key) (new : α) : Ordered key :=
  ⟨insertOrdered key new table.items, insert_ordered_ascending key new table.items table.ascending⟩

def ofList (items : List α) : Ordered key := items.foldl insert empty

theorem insert_all_ascending (items : List α) (table : Ordered key) (ascending : Ascending key (table.items ++ items)) :
    (items.foldl insert table).items = table.items ++ items := by
  induction items generalizing table with
  | nil => exact (List.append_nil _).symm
  | cons item rest ih =>
      have above : ∀ other ∈ table.items, key other < key item := fun other member =>
        (List.pairwise_append.mp ascending).2.2 other member item List.mem_cons_self
      have last : (table.insert item).items = table.items ++ [item] := insert_ordered_last key item table.items above
      rw [List.foldl_cons, ih (table.insert item) (by rw [last, List.append_assoc]; exact ascending), last,
        List.append_assoc]
      rfl

-- What is handed out in order and inserted again is what it was.
theorem of_list_ascending (items : List α) (ascending : Ascending key items) :
    (ofList items : Ordered key).items = items :=
  insert_all_ascending items empty ascending

theorem of_list_items (table : Ordered key) : ofList table.items = table :=
  items_injective (of_list_ascending table.items table.ascending)

end Ordered

end Sylar.Lib
