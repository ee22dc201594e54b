import Mathlib.Data.Fintype.EquivFin
import Mathlib.Logic.Relation

set_option autoImplicit false

namespace Sylar.Lib

open Relation (ReflTransGen TransGen)

section Acyclic

variable {α : Type} (edge : α → α → Prop)

-- Nothing that can be reached from the root lies on a cycle.
def NoCycle (root : α) : Prop := ∀ node, ReflTransGen edge root node → ¬ TransGen edge node node

-- Every way down from the root ends.
def Descends (root : α) : Prop := Acc (Function.swap edge) root

theorem descends_child (node child : α) (descends : Descends edge node) (down : edge node child) : Descends edge child :=
  Acc.inv descends down

theorem acc_irreflexive (relation : α → α → Prop) (node : α) (accessible : Acc relation node) : ¬ relation node node := by
  induction accessible with
  | intro node _ ih =>
      intro self
      exact ih node self self

theorem descends_reached (root node : α) (descends : Descends edge root) (reached : ReflTransGen edge root node) :
    Descends edge node := by
  induction reached with
  | refl => exact descends
  | tail _ down ih => exact descends_child edge _ _ ih down

theorem no_cycle_of_descends (root : α) (descends : Descends edge root) : NoCycle edge root := by
  intro node reached cycle
  have below := Acc.transGen (descends_reached edge root node descends reached)
  exact acc_irreflexive _ node below (Relation.transGen_swap.mpr cycle)

-- In a finite graph a way down that does not end comes back to where it was.
theorem descends_of_no_cycle [Finite α] (root : α) (acyclic : NoCycle edge root) : Descends edge root := by
  let below (first second : {node // ReflTransGen edge root node}) : Prop := TransGen edge second.1 first.1
  have irreflexive : Std.Irrefl below := ⟨fun node => acyclic node.1 node.2⟩
  have transitive : IsTrans _ below := ⟨fun _ _ _ first second => second.trans first⟩
  have founded : WellFounded below := Finite.wellFounded_of_trans_of_irrefl below
  have all (node : {node // ReflTransGen edge root node}) : Descends edge node.1 := by
    induction node using founded.induction with
    | _ node ih =>
        constructor
        intro child down
        exact ih ⟨child, node.2.tail down⟩ (TransGen.single down)
  exact all ⟨root, ReflTransGen.refl⟩

theorem descends_iff_no_cycle [Finite α] (root : α) : Descends edge root ↔ NoCycle edge root :=
  ⟨no_cycle_of_descends edge root, descends_of_no_cycle edge root⟩

end Acyclic

end Sylar.Lib
