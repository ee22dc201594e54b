import Mathlib.Data.List.Basic
import Mathlib.Data.List.Induction

set_option autoImplicit false

namespace Sylar.Lib

variable {α : Type} [BEq α]

-- A cell that keeps what it holds as long as the new value is equal to it.
def overwrite (current new : α) : α := if current == new then current else new

def overwriteAll (current : α) (news : List α) : α := news.foldl overwrite current

theorem overwrite_equal (current new : α) (equal : current == new) : overwrite current new = current := if_pos equal

theorem overwrite_different (current new : α) (different : ¬ current == new) : overwrite current new = new :=
  if_neg different

theorem overwrite_all_concat (current last : α) (news : List α) :
    overwriteAll current (news ++ [last]) = overwrite (overwriteAll current news) last := by
  simp [overwriteAll, List.foldl_append]

variable [EquivBEq α]

theorem overwrite_holds (current new : α) : overwrite current new == new := by
  by_cases equal : current == new
  · rw [overwrite_equal current new equal]
    exact equal
  · rw [overwrite_different current new equal]
    exact BEq.refl new

-- Only the last value counts for what the cell is equal to in the end.
theorem overwrite_all_holds (current last : α) (news : List α) : overwriteAll current (news ++ [last]) == last := by
  rw [overwrite_all_concat]
  exact overwrite_holds _ last

theorem overwrite_all_same (first second : α) (news : List α) (nonempty : news ≠ []) :
    overwriteAll first news == overwriteAll second news := by
  obtain ⟨before, last, rfl⟩ := (List.eq_nil_or_concat' news).resolve_left nonempty
  exact BEq.trans (overwrite_all_holds first last before) (BEq.symm (overwrite_all_holds second last before))

-- The induction takes the values from the back. Where the last one replaces
-- the cell, the run before it cannot end in a value that is equal to it.
theorem overwrite_all_twice (current : α) (news : List α) :
    overwriteAll (overwriteAll current news) news = overwriteAll current news := by
  induction news using List.reverseRecOn with
  | nil => rfl
  | append_singleton before last ih =>
      by_cases equal : overwriteAll current before == last
      · have kept : overwriteAll current (before ++ [last]) = overwriteAll current before := by
          rw [overwrite_all_concat, overwrite_equal _ last equal]
        rw [kept, overwrite_all_concat, ih, overwrite_equal _ last equal]
      · have replaced : overwriteAll current (before ++ [last]) = last := by
          rw [overwrite_all_concat, overwrite_different _ last equal]
        rw [replaced, overwrite_all_concat]
        by_cases alone : before = []
        · subst before
          exact overwrite_equal last last (BEq.refl last)
        · apply overwrite_different
          intro again
          exact equal (BEq.trans (overwrite_all_same current last before alone) again)

theorem overwrite_all_settled (current : α) (news : List α) :
    (∀ new ∈ news, overwriteAll current news == new) ↔ ∀ first ∈ news, ∀ second ∈ news, first == second := by
  constructor
  · intro settled first firstMember second secondMember
    exact BEq.trans (BEq.symm (settled first firstMember)) (settled second secondMember)
  · intro equal new member
    obtain ⟨before, last, rfl⟩ := (List.eq_nil_or_concat' news).resolve_left (List.ne_nil_of_mem member)
    have lastMember : last ∈ before ++ [last] := List.mem_append_right _ List.mem_cons_self
    exact BEq.trans (overwrite_all_holds current last before) (equal last lastMember new member)

end Sylar.Lib
