import Mathlib.Data.List.Basic

set_option autoImplicit false

namespace Sylar.Lib

-- Objects behind shared pointers. An address is the allocation index; cells
-- are never reclaimed, so an address held anywhere stays meaningful, as it
-- does for an object that a shared pointer keeps alive.
structure Heap (α : Type) where
  cells : List α

abbrev Address := Nat

namespace Heap

variable {α : Type}

def empty : Heap α := ⟨[]⟩

def size (heap : Heap α) : Nat := heap.cells.length

def read (heap : Heap α) (address : Address) : Option α := heap.cells[address]?

-- The fresh cell stands at the old size, which is the address handed out.
def alloc (heap : Heap α) (object : α) : Heap α := ⟨heap.cells ++ [object]⟩

def modify (heap : Heap α) (address : Address) (update : α → α) : Heap α :=
  ⟨heap.cells.modify address update⟩

def modifyAll (heap : Heap α) (addresses : List Address) (update : α → α) : Heap α :=
  addresses.foldl (fun current address => current.modify address update) heap

@[simp] theorem size_alloc (heap : Heap α) (object : α) : (heap.alloc object).size = heap.size + 1 := by
  simp [size, alloc]

@[simp] theorem size_modify (heap : Heap α) (address : Address) (update : α → α) :
    (heap.modify address update).size = heap.size := by
  simp [size, modify]

theorem read_bound (heap : Heap α) (address : Address) (object : α)
    (present : heap.read address = some object) : address < heap.size :=
  (List.getElem?_eq_some_iff.mp present).1

theorem read_of_lt (heap : Heap α) (address : Address) (bound : address < heap.size) :
    ∃ object, heap.read address = some object :=
  ⟨heap.cells[address], List.getElem?_eq_getElem bound⟩

@[simp] theorem read_empty (address : Address) : (empty : Heap α).read address = none := rfl

@[simp] theorem read_size (heap : Heap α) : heap.read heap.size = none :=
  List.getElem?_eq_none (Nat.le_refl _)

@[simp] theorem read_alloc_fresh (heap : Heap α) (object : α) :
    (heap.alloc object).read heap.size = some object := by
  simp [read, alloc, size]

theorem read_alloc_old (heap : Heap α) (object : α) (address : Address) (bound : address < heap.size) :
    (heap.alloc object).read address = heap.read address := by
  simpa only [read, alloc] using List.getElem?_append_left bound

theorem read_alloc_known (heap : Heap α) (object found : α) (address : Address) (different : address ≠ heap.size)
    (present : (heap.alloc object).read address = some found) : heap.read address = some found := by
  have bound := read_bound _ _ _ present
  rw [size_alloc] at bound
  rwa [read_alloc_old heap object address (Nat.lt_of_le_of_ne (Nat.le_of_lt_succ bound) different)] at present

theorem read_alloc_keeps (heap : Heap α) (fresh old : α) (address : Address)
    (present : heap.read address = some old) : (heap.alloc fresh).read address = some old := by
  rw [read_alloc_old heap fresh address (read_bound heap address old present), present]

@[simp] theorem read_modify_here (heap : Heap α) (address : Address) (update : α → α) :
    (heap.modify address update).read address = (heap.read address).map update := by
  simp [read, modify]

theorem read_modify_elsewhere (heap : Heap α) (address other : Address) (update : α → α)
    (different : other ≠ address) : (heap.modify address update).read other = heap.read other := by
  simp [read, modify, Ne.symm different]

theorem modify_alloc (heap : Heap α) (object : α) (update : α → α) :
    (heap.alloc object).modify heap.size update = heap.alloc (update object) := by
  simp [modify, alloc, size, List.modify_eq_take_cons_drop]

theorem modify_modify (heap : Heap α) (address : Address) (first second : α → α) :
    (heap.modify address first).modify address second = heap.modify address fun object => second (first object) := by
  simp only [modify, List.modify_modify_eq]
  rfl

theorem modify_congr (heap : Heap α) (address : Address) (first second : α → α)
    (agree : ∀ object, heap.read address = some object → first object = second object) :
    heap.modify address first = heap.modify address second := by
  obtain ⟨cells⟩ := heap
  simp only [modify, mk.injEq]
  apply List.ext_getElem? fun index => ?_
  simp only [List.getElem?_modify]
  by_cases same : address = index
  · subst same
    simp only [if_true]
    cases present : cells[address]? with
    | none => rfl
    | some object => exact congrArg some (agree object present)
  · simp only [same, if_false]

theorem modify_absent (heap : Heap α) (address : Address) (update : α → α) (absent : heap.read address = none) :
    heap.modify address update = heap :=
  congrArg mk (List.modify_eq_self (List.getElem?_eq_none_iff.mp absent))

theorem modify_fixed (heap : Heap α) (address : Address) (object : α) (update : α → α)
    (present : heap.read address = some object) (fixed : update object = object) : heap.modify address update = heap := by
  obtain ⟨cells⟩ := heap
  obtain ⟨bound, rfl⟩ := List.getElem?_eq_some_iff.mp present
  simp only [modify, mk.injEq]
  rw [List.modify_eq_set_getElem?, List.getElem?_eq_getElem bound]
  simp only [Option.map_eq_map, Option.map_some, Option.getD_some, fixed]
  exact List.set_getElem_self bound

@[simp] theorem size_modify_all (heap : Heap α) (addresses : List Address) (update : α → α) :
    (heap.modifyAll addresses update).size = heap.size := by
  induction addresses generalizing heap with
  | nil => rfl
  | cons address tail ih => exact (ih (heap.modify address update)).trans (size_modify heap address update)

theorem read_modify_all_elsewhere (heap : Heap α) (addresses : List Address) (other : Address) (update : α → α)
    (absent : other ∉ addresses) : (heap.modifyAll addresses update).read other = heap.read other := by
  induction addresses generalizing heap with
  | nil => rfl
  | cons address tail ih =>
      rw [List.mem_cons, not_or] at absent
      exact (ih (heap.modify address update) absent.2).trans
        (read_modify_elsewhere heap address other update absent.1)

-- An update that changes nothing the second time reaches each listed cell once,
-- however often it is listed.
theorem read_modify_all_listed (heap : Heap α) (addresses : List Address) (address : Address) (object : α)
    (update : α → α) (idempotent : ∀ current, update (update current) = update current) (listed : address ∈ addresses)
    (present : heap.read address = some object) : (heap.modifyAll addresses update).read address = some (update object) := by
  have settled (rest : List Address) (current : Heap α) (done : current.read address = some (update object)) :
      (current.modifyAll rest update).read address = some (update object) := by
    induction rest generalizing current with
    | nil => exact done
    | cons next tail ih =>
        apply ih (current.modify next update)
        by_cases same : address = next
        · subst same
          rw [read_modify_here, done, Option.map_some, idempotent]
        · rw [read_modify_elsewhere current next address update same, done]
  induction addresses generalizing heap with
  | nil => cases listed
  | cons next tail ih =>
      by_cases same : address = next
      · subst same
        apply settled tail (heap.modify address update)
        rw [read_modify_here, present, Option.map_some]
      · have later : address ∈ tail := (List.mem_cons.mp listed).resolve_left same
        apply ih (heap.modify next update) later
        rw [read_modify_elsewhere heap next address update same, present]

section Map

variable {β : Type}

-- The same objects seen through a function.
def map (heap : Heap α) (view : α → β) : Heap β := ⟨heap.cells.map view⟩

@[simp] theorem read_map (heap : Heap α) (view : α → β) (address : Address) :
    (heap.map view).read address = (heap.read address).map view := by
  simp [map, read]

theorem modify_map (heap : Heap α) (view : α → β) (address : Address) (update : α → α) (viewed : β → β)
    (agree : ∀ object, heap.read address = some object → viewed (view object) = view (update object)) :
    (heap.map view).modify address viewed = (heap.modify address update).map view := by
  obtain ⟨cells⟩ := heap
  simp only [modify, map, mk.injEq]
  apply List.ext_getElem? fun index => ?_
  simp only [List.getElem?_modify, List.getElem?_map]
  by_cases same : address = index
  · subst same
    simp only [if_true]
    cases present : cells[address]? with
    | none => rfl
    | some object => exact congrArg some (agree object present)
  · simp only [same, if_false]
    cases cells[index]? <;> rfl

end Map

end Heap

end Sylar.Lib
