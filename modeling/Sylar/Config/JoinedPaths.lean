import Sylar.Config.LoadedValues

set_option autoImplicit false

namespace Sylar.Config

open Yaml (Node)

-- Every pair that ListAllMember puts out is named by the keys that lead to its
-- node.
def JoinedNames (root : Node) : Prop :=
  ∀ item ∈ paths root, ∀ pair, emitted "" item = some pair → pair = (joined item.1, item.2)

-- A map under an empty key of the root, with a member that is put out. Keys that
-- are null, sequences or maps count as empty.
def MemberBelowEmptyKey (root : Node) : Prop :=
  ∃ entries, root = .map entries ∧ ∃ entry ∈ entries, entry.1.scalarText = "" ∧
    ∃ inner, entry.2 = .map inner ∧ ∃ member ∈ inner, validName member.1.scalarText = true

section Paths

theorem mem_paths_root (node : Node) : ([], node) ∈ paths node := by
  cases node <;> simp [paths]

theorem mem_paths_entries (entries : List (Node × Node)) (key : String) (rest : List String) (node : Node) :
    (key :: rest, node) ∈ pathsEntries entries ↔
      ∃ entry ∈ entries, entry.1.scalarText = key ∧ (rest, node) ∈ paths entry.2 := by
  induction entries with
  | nil => simp [pathsEntries]
  | cons entry more ih =>
      obtain ⟨name, value⟩ := entry
      simp only [pathsEntries, List.mem_append, ih, List.mem_map, List.mem_cons, Prod.mk.injEq, List.cons.injEq]
      constructor
      · rintro (⟨item, member, ⟨same, path⟩, here⟩ | ⟨entry, member, found⟩)
        · subst path here
          exact ⟨(name, value), .inl rfl, same, member⟩
        · exact ⟨entry, .inr member, found⟩
      · rintro ⟨entry, rfl | member, found⟩
        · exact .inl ⟨(rest, node), found.2, ⟨found.1, rfl⟩, rfl⟩
        · exact .inr ⟨entry, member, found⟩

theorem mem_paths_cons (root node : Node) (key : String) (rest : List String) :
    (key :: rest, node) ∈ paths root ↔
      ∃ entries, root = .map entries ∧ ∃ entry ∈ entries, entry.1.scalarText = key ∧ (rest, node) ∈ paths entry.2 := by
  cases root with
  | map entries => simp [paths, mem_paths_entries]
  | null => simp [paths]
  | scalar text => simp [paths]
  | sequence items => simp [paths]

theorem joined_cons (key next : String) (rest : List String) :
    (joined (key :: next :: rest)).length = key.length + 1 + (joined (next :: rest)).length := by
  rw [joined, String.intercalate_cons_cons, String.length_append, String.length_append]
  rfl

-- The empty keys at the front of a path leave no trace in the name.
theorem names_along_length (path : List String) : (namesAlong "" path).length ≤ (joined path).length := by
  induction path with
  | nil => exact Nat.le_refl _
  | cons key rest ih =>
      by_cases empty : key = ""
      · subst empty
        have skipped : namesAlong "" ("" :: rest) = namesAlong "" rest := rfl
        rw [skipped]
        cases rest with
        | nil => exact Nat.le_refl _
        | cons next more =>
            rw [joined_cons]
            omega
      · exact Nat.le_of_eq (congrArg String.length (names_along_joined key rest empty))

theorem names_along_joined_iff (path : List String) :
    namesAlong "" path = joined path ↔ ∀ key rest, path ≠ "" :: key :: rest := by
  constructor
  · intro same key rest shape
    subst shape
    have lengths := congrArg String.length same
    have skipped : namesAlong "" ("" :: key :: rest) = namesAlong "" (key :: rest) := rfl
    have shorter := names_along_length (key :: rest)
    rw [skipped, joined_cons] at lengths
    omega
  · intro shape
    cases path with
    | nil => rfl
    | cons key rest =>
        by_cases empty : key = ""
        · subst empty
          cases rest with
          | nil => rfl
          | cons next more => exact absurd rfl (shape next more)
        · exact names_along_joined key rest empty

theorem emitted_open (pfx : String) (item : List String × Node) (pair : String × Node) (put : emitted pfx item = some pair) :
    openFrom pfx item.1 = true ∧ pair = (namesAlong pfx item.1, item.2) := by
  rw [emitted] at put
  split at put
  · rename_i reached
    exact ⟨reached, (Option.some.inj put).symm⟩
  · cases put

-- Two keys down, the first one empty: the name tested is the second key.
theorem open_below_empty (key : String) (rest : List String) (reached : openFrom "" ("" :: key :: rest) = true) :
    validName key = true := by
  have start : namesAlong "" ["", key] = key := rfl
  have within : ["", key] <+: "" :: key :: rest := by simp
  rw [← start]
  exact List.all_eq_true.mp reached ["", key] ((List.mem_inits _ _).mpr within)

theorem open_empty_key (key : String) (valid : validName key = true) : openFrom "" ["", key] = true :=
  (open_from_iff "" ["", key]).mpr valid

end Paths

theorem joined_names_iff (root : Node) :
    listAllMember "" root = (paths root).filterMap (emitted "") ∧ (JoinedNames root ↔ ¬ MemberBelowEmptyKey root) := by
  refine ⟨list_all_member_paths "" root, ?_⟩
  constructor
  · intro names hidden
    obtain ⟨entries, shape, entry, inRoot, empty, inner, below, member, inInner, valid⟩ := hidden
    have reached := open_empty_key member.1.scalarText valid
    have listed : ((["", member.1.scalarText], member.2) : List String × Node) ∈ paths root := by
      rw [mem_paths_cons]
      refine ⟨entries, shape, entry, inRoot, empty, ?_⟩
      rw [mem_paths_cons]
      exact ⟨inner, below, member, inInner, rfl, mem_paths_root member.2⟩
    have same := names _ listed _ (if_pos reached)
    exact (names_along_joined_iff _).mp (congrArg Prod.fst same) _ _ rfl
  · intro apart item listed pair put
    obtain ⟨reached, rfl⟩ := emitted_open "" item pair put
    obtain ⟨path, node⟩ := item
    have names : namesAlong "" path = joined path := by
      rw [names_along_joined_iff]
      intro key rest shape
      subst shape
      obtain ⟨entries, rootMap, entry, inRoot, empty, deeper⟩ := (mem_paths_cons root node "" (key :: rest)).mp listed
      obtain ⟨inner, below, member, inInner, text, -⟩ := (mem_paths_cons entry.2 node key rest).mp deeper
      exact apart ⟨entries, rootMap, entry, inRoot, empty, inner, below, member, inInner,
        by rw [text]; exact open_below_empty key rest reached⟩
    rw [names]

-- system.port below an empty key of the root.
def emptyKeyDocument : Node :=
  .map [(.scalar "", .map [(.scalar "system", .map [(.scalar "port", .scalar "9090")])])]

theorem assigned_as_at_root :
    (¬ ∀ root, JoinedNames root) ∧
      ((Registry.portRegistry "system.port").loadFromYaml Registry.portYaml emptyKeyDocument).valueAt 0 =
        some ⟨(), (9090 : Int)⟩ := by
  constructor
  · intro named
    have same := named emptyKeyDocument (["", "system"], .map [(.scalar "port", .scalar "9090")])
      (by simp [emptyKeyDocument, paths, pathsEntries, Node.scalarText]) _ (if_pos (by decide))
    exact absurd (congrArg Prod.fst same) (by decide)
  · exact Registry.port_loaded emptyKeyDocument ["9090"] 9090 rfl (by decide)

end Sylar.Config
