import Sylar.Config.Registry

set_option autoImplicit false

namespace Sylar.Config

open Yaml (Node YamlCpp)

-- The member names grow from the prefix by one key, with no dot at the root.
def memberName (pfx key : String) : String := if pfx.isEmpty then key else pfx ++ "." ++ key

theorem member_name_valid (pfx key : String) : validName (memberName pfx key) = (validName pfx && validName key) := by
  have dot : validName "." = true := by decide
  have empty : validName "" = true := rfl
  rw [memberName]
  split
  · rename_i root
    rw [String.isEmpty_iff.mp root, empty, Bool.true_and]
  · rw [valid_name_append, valid_name_append, dot, Bool.and_true]

-- The list that ListAllMember appends to its output argument. A prefix with
-- another character than the accepted ones ends the call before anything is
-- put out, so it takes its whole subtree along.
mutual

def listAllMember (pfx : String) (node : Node) : List (String × Node) :=
  if validName pfx then
    (pfx, node) :: (match node with
      | .map entries => listEntries pfx entries
      | _ => [])
  else []
termination_by structural node

def listEntries (pfx : String) : List (Node × Node) → List (String × Node)
  | [] => []
  | (key, value) :: rest => listAllMember (memberName pfx key.scalarText) value ++ listEntries pfx rest
termination_by structural entries => entries

end

namespace Registry

variable {Ty World : Type} {types : Ty → ConfigType}

-- A scalar is handed over raw, every other node as its emitted text.
def nodeText (yaml : YamlCpp) (node : Node) : String :=
  if node.isScalar then node.scalarText else yaml.emit node

-- One round of the loop over all_nodes.
def loadMember (yaml : YamlCpp) (registry : Registry types World) (item : String × Node) : Registry types World :=
  if item.1.isEmpty then registry
  else
    match registry.lookupBase item.1.toLower with
    | none => registry
    | some pointer => (registry.fromString pointer (nodeText yaml item.2)).1

def loadFromYaml (yaml : YamlCpp) (registry : Registry types World) (root : Node) : Registry types World :=
  (listAllMember "" root).foldl (loadMember yaml) registry

theorem load_member_keeps (yaml : YamlCpp) (registry : Registry types World) (item : String × Node) :
    Keeps registry (loadMember yaml registry item) := by
  rw [loadMember]
  split
  · exact keeps_refl registry
  · split
    · exact keeps_refl registry
    · exact from_string_keeps registry _ _

theorem load_members_keep (yaml : YamlCpp) (registry : Registry types World) (items : List (String × Node)) :
    Keeps registry (items.foldl (loadMember yaml) registry) := by
  induction items generalizing registry with
  | nil => exact keeps_refl registry
  | cons item rest ih => exact keeps_trans _ _ _ (load_member_keeps yaml registry item) (ih _)

theorem load_from_yaml_keeps (yaml : YamlCpp) (registry : Registry types World) (root : Node) :
    Keeps registry (registry.loadFromYaml yaml root) :=
  load_members_keep yaml registry _

end Registry

end Sylar.Config
