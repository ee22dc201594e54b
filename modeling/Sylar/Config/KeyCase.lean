import Mathlib.Data.List.Induction
import Sylar.Config.Reload

set_option autoImplicit false

namespace Sylar.Config

open Lib (Address Heap overwrite)
open Yaml (Exception Node YamlCpp)

-- Only a key that is a scalar has a text to lower.
def lowerText : Node → Node
  | .scalar text => .scalar text.toLower
  | other => other

mutual

def lowerKeys (node : Node) : Node :=
  match node with
  | .null => .null
  | .scalar text => .scalar text
  | .sequence items => .sequence (lowerItems items)
  | .map entries => .map (lowerEntries entries)
termination_by structural node

def lowerItems : List Node → List Node
  | [] => []
  | item :: rest => lowerKeys item :: lowerItems rest
termination_by structural items => items

def lowerEntries : List (Node × Node) → List (Node × Node)
  | [] => []
  | (key, value) :: rest => (lowerText (lowerKeys key), lowerKeys value) :: lowerEntries rest
termination_by structural entries => entries

end

def lowered (item : List String × Node) : List String × Node := (item.1.map String.toLower, lowerKeys item.2)

namespace ConfigVar

variable {Val World : Type} [BEq Val]

def refuses (var : ConfigVar Val World) (world : World) (old new : Val) : Bool :=
  (notify old new var.cbs.toList world).2.isSome

def settle (var : ConfigVar Val World) (world : World) (current new : Val) : Val :=
  if var.refuses world current new then current else overwrite current new

def settled (var : ConfigVar Val World) (world : World) (news : List Val) : Val := news.foldl (var.settle world) var.val

end ConfigVar

namespace Registry

variable {Ty World : Type} {types : Ty → ConfigType}

end Registry

section Lower

theorem lower_map (text : String) : text.toLower = text.map Char.toLower := rfl

theorem lower_empty_iff (text : String) : text.toLower = "" ↔ text = "" := by
  rw [lower_map, ← String.toList_inj, ← String.toList_inj]
  simp

theorem lower_empty : ("" : String).toLower = "" := (lower_empty_iff "").mpr rfl

theorem lowered_key (key : Node) : (lowerText (lowerKeys key)).scalarText = key.scalarText.toLower := by
  cases key with
  | scalar text => rfl
  | null => exact lower_empty.symm
  | sequence items => exact lower_empty.symm
  | map entries => exact lower_empty.symm

mutual

theorem paths_lower (node : Node) : paths (lowerKeys node) = (paths node).map lowered := by
  cases node with
  | map entries =>
      simp only [lowerKeys, paths, List.map_cons, paths_entries_lower entries]
      rfl
  | null => rfl
  | scalar text => rfl
  | sequence items => rfl

theorem paths_entries_lower (entries : List (Node × Node)) :
    pathsEntries (lowerEntries entries) = (pathsEntries entries).map lowered := by
  cases entries with
  | nil => rfl
  | cons entry rest =>
      obtain ⟨key, value⟩ := entry
      rw [lowerEntries, pathsEntries, pathsEntries, List.map_append, paths_lower value, paths_entries_lower rest,
        lowered_key, List.map_map, List.map_map]
      rfl

end

end Lower

namespace ConfigVar

variable {Val World : Type}

variable [BEq Val]

end ConfigVar

namespace Registry

section Effect

variable {Ty World : Type} {types : Ty → ConfigType} (yaml : YamlCpp) (registry : Registry types World)

end Effect

section Settled

variable {Ty World : Type} {types : Ty → ConfigType} (yaml : YamlCpp) (registry : Registry types World)

end Settled

end Registry

end Sylar.Config
