import Sylar.Yaml.Node

set_option autoImplicit false

namespace Sylar.Yaml

-- The pairs of a map under construction; no pairs stand for YAML::Node's
-- default value, which is null until something is written under a key.
abbrev Entries := List (Node × Node)

namespace Entries

-- The first scalar key with the text decides, as in yaml-cpp's node_data::get.
def find (entries : Entries) (key : String) : Option Node :=
  match entries with
  | [] => none
  | (.scalar text, value) :: rest => if text = key then some value else find rest key
  | _ :: rest => find rest key

-- node[key] = value.
def set (entries : Entries) (key : String) (value : Node) : Entries :=
  match entries with
  | [] => [(.scalar key, value)]
  | (.scalar text, old) :: rest =>
      if text = key then (.scalar text, value) :: rest else (.scalar text, old) :: set rest key value
  | entry :: rest => entry :: set rest key value

-- node[key].push_back(item) where node[key] is a sequence or not there yet.
def pushBack (entries : Entries) (key : String) (item : Node) : Entries :=
  match entries.find key with
  | some (.sequence items) => entries.set key (.sequence (items ++ [item]))
  | _ => entries.set key (.sequence [item])

def toNode (entries : Entries) : Node := if entries.isEmpty then .null else .map entries

@[simp] theorem find_nil (key : String) : find [] key = none := rfl

@[simp] theorem find_set_same (entries : Entries) (key : String) (value : Node) :
    (entries.set key value).find key = some value := by
  induction entries with
  | nil => simp [set, find]
  | cons entry rest ih =>
      obtain ⟨name, old⟩ := entry
      cases name with
      | scalar text =>
          by_cases same : text = key
          · simp [set, find, same]
          · simp [set, find, same, ih]
      | null => simpa [set, find] using ih
      | sequence items => simpa [set, find] using ih
      | map inner => simpa [set, find] using ih

@[simp] theorem find_set_other (entries : Entries) (key other : String) (value : Node) (different : key ≠ other) :
    (entries.set key value).find other = entries.find other := by
  induction entries with
  | nil => simp [set, find, different]
  | cons entry rest ih =>
      obtain ⟨name, old⟩ := entry
      cases name with
      | scalar text =>
          by_cases same : text = key
          · subst same
            simp [set, find, different]
          · by_cases wanted : text = other
            · subst wanted
              simp [set, find, same]
            · simp [set, find, same, wanted, ih]
      | null => simpa [set, find] using ih
      | sequence items => simpa [set, find] using ih
      | map inner => simpa [set, find] using ih

@[simp] theorem find_push_back_other (entries : Entries) (key other : String) (item : Node) (different : key ≠ other) :
    (entries.pushBack key item).find other = entries.find other := by
  rw [pushBack]
  split <;> exact find_set_other entries key other _ different

theorem find_push_back_same (entries : Entries) (key : String) (items : List Node) (item : Node)
    (here : entries.find key = some (.sequence items)) :
    (entries.pushBack key item).find key = some (.sequence (items ++ [item])) := by
  simp [pushBack, here]

theorem find_push_back_first (entries : Entries) (key : String) (item : Node) (missing : entries.find key = none) :
    (entries.pushBack key item).find key = some (.sequence [item]) := by
  simp [pushBack, missing]

end Entries

namespace Node

-- node[key] as a reader sees it, none for a result that is not defined. A
-- scalar has no members; what else is not a map becomes an empty one.
def get (node : Node) (key : String) : Except Exception (Option Node) :=
  match node with
  | .scalar _ => .error "operator[] call on a scalar"
  | .map entries => .ok (Entries.find entries key)
  | _ => .ok none

-- node.as<std::string>().
def asString : Node → Except Exception String
  | .scalar text => .ok text
  | .null => .ok "null"
  | _ => .error "bad conversion"

def size : Node → Nat
  | .sequence items => items.length
  | .map entries => entries.length
  | _ => 0

-- node[i] for an index below the size; in a map it is the key that reads as i.
def index (yaml : YamlCpp) (node : Node) (i : Nat) : Option Node :=
  match node with
  | .sequence items => items[i]?
  | .map entries => (entries.find? fun entry => entry.1.isScalar && yaml.asIndex entry.1.scalarText == some i).map Prod.snd
  | _ => none

@[simp] theorem get_to_node (entries : Entries) (key : String) : entries.toNode.get key = .ok (entries.find key) := by
  cases entries with
  | nil => rfl
  | cons entry rest => rfl

end Node

end Sylar.Yaml
