import Mathlib.Data.List.Basic

set_option autoImplicit false

namespace Sylar.Yaml

-- A finite loaded document. Map keys are nodes themselves and a map may repeat
-- a key, as the pair list behind a loaded yaml-cpp map does.
inductive Node where
  | null
  | scalar (text : String)
  | sequence (items : List Node)
  | map (entries : List (Node × Node))
deriving Repr

-- std::exception, by its what() text.
abbrev Exception := String

-- yaml-cpp is not part of the repository: its emitter, its parser and its
-- reading of a scalar as an unsigned number enter as the functions used here.
structure YamlCpp where
  emit : Node → String
  load : String → Except Exception Node
  asIndex : String → Option Nat

namespace Node

-- Node::Scalar(): the empty string for anything that is not a scalar.
def scalarText : Node → String
  | .scalar text => text
  | _ => ""

def isScalar : Node → Bool
  | .scalar _ => true
  | _ => false

end Node

end Sylar.Yaml
