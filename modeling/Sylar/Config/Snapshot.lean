import Mathlib.Data.String.Basic
import Sylar.Config.ContainerRoundTrip
import Sylar.Config.LoadedValues

set_option autoImplicit false

namespace Sylar.Config

open Lib (Heap Address)
open Yaml (Entries Exception Node YamlCpp)

-- What does not convert is caught and reads as the empty text.
def ConfigVar.toString {Val World : Type} (toStr : Val → Except Exception String) (var : ConfigVar Val World) : String :=
  match toStr var.val with
  | .ok text => text
  | .error _ => ""

section Names

end Names

namespace Registry

section Texts

variable (yaml : YamlCpp)

end Texts

variable {Ty World : Type} {types : Ty → ConfigType}

-- Visit hands the variables over in the order of the map.
def visit (registry : Registry types World) : List (AnyVar types World) :=
  registry.datas.toList.filterMap fun entry => registry.vars.read entry.2

section Visit

variable (registry : Registry types World) (wf : registry.WellFormed)

include wf

end Visit

end Registry

namespace Nesting

section RoundTrip

variable (yaml : YamlCpp) (hashing : Hashing) (plain : ∀ n : Int, yaml.emit (.scalar n.repr) = n.repr)

include plain

end RoundTrip

end Nesting

end Sylar.Config
