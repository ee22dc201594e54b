import Mathlib.Data.List.Basic

set_option autoImplicit false

namespace Sylar.Lib

-- A record is printed as a fixed lead and then one text for each key, each with
-- a mark behind it.
structure Layout (Key Symbol : Type) where
  lead : List Symbol
  fields : List (Key × List Symbol)

namespace Layout

section Layouts

variable {Key Symbol : Type}

def printFields (text : Key → List Symbol) : List (Key × List Symbol) → List Symbol
  | [] => []
  | field :: rest => text field.1 ++ field.2 ++ printFields text rest

def print (layout : Layout Key Symbol) (text : Key → List Symbol) : List Symbol := layout.lead ++ printFields text layout.fields

def texts (layout : Layout Key Symbol) (text : Key → List Symbol) : List (List Symbol) :=
  layout.fields.map fun field => text field.1

variable [DecidableEq Symbol]

def stripPrefix (mark input : List Symbol) : Option (List Symbol) :=
  if mark.isPrefixOf input then some (input.drop mark.length) else none

-- A field ends where the first symbol of its mark stands.
def readField (mark input : List Symbol) : Option (List Symbol × List Symbol) :=
  match mark with
  | [] => none
  | first :: _ =>
      (stripPrefix mark (input.dropWhile fun symbol => symbol ≠ first)).map fun rest =>
        (input.takeWhile fun symbol => symbol ≠ first, rest)

def readFields : List (Key × List Symbol) → List Symbol → Option (List (List Symbol) × List Symbol)
  | [], input => some ([], input)
  | field :: fields, input =>
      (readField field.2 input).bind fun found => (readFields fields found.2).map fun later => (found.1 :: later.1, later.2)

def read (layout : Layout Key Symbol) (input : List Symbol) : Option (List (List Symbol) × List Symbol) :=
  (stripPrefix layout.lead input).bind (readFields layout.fields)

end Layouts

end Layout

end Sylar.Lib
