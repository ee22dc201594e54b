import Mathlib.Algebra.Group.Int.Defs
import Mathlib.Data.List.Nodup
import Mathlib.Data.String.Basic
import Sylar.Config.Registry
import Sylar.Lib.Ordered
import Sylar.Yaml.Access

set_option autoImplicit false

namespace Sylar.Config

open Lib (Ordered)
open Yaml (Entries Exception Node YamlCpp)

-- std::set and std::map, in the order in which an iterator goes through them.
abbrev OrderedSet (α : Type) [LinearOrder α] := Ordered (id : α → α)

abbrev OrderedMap (α : Type) := Ordered (Prod.fst : String × α → String)

-- An unordered_map as its entries in the order in which it hands them out.
structure UnorderedMap (α : Type) where
  entries : List (String × α)
  distinct : (entries.map Prod.fst).Nodup

-- That order is a matter of hashes and buckets: any arrangement of what has
-- been inserted.
structure Hashing where
  arrange : {α : Type} → List (String × α) → List (String × α)
  perm : ∀ {α : Type} (entries : List (String × α)), (arrange entries).Perm entries

namespace UnorderedMap

variable {α : Type}

-- insert takes the pair only if the key is new.
def insertEntry (entries : List (String × α)) (entry : String × α) : List (String × α) :=
  if entry.1 ∈ entries.map Prod.fst then entries else entries ++ [entry]

theorem insert_entry_distinct (entries : List (String × α)) (entry : String × α)
    (distinct : (entries.map Prod.fst).Nodup) : ((insertEntry entries entry).map Prod.fst).Nodup := by
  rw [insertEntry]
  split
  · exact distinct
  · rename_i fresh
    rw [List.map_append, List.map_singleton]
    exact List.nodup_append.mpr ⟨distinct, List.nodup_singleton _, by
      intro key member other single
      rw [List.mem_singleton.mp single]
      intro same
      subst same
      exact fresh member⟩

theorem insert_entries_distinct (list entries : List (String × α)) (distinct : (entries.map Prod.fst).Nodup) :
    ((list.foldl insertEntry entries).map Prod.fst).Nodup := by
  induction list generalizing entries with
  | nil => exact distinct
  | cons entry rest ih => exact ih _ (insert_entry_distinct entries entry distinct)

theorem insert_entries_fresh (list entries : List (String × α)) (distinct : ((entries ++ list).map Prod.fst).Nodup) :
    list.foldl insertEntry entries = entries ++ list := by
  induction list generalizing entries with
  | nil => exact (List.append_nil _).symm
  | cons entry rest ih =>
      have split : entries ++ entry :: rest = (entries ++ [entry]) ++ rest := by simp
      have fresh : entry.1 ∉ entries.map Prod.fst := by
        intro member
        rw [List.map_append, List.nodup_append] at distinct
        exact distinct.2.2 entry.1 member entry.1 (by simp) rfl
      rw [List.foldl_cons, insertEntry, if_neg fresh, ih _ (by rw [← split]; exact distinct), ← split]

def ofList (hashing : Hashing) (list : List (String × α)) : UnorderedMap α where
  entries := hashing.arrange (list.foldl insertEntry [])
  distinct := ((hashing.perm _).map Prod.fst).nodup_iff.mpr (insert_entries_distinct list [] List.nodup_nil)

end UnorderedMap

theorem map_each_ok {ε α β : Type} (convert : α → Except ε β) (result : α → β) (items : List α)
    (each : ∀ item ∈ items, convert item = .ok (result item)) : items.mapM convert = .ok (items.map result) := by
  induction items with
  | nil => rfl
  | cons item rest ih =>
      rw [List.mapM_cons, each item List.mem_cons_self, ih fun other member => each other (List.mem_cons_of_mem _ member)]
      rfl

section FromString

variable {α : Type} (yaml : YamlCpp) (fromStr : String → Except Exception α)

-- ss << node[i]; a member that is not there prints nothing.
def elementText (node : Node) (i : Nat) : String :=
  match node.index yaml i with
  | some element => yaml.emit element
  | none => ""

def elements (v : String) : Except Exception (List α) := do
  let node ← yaml.load v
  (List.range node.size).mapM fun i => fromStr (elementText yaml node i)

-- LexicalCast<std::string, std::vector<T>>, <std::string, std::list<T>> and
-- <std::string, std::set<T>>: one loop, three containers.
def vectorFromString (v : String) : Except Exception (List α) := elements yaml fromStr v

def listFromString (v : String) : Except Exception (List α) := elements yaml fromStr v

def setFromString [LinearOrder α] (v : String) : Except Exception (OrderedSet α) :=
  (elements yaml fromStr v).map Ordered.ofList

-- node.begin() to node.end(). An element of a sequence has no key: it->first
-- throws when it is read.
def members : Node → Except Exception (List (Node × Node))
  | .map entries => .ok entries
  | .sequence (_ :: _) => .error "invalid node"
  | _ => .ok []

def entries (v : String) : Except Exception (List (String × α)) := do
  let node ← yaml.load v
  let list ← members node
  list.mapM fun entry => do return (entry.1.scalarText, ← fromStr (yaml.emit entry.2))

-- LexicalCast<std::string, std::map<std::string, T>>.
def mapFromString (v : String) : Except Exception (OrderedMap α) := (entries yaml fromStr v).map Ordered.ofList

-- LexicalCast<std::string, std::unordered_map<std::string, T>>.
def unorderedMapFromString (hashing : Hashing) (v : String) : Except Exception (UnorderedMap α) :=
  (entries yaml fromStr v).map (UnorderedMap.ofList hashing)

theorem elements_sequence (items : List Node) (v : String) (loaded : yaml.load v = .ok (.sequence items)) :
    elements yaml fromStr v = items.mapM fun item => fromStr (yaml.emit item) := by
  have each : (List.range items.length).mapM (fun i => fromStr (elementText yaml (.sequence items) i)) =
      items.mapM fun item => fromStr (yaml.emit item) := by
    clear loaded
    induction items with
    | nil => rfl
    | cons item rest ih =>
        rw [List.length_cons, List.range_succ_eq_map, List.mapM_cons, List.mapM_map, List.mapM_cons, ← ih]
        rfl
  rw [elements, loaded]
  exact each

theorem entries_map (list : List (Node × Node)) (v : String) (loaded : yaml.load v = .ok (.map list)) :
    entries yaml fromStr v = list.mapM fun entry => do return (entry.1.scalarText, ← fromStr (yaml.emit entry.2)) := by
  rw [entries, loaded]
  rfl

end FromString

section ToString

variable {α : Type} (yaml : YamlCpp) (toStr : α → Except Exception String)

-- node.push_back(item) on a node that is null or a sequence.
def pushBack : Node → Node → Node
  | .sequence items, item => .sequence (items ++ [item])
  | _, item => .sequence [item]

-- The node starts as YAML::Node's default value, which is null.
def writeElements (v : List α) : Except Exception String := do
  let node ← v.foldlM (fun node i => do return pushBack node (← yaml.load (← toStr i))) .null
  return yaml.emit node

def vectorToString (v : List α) : Except Exception String := writeElements yaml toStr v

def listToString (v : List α) : Except Exception String := writeElements yaml toStr v

def setToString [LinearOrder α] (v : OrderedSet α) : Except Exception String := writeElements yaml toStr v.items

-- The node starts as an empty map, YAML::NodeType::Map.
def writeEntries (v : List (String × α)) : Except Exception String := do
  let node ← v.foldlM (fun node i => do return Entries.set node i.1 (← yaml.load (← toStr i.2))) []
  return yaml.emit (.map node)

def mapToString (v : OrderedMap α) : Except Exception String := writeEntries yaml toStr v.items

def unorderedMapToString (v : UnorderedMap α) : Except Exception String := writeEntries yaml toStr v.entries

end ToString

-- A fixed-width integer type; char and its kin print as characters.
structure IntType where
  signed : Bool
  bits : Nat
  wide : 16 ≤ bits
deriving DecidableEq, Repr

namespace IntType

def lo (ty : IntType) : Int := if ty.signed then -2 ^ (ty.bits - 1) else 0

def hi (ty : IntType) : Int := if ty.signed then 2 ^ (ty.bits - 1) - 1 else 2 ^ ty.bits - 1

def Val (ty : IntType) : Type := { n : Int // ty.lo ≤ n ∧ n ≤ ty.hi }

-- boost::lexical_cast reads a minus sign for an unsigned type too and negates
-- modulo 2^bits.
def negate (ty : IntType) (magnitude : Nat) : Int :=
  if ty.signed then -(magnitude : Int) else if (magnitude : Int) ≤ ty.hi then -(magnitude : Int) % 2 ^ ty.bits else -1

def parse (ty : IntType) (text : List Char) : Option Int :=
  match text with
  | '-' :: digits => (decimal digits).map ty.negate
  | '+' :: digits => (decimal digits).map Int.ofNat
  | digits => (decimal digits).map Int.ofNat

-- boost::lexical_cast<T>(text).
def fromString (ty : IntType) (text : String) : Except Exception ty.Val :=
  match ty.parse text.toList with
  | some n => if inside : ty.lo ≤ n ∧ n ≤ ty.hi then .ok ⟨n, inside⟩ else .error "bad lexical cast"
  | none => .error "bad lexical cast"

-- boost::lexical_cast<std::string>(n).
def toString (ty : IntType) (n : ty.Val) : String := n.1.repr

end IntType

section Decimal

theorem decimal_digits (digits : List Char) (number : Nat) (all : ∀ c ∈ digits, c.isDigit) :
    digits.foldlM (fun number c => if c.isDigit then some (10 * number + (c.toNat - '0'.toNat)) else none) number =
      some (Nat.ofDigitChars 10 digits number) := by
  induction digits generalizing number with
  | nil => rfl
  | cons c rest ih =>
      have digit : c.isDigit = true := all c List.mem_cons_self
      simp only [List.foldlM_cons, digit, if_true, Option.bind_eq_bind, Option.bind_some]
      exact (ih _ fun other member => all other (List.mem_cons_of_mem _ member)).trans (by rw [Nat.ofDigitChars_cons])

theorem decimal_repr (n : Nat) : decimal n.repr.toList = some n := by
  have nonempty : (Nat.toDigits 10 n).isEmpty = false := by simp [Nat.toDigits_ne_nil]
  rw [Nat.toList_repr, decimal, nonempty, if_neg (by simp),
    decimal_digits _ 0 fun c member => Nat.isDigit_of_mem_toDigits (by decide) (by decide) member,
    Nat.ofDigitChars_ten_toDigits]

theorem repr_head (n : Nat) : ∃ c rest, n.repr.toList = c :: rest ∧ c.isDigit := by
  rw [Nat.toList_repr]
  cases digits : Nat.toDigits 10 n with
  | nil => exact absurd digits Nat.toDigits_ne_nil
  | cons c rest =>
      exact ⟨c, rest, rfl, Nat.isDigit_of_mem_toDigits (b := 10) (n := n) (by decide) (by decide) (by simp [digits])⟩

theorem parse_unsigned (ty : IntType) (text : List Char) (noMinus : ∀ rest, text ≠ '-' :: rest)
    (noPlus : ∀ rest, text ≠ '+' :: rest) : ty.parse text = (decimal text).map Int.ofNat := by
  unfold IntType.parse
  split
  · exact absurd rfl (noMinus _)
  · exact absurd rfl (noPlus _)
  · rfl

theorem parse_digits (ty : IntType) (n : Nat) : ty.parse n.repr.toList = some (n : Int) := by
  obtain ⟨c, rest, text, digit⟩ := repr_head n
  have unsigned (sign : Char) (noDigit : ¬ sign.isDigit) (other : List Char) : n.repr.toList ≠ sign :: other := by
    intro same
    rw [text] at same
    exact noDigit ((List.cons.inj same).1 ▸ digit)
  rw [parse_unsigned ty _ (unsigned '-' (by decide)) (unsigned '+' (by decide)), decimal_repr]
  rfl

theorem parse_minus (ty : IntType) (magnitude : Nat) (signed : ty.signed = true) :
    ty.parse ("-" ++ magnitude.repr).toList = some (-(magnitude : Int)) := by
  have text : ("-" ++ magnitude.repr).toList = '-' :: magnitude.repr.toList := by
    rw [String.toList_append]
    rfl
  rw [text, IntType.parse, decimal_repr, Option.map_some, IntType.negate, if_pos signed]

theorem parse_to_string (ty : IntType) (n : ty.Val) : ty.parse (ty.toString n).toList = some n.1 := by
  obtain ⟨value, low, high⟩ := n
  simp only [IntType.toString, Int.repr_eq_if]
  split
  · rename_i positive
    obtain ⟨number, rfl⟩ := Int.eq_ofNat_of_zero_le positive
    exact parse_digits ty number
  · rename_i negative
    obtain ⟨magnitude, rfl⟩ : ∃ magnitude : Nat, value = -(magnitude : Int) := ⟨value.natAbs, by omega⟩
    have signed : ty.signed = true := by
      by_contra unsigned
      simp only [IntType.lo, if_neg unsigned] at low
      omega
    have same : (- -(magnitude : Int)).toNat = magnitude := by omega
    rw [same]
    exact parse_minus ty magnitude signed

theorem int_from_to_string (ty : IntType) (n : ty.Val) : ty.fromString (ty.toString n) = .ok n := by
  rw [IntType.fromString, parse_to_string]
  exact dif_pos n.2

def int32 : IntType := ⟨true, 32, by decide⟩

-- lexicalCastInt is lexical_cast at this type.
theorem lexical_cast_int32 (text : String) : lexicalCastInt text = (int32.fromString text).map fun n => n.1 := by
  have checked (number : Option Int) :
      (match number with
        | some value => if -2147483648 ≤ value ∧ value ≤ 2147483647 then .ok value else .error "bad lexical cast"
        | none => .error "bad lexical cast" : Except Exception Int) =
      (match number with
        | some n => if inside : int32.lo ≤ n ∧ n ≤ int32.hi then .ok ⟨n, inside⟩ else .error "bad lexical cast"
        | none => .error "bad lexical cast" : Except Exception int32.Val).map fun n => n.1 := by
    cases number with
    | none => rfl
    | some value =>
        by_cases inside : int32.lo ≤ value ∧ value ≤ int32.hi
        · have range : -2147483648 ≤ value ∧ value ≤ 2147483647 := inside
          simp only [dif_pos inside, if_pos range]
          rfl
        · have range : ¬ (-2147483648 ≤ value ∧ value ≤ 2147483647) := inside
          simp only [dif_neg inside, if_neg range]
          rfl
  rw [IntType.fromString, ← checked, lexicalCastInt]
  generalize text.toList = list
  congr 1
  split
  · rename_i rest
    change _ = (decimal rest).map int32.negate
    cases decimal rest <;> rfl
  · rename_i rest
    change _ = (decimal rest).map Int.ofNat
    cases decimal rest <;> rfl
  · rename_i noMinus noPlus
    rw [parse_unsigned int32 list noMinus noPlus]
    cases decimal list <;> rfl

end Decimal

end Sylar.Config
