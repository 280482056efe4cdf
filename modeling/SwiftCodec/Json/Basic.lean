import SwiftCodec.Name.Map
import SwiftCodec.Number.Binary64

/-!
JSON values. An object keeps its members in the order written, repeated keys included; which of
two members with one key counts is for the reader to say.
-/
namespace SwiftCodec

/-- A number as classified by its text: integers within sixty-four bits stay exact, everything
else is a double. `negative n` stands for `-n` and is used for positive `n` only. -/
inductive Number where
  | natural (n : Nat)
  | negative (n : Nat)
  | double (x : Binary64)
deriving DecidableEq, Repr, Inhabited

inductive Json where
  | null
  | bool (b : Bool)
  | number (n : Number)
  | string (s : String)
  | array (items : List Json)
  | object (members : List (String × Json))
deriving Repr, Inhabited, BEq

namespace Json

/-- The value of the last member with the key. -/
def member? (key : String) : Json → Option Json
  | .object ms => ms.reverse.lookup key
  | _ => none

mutual
/-- Every object keeps one member for a key: the place of the first, the value of the last. -/
def unrepeated : Json → Json
  | .array items => .array (unrepeatedItems items)
  | .object members => .object (unrepeatedMembers [] members)
  | j => j
termination_by structural j => j
def unrepeatedItems : List Json → List Json
  | [] => []
  | j :: rest => unrepeated j :: unrepeatedItems rest
termination_by structural js => js
def unrepeatedMembers (kept : List (String × Json)) : List (String × Json) → List (String × Json)
  | [] => kept
  | (k, j) :: rest => unrepeatedMembers (NameMap.insertInto k (unrepeated j) kept) rest
termination_by structural ms => ms
end

end Json

end SwiftCodec
