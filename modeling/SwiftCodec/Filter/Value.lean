import SwiftCodec.Filter.Quantity
import SwiftCodec.Json.Writer

/-!
The values of filters: JSON values whose numbers are quantities. An object has each of its keys
once, in the order in which they came.
-/
namespace SwiftCodec

namespace Filter

inductive Value where
  | null
  | bool (b : Bool)
  | number (q : Quantity)
  | string (s : String)
  | array (items : List Value)
  | object (members : List (String × Value))
deriving Repr, Inhabited

namespace Value

def ofInt (n : Int) : Value := .number (.wrapped n)
def ofNat (n : Nat) : Value := .ofInt n

mutual
/-- Numbers keep the spelling of the document. -/
def ofJson : Json → Value
  | .null => .null
  | .bool b => .bool b
  | .number n => .number (.ofText n.text)
  | .string s => .string s
  | .array items => .array (ofJsonItems items)
  | .object members => .object (ofJsonMembers members)
termination_by structural j => j
def ofJsonItems : List Json → List Value
  | [] => []
  | j :: rest => ofJson j :: ofJsonItems rest
termination_by structural js => js
def ofJsonMembers : List (String × Json) → List (String × Value)
  | [] => []
  | (k, j) :: rest => (k, ofJson j) :: ofJsonMembers rest
termination_by structural ms => ms
end

/-! ## Text -/

/-- The text of one character inside a string. -/
def escapeChar (c : Char) : List Char :=
  match c with
  | '\x22' => ['\\', '\x22']
  | '\\' => ['\\', '\\']
  | '\x09' => ['\\', 't']
  | '\x0a' => ['\\', 'n']
  | '\x0d' => ['\\', 'r']
  | c =>
    if c.toNat < 32 ∨ c.toNat = 127 then
      ['\\', 'u', '0', '0', Json.hexDigit (c.toNat / 16), Json.hexDigit (c.toNat % 16)]
    else [c]

/-- A string in quotes. -/
def quote (s : String) : String :=
  String.ofList ('\x22' :: s.toList.flatMap escapeChar ++ ['\x22'])

mutual
/-- The text of a value, without blanks. -/
def text : Value → String
  | .null => "null"
  | .bool true => "true"
  | .bool false => "false"
  | .number q => q.text
  | .string s => quote s
  | .array items => "[" ++ ",".intercalate (itemTexts items) ++ "]"
  | .object members => "\x7b" ++ ",".intercalate (memberTexts members) ++ "\x7d"
termination_by structural v => v
def itemTexts : List Value → List String
  | [] => []
  | v :: rest => text v :: itemTexts rest
termination_by structural vs => vs
def memberTexts : List (String × Value) → List String
  | [] => []
  | (k, v) :: rest => (quote k ++ ":" ++ text v) :: memberTexts rest
termination_by structural ms => ms
end

/-- A string stands for itself, everything else for its text. -/
def plainText : Value → String
  | .string s => s
  | v => v.text

/-! ## Kinds -/

/-- All values but null and false hold. -/
def holds : Value → Bool
  | .null => false
  | .bool b => b
  | _ => true

def typeName : Value → String
  | .null => "null"
  | .bool _ => "boolean"
  | .number _ => "number"
  | .string _ => "string"
  | .array _ => "array"
  | .object _ => "object"

/-! ## Order

Null, false, true, numbers by value, strings by characters, arrays item by item, and objects
first by their sorted keys and then by the values under them. -/

mutual
/-- The value with the members of each object sorted by their keys. -/
def sorted : Value → Value
  | .array items => .array (sortedItems items)
  | .object members => .object ((sortedMembers members).mergeSort fun a b => a.1 ≤ b.1)
  | v => v
termination_by structural v => v
def sortedItems : List Value → List Value
  | [] => []
  | v :: rest => sorted v :: sortedItems rest
termination_by structural vs => vs
def sortedMembers : List (String × Value) → List (String × Value)
  | [] => []
  | (k, v) :: rest => (k, sorted v) :: sortedMembers rest
termination_by structural ms => ms
end

/-- The place of a kind of value among the others. -/
def rank : Value → Nat
  | .null => 0
  | .bool false => 1
  | .bool true => 2
  | .number _ => 3
  | .string _ => 4
  | .array _ => 5
  | .object _ => 6

mutual
/-- Compares values whose objects are sorted. -/
def compareSorted : Value → Value → Ordering
  | .number p, .number q => p.compare q
  | .string s, .string t => Ord.compare s t
  | .array vs, .array ws => compareItems vs ws
  | .object ms, .object ns =>
    (compareOfLessAndEq (ms.map Prod.fst) (ns.map Prod.fst)).then (compareMembers ms ns)
  | v, w => Ord.compare v.rank w.rank
termination_by structural v => v
def compareItems : List Value → List Value → Ordering
  | [], [] => .eq
  | [], _ :: _ => .lt
  | _ :: _, [] => .gt
  | v :: vs, w :: ws => (compareSorted v w).then (compareItems vs ws)
termination_by structural vs => vs
def compareMembers : List (String × Value) → List (String × Value) → Ordering
  | [], [] => .eq
  | [], _ :: _ => .lt
  | _ :: _, [] => .gt
  | (_, v) :: ms, (_, w) :: ns => (compareSorted v w).then (compareMembers ms ns)
termination_by structural ms => ms
end

def compare (v w : Value) : Ordering := compareSorted v.sorted w.sorted

def equals (v w : Value) : Bool := compare v w == .eq

/-- Sorts by a key, leaving values with equal keys in their order. -/
def sortOn {α : Type} (key : α → Value) (as : List α) : List α :=
  as.mergeSort fun a b => (key a).compare (key b) != .gt

end Value

end Filter

end SwiftCodec
