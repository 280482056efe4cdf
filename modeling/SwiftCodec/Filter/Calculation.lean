import SwiftCodec.Filter.Outputs
import SwiftCodec.Filter.Term
import SwiftCodec.Name.Map

/-!
Arithmetic and comparison of values.
-/
namespace SwiftCodec

namespace Filter

/-- Where `inner` occurs in `outer`; every item of `outer` may begin an occurrence. -/
def occurrences {α : Type} (same : α → α → Bool) (inner : List α) : List α → Nat → List Nat
  | [], _ => []
  | x :: rest, i =>
    let later := occurrences same inner rest (i + 1)
    if ! inner.isEmpty && startsWith inner (x :: rest) then i :: later else later
where
  startsWith : List α → List α → Bool
    | [], _ => true
    | _ :: _, [] => false
    | a :: as, b :: bs => same b a && startsWith as bs

/-- The parts of a text between occurrences of a separator, or its characters if the separator is
empty. An empty text has no parts. -/
def parts (text separator : String) : List String :=
  if text.isEmpty then []
  else if separator.isEmpty then text.toList.map String.singleton
  else text.splitOn separator

mutual
/-- The members of both objects, those under a shared key merged if both are objects. -/
def merge : Value → Value → Value
  | .object ms, .object ns => .object (mergeMembers ms ns)
  | _, w => w
termination_by structural _ w => w
def mergeMembers (ms : List (String × Value)) : List (String × Value) → List (String × Value)
  | [] => ms
  | (k, w) :: ns =>
    let merged :=
      match ms.lookup k with
      | some v => merge v w
      | none => w
    mergeMembers (NameMap.insertInto k merged ms) ns
termination_by structural ns => ns
end

/-- A text so many times; null if that is not at least once. -/
def repeated (s : String) (n : Int) : Value :=
  if 0 < n then .string (String.join (List.replicate n.toNat s)) else .null

def Arithmetic.symbol : Arithmetic → String
  | .add => "+"
  | .subtract => "-"
  | .multiply => "*"
  | .divide => "/"
  | .remainder => "%"

def Arithmetic.run (op : Arithmetic) (v w : Value) : Result :=
  let impossible : Result :=
    failure ("cannot calculate " ++ v.text ++ " " ++ op.symbol ++ " " ++ w.text)
  match op, v, w with
  | .add, .null, w => .ok w
  | .add, v, .null => .ok v
  | .add, .number p, .number q => .ok (.number (p.add q))
  | .add, .string s, .string t => .ok (.string (s ++ t))
  | .add, .array vs, .array ws => .ok (.array (vs ++ ws))
  | .add, .object ms, .object ns =>
    .ok (.object (ns.foldl (fun ms (k, w) => NameMap.insertInto k w ms) ms))
  | .subtract, .number p, .number q => .ok (.number (p.subtract q))
  | .subtract, .array vs, .array ws => .ok (.array (vs.filter fun v => ! ws.any v.equals))
  | .multiply, .number p, .number q => .ok (.number (p.multiply q))
  | .multiply, .string s, .number (.whole n) => .ok (repeated s n)
  | .multiply, .number (.whole n), .string s => .ok (repeated s n)
  | .multiply, .object ms, .object ns => .ok (merge (.object ms) (.object ns))
  | .divide, .number p, .number q => .ok (.number (p.divide q))
  | .divide, .string s, .string t => .ok (.array ((parts s t).map .string))
  | .remainder, .number p, .number q =>
    match p.remainder? q with
    | some r => .ok (.number r)
    | none => impossible
  | _, _, _ => impossible

def Comparison.holds (op : Comparison) (v w : Value) : Bool :=
  match op, v.compare w with
  | .equal, o => o == .eq
  | .different, o => o != .eq
  | .less, o => o == .lt
  | .atMost, o => o != .gt
  | .greater, o => o == .gt
  | .atLeast, o => o != .lt

def Operator.run (op : Operator) (v w : Value) : Result :=
  match op with
  | .arithmetic op => op.run v w
  | .comparison op => .ok (.bool (op.holds v w))

def negated : Value → Result
  | .number q => .ok (.number q.negate)
  | v => unfit v "number"

end Filter

end SwiftCodec
