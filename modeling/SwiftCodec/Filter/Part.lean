import SwiftCodec.Filter.Outputs
import SwiftCodec.Name.Map

/-!
The parts of arrays, objects and strings: reading them, and changing them in place.
-/
namespace SwiftCodec

namespace Filter

/-- A step from a value to a part of it, or to each of its parts. -/
inductive Part where
  | each
  | under (key : Value)
  /-- The items between two bounds; a missing bound means the end of the sequence. -/
  | between (start stop : Option Value)
deriving Repr, Inhabited

/-- A step that may be optional: then a value that has no such part is not an error. -/
structure Route where
  part : Part
  isOptional : Bool
deriving Repr, Inhabited

def integer (v : Value) : Except Stop Int :=
  match v with
  | .number (.whole i) => .ok i
  | v => unfit v "integer"

/-- The place that an index means in a sequence; a negative one counts from the end. -/
def place? (i : Int) (size : Nat) : Option Nat :=
  let p := if i < 0 then i + size else i
  if 0 ≤ p ∧ p < size then some p.toNat else none

/-- A bound of a slice, moved into the sequence. -/
def bound (size missing : Nat) : Option Value → Except Stop Nat
  | none => .ok missing
  | some v => do
    let i ← integer v
    .ok (if i < 0 then (i + size).toNat else min i.toNat size)

/-- The items in front of a slice, in it, and behind it. -/
def cut {α : Type} (items : List α) (start stop : Option Value) :
    Except Stop (List α × List α × List α) := do
  let a ← bound items.length 0 start
  let b ← bound items.length items.length stop
  .ok (items.take a, (items.take b).drop a, items.drop (max a b))

def unindexed {α : Type} (v key : Value) : Except Stop α :=
  failure ("cannot index " ++ v.text ++ " with " ++ key.text)

/-! ## Reading -/

def index (v key : Value) : Result :=
  match v, key with
  | .object ms, .string k => .ok ((ms.lookup k).getD .null)
  | .array items, .number (.whole i) =>
    .ok (((place? i items.length).bind (items[·]?)).getD .null)
  | v, key => unindexed v key

def children : Value → Except Stop (List Value)
  | .array items => .ok items
  | .object ms => .ok (ms.map Prod.snd)
  | v => unfit v "iterable (array or object)"

def slice (v : Value) (start stop : Option Value) : Result :=
  match v with
  | .array items => do .ok (.array (← cut items start stop).2.1)
  | .string s => do .ok (.string (String.ofList (← cut s.toList start stop).2.1))
  | v => unfit v "rangeable (array or string)"

def Part.read (v : Value) : Part → Except Stop (List Value)
  | .each => children v
  | .under key => (index v key).map fun w => [w]
  | .between start stop => (slice v start stop).map fun w => [w]

/-- The parts a step leads to. -/
def Route.read (v : Value) (r : Route) : Outputs Value :=
  match r.part.read v with
  | .ok vs => .ofList vs
  | .error s => if r.isOptional then .nil else .stop s

/-- The parts that several steps lead to, one after another. -/
def readAlong (routes : List Route) (v : Value) : Outputs Value :=
  match routes with
  | [] => .one v
  | r :: rest => (r.read v).bind (readAlong rest)

/-! ## Change -/

/-- Replaces each item by all values of a filter, and each member by the first one. A member for
which there is none goes away. -/
def changeEach (f : Value → Outputs Value) : Value → Result
  | .array items => do .ok (.array (← items.mapM fun v => (f v).values).flatten)
  | .object ms => do
    let changed ← ms.mapM fun (k, v) => (f v).first.map fun w? => w?.map fun w => (k, w)
    .ok (.object (changed.filterMap id))
  | v => .ok v

/-- A part of a value, and the value with another part, or none, in its place. -/
structure Slot where
  part : Value
  refill : Option Value → Result

/-- Replaces a part by the first value of a filter, or takes it away if there is none. -/
def Slot.change (s : Slot) (f : Value → Outputs Value) : Result := do
  s.refill (← (f s.part).first)

/-- An object without a member. The last member moves to the free place. -/
def withoutMember (key : String) (ms : List (String × Value)) : List (String × Value) :=
  match ms.getLast? with
  | none => []
  | some last =>
    if last.1 = key then ms.dropLast
    else if (ms.lookup key).isNone then ms
    else ms.dropLast.map fun m => if m.1 = key then last else m

/-- The part at a key. A member that an object lacks counts as null; an item has to be there. -/
def slotAt (v key : Value) : Except Stop Slot :=
  match v, key with
  | .object ms, .string k =>
    .ok ⟨(ms.lookup k).getD .null, fun
      | some w => .ok (.object (NameMap.insertInto k w ms))
      | none => .ok (.object (withoutMember k ms))⟩
  | .array items, key => do
    match place? (← integer key) items.length with
    | none => failure ("index " ++ key.text ++ " out of bounds")
    | some i =>
      .ok ⟨items[i]?.getD .null, fun
        | some w => .ok (.array (items.set i w))
        | none => .ok (.array (items.eraseIdx i))⟩
  | .object ms, key => unindexed (.object ms) key
  | v, _ => unfit v "iterable (array or object)"

/-- A slice of an array, whose place only an array can take. -/
def slotBetween (start stop : Option Value) : Value → Except Stop Slot
  | .array items => do
    let (before, inside, after) ← cut items start stop
    .ok ⟨.array inside, fun
      | some (.array vs) => .ok (.array (before ++ vs ++ after))
      | some v => unfit v "array"
      | none => .ok (.array (before ++ after))⟩
  | v => unfit v "array"

/-- Changes the parts of a value that a step leads to. -/
def Part.change (v : Value) (f : Value → Outputs Value) : Part → Except Stop (Unit → Result)
  | .each => (children v).map fun _ _ => changeEach f v
  | .under key => (slotAt v key).map fun slot _ => slot.change f
  | .between start stop => (slotBetween start stop v).map fun slot _ => slot.change f

/-- A value without the part stays as it is if the step is optional. -/
def Route.change (v : Value) (f : Value → Outputs Value) (r : Route) : Result :=
  match r.part.change v f with
  | .ok change => change ()
  | .error s => if r.isOptional then .ok v else .error s

/-- Changes the parts that several steps lead to. -/
def changeAlong (f : Value → Outputs Value) : List Route → Value → Result
  | [], v => .ok v
  | [r], v => r.change v f
  | r :: rest, v => r.change v fun w => .last (changeAlong f rest w)

end Filter

end SwiftCodec
