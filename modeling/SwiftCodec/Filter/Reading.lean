import SwiftCodec.Filter.Value
import SwiftCodec.Json.Parser

/-!
Reading a value of a filter from its text. Numbers keep their spelling, and there is no limit on
nesting. The first argument bounds the recursion: a call uses at least half a character.
-/
namespace SwiftCodec

namespace Filter

mutual
def readValue : Nat → Cursor → Except Fault (Value × Cursor)
  | 0, c => .error (c.fault .endInValue)
  | fuel + 1, c =>
    let c := c.skipBlanks
    match c.rest with
    | [] => .error (c.faultAhead .endInValue)
    | 'n' :: _ => (Cursor.literal "null".toList c).map fun c => (.null, c)
    | 't' :: _ => (Cursor.literal "true".toList c).map fun c => (.bool true, c)
    | 'f' :: _ => (Cursor.literal "false".toList c).map fun c => (.bool false, c)
    | '\x22' :: _ => c.next.stringRest.map fun (s, c) => (.string s, c)
    | '[' :: _ => (readItems fuel true c.next).map fun (vs, c) => (.array vs, c)
    | '\x7b' :: _ => (readMembers fuel [] true c.next).map fun (ms, c) => (.object ms, c)
    | x :: _ =>
      if x = '-' ∨ Cursor.isDigit x then do
        let (_, behind) ← c.numeral .endInValue
        let text := c.rest.take (behind.position.column - c.position.column)
        .ok (.number (.ofText (String.ofList text)), behind)
      else .error (c.faultAhead .expectedValue)
termination_by structural fuel => fuel

/-- Reads the items of an array; `first` when none has been read. -/
def readItems : Nat → Bool → Cursor → Except Fault (List Value × Cursor)
  | 0, _, c => .error (c.fault .endInList)
  | fuel + 1, first, c => do
    let (more, c) ← c.nextItem first
    if more then
      let (v, c) ← readValue fuel c
      let (vs, c) ← readItems fuel false c
      .ok (v :: vs, c)
    else .ok ([], c)
termination_by structural fuel => fuel

/-- Reads members and puts them into those that have been read. -/
def readMembers : Nat → List (String × Value) → Bool → Cursor →
    Except Fault (List (String × Value) × Cursor)
  | 0, _, _, c => .error (c.fault .endInObject)
  | fuel + 1, done, first, c => do
    let (key?, c) ← c.nextKey first
    match key? with
    | none => .ok (done, c)
    | some key =>
      let (v, c) ← readValue fuel (← c.colon)
      readMembers fuel (NameMap.insertInto key v done) false c
termination_by structural fuel => fuel
end

def Value.parse (text : String) : Except Fault Value := do
  let c := Cursor.ofString text
  let (v, c) ← readValue c.fuel c
  c.finish
  .ok v

end Filter

end SwiftCodec
