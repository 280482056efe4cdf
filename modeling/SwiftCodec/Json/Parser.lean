import SwiftCodec.Json.Lexeme

/-!
Reading a JSON value. `value` builds the value and keeps the way down to a fault; `skip` only
steps over it, with a laxer idea of what a number is and no limit on nesting. In both the first
argument bounds the recursion: a call uses at least half a character of the text.
-/
namespace SwiftCodec

namespace Cursor

/-- Expects the colon behind a key. -/
def colon (c : Cursor) : Except Fault Cursor :=
  let c := c.skipBlanks
  match c.rest with
  | ':' :: _ => .ok c.next
  | [] => .error (c.faultAhead .endInObject)
  | _ => .error (c.faultAhead .expectedColon)

/-- Steps to the next item of an array, or over its closing bracket; says which. -/
def nextItem (first : Bool) (c : Cursor) : Except Fault (Bool × Cursor) :=
  let c := c.skipBlanks
  match c.rest with
  | [] => .error (c.faultAhead .endInList)
  | ']' :: _ => .ok (false, c.next)
  | x :: _ =>
    if first then .ok (true, c)
    else if x = ',' then
      let c := c.next.skipBlanks
      match c.rest with
      | [] => .error (c.faultAhead .endInValue)
      | ']' :: _ => .error (c.faultAhead .trailingComma)
      | _ => .ok (true, c)
    else .error (c.faultAhead .expectedListEnd)

/-- Reads the next key of an object, or steps over its closing brace. -/
def nextKey (first : Bool) (c : Cursor) : Except Fault (Option String × Cursor) :=
  let key (c : Cursor) : Except Fault (Option String × Cursor) := do
    let (k, c) ← c.next.stringRest
    .ok (some k, c)
  let c := c.skipBlanks
  match c.rest with
  | [] => .error (c.faultAhead .endInObject)
  | '\x7d' :: _ => .ok (none, c.next)
  | x :: _ =>
    if first then
      if x = '\x22' then key c else .error (c.faultAhead .keyNotString)
    else if x = ',' then
      let c := c.next.skipBlanks
      match c.rest with
      | [] => .error (c.faultAhead .endInValue)
      | '\x22' :: _ => key c
      | '\x7d' :: _ => .error (c.faultAhead .trailingComma)
      | _ => .error (c.faultAhead .keyNotString)
    else .error (c.faultAhead .expectedObjectEnd)

end Cursor

/-- Prefixes the path of a fault. -/
def underStep (step : PathStep) (r : Except Fault α) : Except Fault α := r.mapError (·.under step)

/-- Containers that may be open at once, the outermost included, is one less. -/
def nestingLimit : Nat := 128

namespace Cursor

/-- Reads `null`, `true`, `false`, a number or a string; `none` when something else comes next. -/
def scalar? (c : Cursor) : Option (Except Fault (Json × Cursor)) :=
  match c.rest with
  | 'n' :: _ => some ((literal "null".toList c).map fun c => (.null, c))
  | 't' :: _ => some ((literal "true".toList c).map fun c => (.bool true, c))
  | 'f' :: _ => some ((literal "false".toList c).map fun c => (.bool false, c))
  | '\x22' :: _ => some (c.next.stringRest.map fun (s, c) => (.string s, c))
  | x :: _ =>
    if x = '-' || isDigit x then some (c.number.map fun (n, c) => (.number n, c)) else none
  | [] => none

mutual
/-- Reads a value at a place where `depth` further containers, less one, may be opened. -/
def value : Nat → Nat → Cursor → Except Fault (Json × Cursor)
  | 0, _, c => .error (c.fault .endInValue)
  | fuel + 1, depth, c =>
    let c := c.skipBlanks
    match c.scalar? with
    | some r => r
    | none =>
      match c.rest with
      | [] => .error (c.faultAhead .endInValue)
      | '[' :: _ =>
        if depth ≤ 1 then .error (c.faultAhead .tooDeep)
        else do
          let (items, c) ← items fuel (depth - 1) 0 c.next
          .ok (.array items, c)
      | '\x7b' :: _ =>
        if depth ≤ 1 then .error (c.faultAhead .tooDeep)
        else do
          let (members, c) ← members fuel (depth - 1) true c.next
          .ok (.object members, c)
      | _ => .error (c.faultAhead .expectedValue)
termination_by structural fuel => fuel

/-- Reads the items of an array from the one with a given index on. -/
def items : Nat → Nat → Nat → Cursor → Except Fault (List Json × Cursor)
  | 0, _, _, c => .error (c.fault .endInList)
  | fuel + 1, depth, index, c => do
    let (more, c) ← c.nextItem (index == 0)
    if more then
      let (j, c) ← underStep (.index index) (value fuel depth c)
      let (js, c) ← items fuel depth (index + 1) c
      .ok (j :: js, c)
    else .ok ([], c)
termination_by structural fuel => fuel

/-- Reads the members of an object; `first` when none has been read. -/
def members : Nat → Nat → Bool → Cursor → Except Fault (List (String × Json) × Cursor)
  | 0, _, _, c => .error (c.fault .endInObject)
  | fuel + 1, depth, first, c => do
    let (key?, c) ← underStep .unread (c.nextKey first)
    match key? with
    | none => .ok ([], c)
    | some key =>
      let c ← c.colon
      let (j, c) ← underStep (.key key) (value fuel depth c)
      let (ms, c) ← members fuel depth false c
      .ok ((key, j) :: ms, c)
termination_by structural fuel => fuel
end

/-- Enough for any text: a call either takes a character or is followed by one that does. -/
def fuel (c : Cursor) : Nat := 2 * c.rest.length + 2

mutual
/-- Steps over a value. -/
def skip : Nat → Cursor → Except Fault Cursor
  | 0, c => .error (c.fault .endInValue)
  | fuel + 1, c =>
    let c := c.skipBlanks
    match c.rest with
    | [] => .error (c.faultAhead .endInValue)
    | 'n' :: _ => literal "null".toList c
    | 't' :: _ => literal "true".toList c
    | 'f' :: _ => literal "false".toList c
    | '\x22' :: _ => c.next.skipString
    | '[' :: _ =>
      let c := c.next.skipBlanks
      match c.rest with
      | [] => .error (c.faultAhead .endInList)
      | ']' :: _ => .ok c.next
      | _ => skipItems fuel c
    | '\x7b' :: _ =>
      let c := c.next.skipBlanks
      match c.rest with
      | [] => .error (c.faultAhead .endInObject)
      | '\x7d' :: _ => .ok c.next
      | _ => skipMembers fuel c
    | x :: _ =>
      if x = '-' || isDigit x then (c.numeral .badNumber).map Prod.snd
      else .error (c.faultAhead .expectedValue)
termination_by structural fuel => fuel

/-- Steps over the items of an array, one of which must come next. -/
def skipItems : Nat → Cursor → Except Fault Cursor
  | 0, c => .error (c.fault .endInList)
  | fuel + 1, c => do
    let c ← skip fuel c
    let c := c.skipBlanks
    match c.rest with
    | [] => .error (c.faultAhead .endInList)
    | ']' :: _ => .ok c.next
    | ',' :: _ => skipItems fuel c.next
    | _ => .error (c.faultAhead .expectedListEnd)
termination_by structural fuel => fuel

/-- Steps over the members of an object, one of which must come next. -/
def skipMembers : Nat → Cursor → Except Fault Cursor
  | 0, c => .error (c.fault .endInObject)
  | fuel + 1, c => do
    let c := c.skipBlanks
    match c.rest with
    | [] => .error (c.faultAhead .endInObject)
    | '\x22' :: _ =>
      let c ← c.next.skipString
      let c ← c.colon
      let c ← skip fuel c
      let c := c.skipBlanks
      match c.rest with
      | [] => .error (c.faultAhead .endInObject)
      | '\x7d' :: _ => .ok c.next
      | ',' :: _ => skipMembers fuel c.next
      | _ => .error (c.faultAhead .expectedObjectEnd)
    | _ => .error (c.faultAhead .keyNotString)
termination_by structural fuel => fuel
end

/-- Expects nothing but blanks. -/
def finish (c : Cursor) : Except Fault Unit :=
  let c := c.skipBlanks
  if c.rest = [] then .ok () else .error (c.faultAhead .trailingText)

end Cursor

/-- Reads a text that is one JSON value; repeated keys are kept. -/
def Json.parse (text : String) : Except Fault Json := do
  let c := Cursor.ofString text
  let (j, c) ← c.value c.fuel nestingLimit
  c.finish
  .ok j

end SwiftCodec
