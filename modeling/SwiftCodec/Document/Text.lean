import SwiftCodec.Document.Value

/-!
Reading a source file from its text. The two keys of the file are read as they come; each
declaration is first read as a JSON value, its kind being checked where it stands, and settled
afterwards. Text behind the document is not looked at.

A failure that concerns a container as a whole is reported where reading it was given up: behind
its closing bracket if that comes next.
-/
namespace SwiftCodec

namespace Document

def textUnder (step : PathStep) (r : Except TextFailure α) : Except TextFailure α :=
  r.mapError (·.under step)

/-- Lifts the reading of JSON. -/
def scanning (r : Except Fault α) : Except TextFailure α := r.mapError .ofFault

/-- Where an object is given up: behind a brace that comes next. -/
def objectEnd (c : Cursor) : Position :=
  let c := c.skipBlanks
  match c.rest with
  | '\x7d' :: _ => c.next.position
  | _ => c.position

/-- Where an array is given up: behind a bracket, or a comma and blanks, that come next. -/
def arrayEnd (c : Cursor) : Position :=
  let c := c.skipBlanks
  match c.rest with
  | ']' :: _ => c.next.position
  | ',' :: _ => c.next.skipBlanks.position
  | _ => c.position

def failAt (position : Position) (cause : Cause) : Except TextFailure α :=
  .error ⟨⟨[], cause⟩, position⟩

/-- A value of the wrong kind: behind it when it is a scalar, in front of it otherwise. -/
def textMismatch (expected : Expectation) (c : Cursor) : Except TextFailure α :=
  match c.scalar? with
  | some r => do
    let (j, c) ← scanning r
    failAt c.position (.mismatch j.describe expected)
  | none =>
    match c.rest with
    | '[' :: _ => failAt c.position (.mismatch (Json.array []).describe expected)
    | '\x7b' :: _ => failAt c.position (.mismatch (Json.object []).describe expected)
    | _ => scanning (.error (c.faultAhead .expectedValue))

/-- Expects something other than blanks. -/
def begun (c : Cursor) : Except TextFailure Cursor :=
  let c := c.skipBlanks
  if c.rest = [] then scanning (.error (c.faultAhead .endInValue)) else .ok c

def textString (expected : Expectation) (c : Cursor) : Except TextFailure (String × Cursor) := do
  let c ← begun c
  match c.rest with
  | '\x22' :: _ => scanning c.next.stringRest
  | _ => textMismatch expected c

def textKind (c : Cursor) : Except TextFailure (Kind × Cursor) := do
  let (s, c) ← textString .kind c
  match Kind.ofText s with
  | .ok k => .ok (k, c)
  | .error f => failAt c.position f.cause

/-- Steps to the next item of the array that is being read, which must be there. -/
def expectItem (record : Record) (index : Nat) (c : Cursor) : Except TextFailure Cursor := do
  let (more, d) ← scanning (c.nextItem (index == 0))
  if more then .ok d else failAt d.position (.tooShort index record)

/-! ## Declarations -/

/-- Settles a declaration once its kind and the rest of it are known. -/
def settle (kind : Kind) (members : List (String × Json)) : Reading Declaration :=
  readDeclaration .outside (.object (("kind", .string kind.text) :: members))

def settleItems (kind : Kind) (items : List Json) : Reading Declaration :=
  readDeclaration .outside (.array (.string kind.text :: items))

/-- Reads the members of a declaration other than its kind. -/
def textMembers (depth : Nat) (kind : Option Kind) (first : Bool) :
    Nat → Cursor → Except TextFailure ((Kind × List (String × Json)) × Cursor)
  | 0, c => scanning (.error (c.fault .endInObject))
  | fuel + 1, c => do
    let (key?, c) ← textUnder .unread (scanning (c.nextKey first))
    match key? with
    | none =>
      match kind with
      | some k => .ok ((k, []), c)
      | none => failAt c.position (.missing "kind")
    | some "kind" =>
      if kind.isSome then failAt (objectEnd c) (.repeated "kind")
      else
        let c ← scanning c.colon
        let (k, c) ← textUnder (.key "kind") (textKind c)
        textMembers depth (some k) false fuel c
    | some key =>
      let c ← scanning c.colon
      let (j, c) ← textUnder (.key key) (scanning (c.value c.fuel depth))
      let ((k, ms), c) ← textMembers depth kind false fuel c
      .ok ((k, (key, j) :: ms), c)

/-- Reads a declaration without settling it. -/
def textDeclaration (depth : Nat) (c : Cursor) :
    Except TextFailure (Reading Declaration × Cursor) := do
  let c ← begun c
  match c.rest with
  | '\x7b' :: _ =>
    let ((kind, members), c) ← textMembers (depth - 1) none true c.fuel c.next
    .ok (settle kind members, c)
  | '[' :: _ =>
    let (more, d) ← scanning (c.next.nextItem true)
    if more then
      let (kind, d) ← textUnder (.index 0) (textKind d)
      let (items, d) ← scanning (d.items d.fuel (depth - 1) 1)
      .ok (settleItems kind items, d)
    else failAt d.position (.missing "kind")
  | _ => textMismatch .declaration c

def textDeclarationItems (depth : Nat) (index : Nat) :
    Nat → Cursor → Except TextFailure (List Declaration × Cursor)
  | 0, c => scanning (.error (c.fault .endInList))
  | fuel + 1, c => do
    let (more, c) ← scanning (c.nextItem (index == 0))
    if more then
      let (settled, c) ← textUnder (.index index) (textDeclaration depth c)
      match settled with
      | .error f => textUnder (.index index) (failAt (arrayEnd c) f.cause)
      | .ok d =>
        let (ds, c) ← textDeclarationItems depth (index + 1) fuel c
        .ok (d :: ds, c)
    else .ok ([], c)

/-- Reads the declarations of a file, inside the file's own brackets. -/
def textDeclarations (c : Cursor) : Except TextFailure (List Declaration × Cursor) := do
  let c ← begun c
  match c.rest with
  | '[' :: _ => textDeclarationItems (nestingLimit - 2) 0 c.fuel c.next
  | _ => textMismatch .sequence c

/-! ## The file -/

/-- Reads the members of a file up to its closing brace. -/
def textSourceMembers (d : SourceDraft) (first : Bool) :
    Nat → Cursor → Except TextFailure (SourceFile × Cursor)
  | 0, c => scanning (.error (c.fault .endInObject))
  | fuel + 1, c => do
    let (key?, c) ← textUnder .unread (scanning (c.nextKey first))
    match key? with
    | none =>
      match d.finish with
      | .ok file => .ok (file, c)
      | .error f => failAt c.position f.cause
    | some "filename" =>
      if d.filename.isSome then failAt (objectEnd c) (.repeated "filename")
      else
        let c ← scanning c.colon
        let (s, c) ← textUnder (.key "filename") (textString .string c)
        textSourceMembers { d with filename := some s } false fuel c
    | some "declarations" =>
      if d.declarations.isSome then failAt (objectEnd c) (.repeated "declarations")
      else
        let c ← scanning c.colon
        let (ds, c) ← textUnder (.key "declarations") (textDeclarations c)
        textSourceMembers { d with declarations := some ds } false fuel c
    | some key =>
      let c ← scanning c.colon
      let c ← textUnder (.key key) (scanning (c.skip c.fuel))
      textSourceMembers d false fuel c

/-- Expects the bracket that closes an array of which enough has been read. -/
def closeArray (c : Cursor) : Except Fault Cursor :=
  let c := c.skipBlanks
  match c.rest with
  | [] => .error (c.faultAhead .endInList)
  | ']' :: _ => .ok c.next
  | ',' :: _ =>
    let c := c.next.skipBlanks
    match c.rest with
    | ']' :: _ => .error (c.faultAhead .trailingComma)
    | _ => .error (c.faultAhead .trailingText)
  | _ => .error (c.faultAhead .trailingText)

def textSourceItems (c : Cursor) : Except TextFailure (SourceFile × Cursor) := do
  let c ← expectItem .sourceFile 0 c
  let (filename, c) ← textUnder (.index 0) (textString .string c)
  let (more, c) ← scanning (c.nextItem false)
  if more then
    let (declarations, c) ← textUnder (.index 1) (textDeclarations c)
    let c ← scanning (closeArray c)
    .ok (⟨filename, declarations⟩, c)
  else .ok (⟨filename, []⟩, c)

def textSource (c : Cursor) : Except TextFailure (SourceFile × Cursor) := do
  let c ← begun c
  match c.rest with
  | '\x7b' :: _ => textSourceMembers {} true c.fuel c.next
  | '[' :: _ => textSourceItems c.next
  | _ => textMismatch (.record .sourceFile) c

end Document

/-- Reads a source file from the beginning of a text. -/
def SourceFile.ofText (text : String) : Except TextFailure SourceFile :=
  (Document.textSource (.ofString text)).map Prod.fst

end SwiftCodec
