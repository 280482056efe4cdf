import SwiftCodec.Regex.Basic

/-!
Searching a text for a regular expression. The expression becomes a program whose threads go
through the text side by side, in the order of preference; two threads at one instruction would
go on alike, so only the first is kept. This takes time in proportion to the text.
-/
namespace SwiftCodec

namespace Regex

inductive Instruction where
  | one (chars : Ranges)
  | look (assertion : Assertion)
  /-- Keeps the position in a slot. -/
  | save (slot : Nat)
  /-- Goes on at two distances, the first being preferred. -/
  | fork (first second : Int)
  | jump (distance : Int)
  | accept
deriving Repr, Inhabited

/-- Instructions a program may have. -/
def sizeLimit : Nat := 100000

/-! ## Programs -/

/-- A fork into a body or past it. -/
def optional (isGreedy : Bool) (size : Nat) : Instruction :=
  if isGreedy then .fork 1 (size + 1) else .fork (size + 1) 1

/-- A fork back to the beginning of a body, or on. -/
def again (isGreedy : Bool) (size : Nat) : Instruction :=
  if isGreedy then .fork (-size) 1 else .fork 1 (-size)

/-- The body up to so many times, each time with a way to the end. -/
def upTo (isGreedy : Bool) (body : List Instruction) : Nat → List Instruction
  | 0 => []
  | n + 1 =>
    let rest := upTo isGreedy body n
    optional isGreedy (body.length + rest.length) :: (body ++ rest)

def repeated (isNullable isGreedy : Bool) (body : List Instruction) (least : Nat)
    (most : Option Nat) : List Instruction :=
  let once := body ++ [again isGreedy body.length]
  match least, most with
  | 0, none =>
    if isNullable then optional isGreedy once.length :: once
    else optional isGreedy (body.length + 1) :: (body ++ [.jump (-(body.length + 1))])
  | n + 1, none => (List.replicate n body).flatten ++ once
  | n, some m => (List.replicate n body).flatten ++ upTo isGreedy body (m - n)

/-- The instructions of an expression, from the first to behind the last. -/
def instructions : Regex → List Instruction
  | .empty => []
  | .one rs => [.one rs]
  | .look a => [.look a]
  | .group number body => .save (2 * number) :: (body.instructions ++ [.save (2 * number + 1)])
  | .sequence r s => r.instructions ++ s.instructions
  | .choice r s =>
    let first := r.instructions
    let second := s.instructions
    .fork 1 (first.length + 2) :: (first ++ .jump (second.length + 1) :: second)
  | .repetition least most isGreedy body =>
    repeated body.isNullable isGreedy body.instructions least most

/-- A bound on the number of instructions. -/
def size : Regex → Nat
  | .empty => 0
  | .one _ => 1
  | .look _ => 1
  | .group _ body => body.size + 2
  | .sequence r s => r.size + s.size
  | .choice r s => r.size + s.size + 2
  | .repetition least most _ body => max (least + 1) (most.getD 0) * (body.size + 2)

/-- A program keeps the ends of the match in the first two slots. -/
def program (r : Regex) : Array Instruction :=
  (.save 0 :: (r.instructions ++ [.save 1, .accept])).toArray

/-! ## Threads -/

/-- The positions that a thread has kept. -/
abbrev Slots := Array (Option Nat)

structure Thread where
  place : Nat
  slots : Slots

/-- The threads at one place of the text, and the instructions that have been gone through. -/
structure Front where
  seen : Array Bool
  threads : Array Thread

def Front.start (size : Nat) : Front := ⟨Array.replicate size false, #[]⟩

/-- Adds the threads that reach an instruction for characters, or the end, from a given one. The
first argument bounds the recursion by the number of instructions. -/
def Front.add (code : Array Instruction) (here : Place) : Nat → Nat → Slots → Front → Front
  | 0, _, _, front => front
  | fuel + 1, i, slots, front =>
    if front.seen.getD i true then front
    else
      let front := { front with seen := front.seen.set! i true }
      let ahead (distance : Int) : Nat := ((i : Int) + distance).toNat
      match code[i]? with
      | some (.fork a b) =>
        Front.add code here fuel (ahead b) slots (Front.add code here fuel (ahead a) slots front)
      | some (.jump d) => Front.add code here fuel (ahead d) slots front
      | some (.save k) =>
        Front.add code here fuel (i + 1) (slots.set! k (some here.position)) front
      | some (.look a) =>
        if a.holds here then Front.add code here fuel (i + 1) slots front else front
      | _ => { front with threads := front.threads.push ⟨i, slots⟩ }

/-- Takes threads over a character, which there is none of at the end of the text. The slots of
the first thread that accepts count, and the threads behind it do not. -/
def advance (code : Array Instruction) (next : Place) (c : Option Char) (front : Front) :
    List Thread → Front × Option Slots
  | [] => (front, none)
  | t :: rest =>
    match code[t.place]? with
    | some .accept => (front, some t.slots)
    | some (.one rs) =>
      let front :=
        if c.any rs.contains then front.add code next code.size (t.place + 1) t.slots else front
      advance code next c front rest
    | _ => advance code next c front rest

/-- The slots of the first match that begins at a place or behind it. `found` is the best match
so far, with which no new one begins. -/
def searchFrom (code : Array Instruction) (empty : Slots) (position : Nat)
    (before : Option Char) (front : Front) (found : Option Slots) : List Char → Option Slots
  | [] =>
    let here : Place := ⟨position, before, none⟩
    let front := if found.isNone then front.add code here code.size 0 empty else front
    (advance code here none front front.threads.toList).2.or found
  | c :: rest =>
    let here : Place := ⟨position, before, some c⟩
    let front := if found.isNone then front.add code here code.size 0 empty else front
    let next : Place := ⟨position + 1, some c, rest.head?⟩
    let (front, better) :=
      advance code next (some c) (.start code.size) front.threads.toList
    let found := better.or found
    if found.isSome ∧ front.threads.isEmpty then found
    else searchFrom code empty (position + 1) (some c) front found rest

/-- The matches from a place on. A match is sought behind the one before it; an empty one does not
count where that ended. -/
def matchesFrom (code : Array Instruction) (empty : Slots) :
    Nat → Nat → Option Char → Option Nat → List Char → List Slots
  | 0, _, _, _, _ => []
  | fuel + 1, position, before, stop?, cs =>
    let search (position : Nat) (before : Option Char) (cs : List Char) : Option Slots :=
      searchFrom code empty position before (.start code.size) none cs
    let isIdle (slots : Slots) : Bool :=
      slots.getD 0 none == slots.getD 1 none && slots.getD 1 none == stop?
    let found :=
      match search position before cs with
      | some slots =>
        if isIdle slots then cs.head?.bind fun c => search (position + 1) (some c) (cs.drop 1)
        else some slots
      | none => none
    match found with
    | none => []
    | some slots =>
      let stop := (slots.getD 1 none).getD position
      let taken := cs.take (stop - position)
      slots :: matchesFrom code empty fuel stop (taken.getLast?.or before) (some stop)
        (cs.drop taken.length)

/-- The ends of a match and of its groups by number, some of which may take no part in it. -/
abbrev Match := List (Option (Nat × Nat))

def Slots.spans (slots : Slots) (groups : Nat) : Match :=
  (List.range (groups + 1)).map fun i => do
    some (← slots.getD (2 * i) none, ← slots.getD (2 * i + 1) none)

/-- The matches in a text, none of which overlaps another; `none` if the expression is too large
to be searched for. -/
def matches? (r : Regex) (groups : Nat) (text : List Char) : Option (List Match) :=
  if sizeLimit < r.size then none
  else
    let empty : Slots := Array.replicate (2 * groups + 2) none
    let found := matchesFrom r.program empty (2 * text.length + 2) 0 none none text
    some (found.map (·.spans groups))

end Regex

end SwiftCodec
