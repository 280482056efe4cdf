import SwiftCodec.Filter.Value

/-!
The values of a filter, one after another. The rest of the sequence is worked out only when it is
asked for. An error takes the place of a value; it does not end the sequence.

A filter that ends in a call of itself gives a sequence that is only promised. Promises are kept
one by one in a loop, so that such a filter needs no more room the longer it runs; for this a
sequence also says when its head is its last value.
-/
namespace SwiftCodec

namespace Filter

/-- Why there is no value. -/
inductive Stop where
  | error (value : Value)
  /-- The way out to the label with a mark. -/
  | leave (mark : Nat)
  /-- The evaluation was not finished within its bound. -/
  | exhausted
deriving Repr, Inhabited

abbrev Result := Except Stop Value

def failure {α : Type} (message : String) : Except Stop α := .error (.error (.string message))

/-- The error of a value that is not what a filter needs. -/
def unfit {α : Type} (v : Value) (need : String) : Except Stop α :=
  failure ("cannot use " ++ v.text ++ " as " ++ need)

inductive Outputs (α : Type) where
  | nil
  | last (head : Except Stop α)
  | cons (head : Except Stop α) (tail : Unit → Outputs α)
  /-- A sequence that is still to be worked out. -/
  | later (promise : Unit → Outputs α)
deriving Inhabited

namespace Outputs

variable {α β γ : Type}

def one (a : α) : Outputs α := .last (.ok a)

def stop (s : Stop) : Outputs α := .last (.error s)

def fail (message : String) : Outputs α := .last (failure message)

def ofList : List α → Outputs α
  | [] => .nil
  | [a] => .one a
  | a :: rest => .cons (.ok a) fun _ => ofList rest

def append (as : Outputs α) (bs : Unit → Outputs α) : Outputs α :=
  match as with
  | .nil => bs ()
  | .last r => .cons r bs
  | .cons r rest => .cons r fun _ => append (rest ()) bs
  | .later promise => .later fun _ => append (promise ()) bs

/-- The outputs for each value and for each error. -/
def bindAll (as : Outputs α) (f : Except Stop α → Outputs β) : Outputs β :=
  match as with
  | .nil => .nil
  | .last r => f r
  | .cons r rest => append (f r) fun _ => .later fun _ => bindAll (rest ()) f
  | .later promise => .later fun _ => bindAll (promise ()) f

/-- The outputs for each value. -/
def bind (as : Outputs α) (f : α → Outputs β) : Outputs β :=
  as.bindAll fun
    | .ok a => f a
    | .error s => .stop s

def map (f : α → Except Stop β) (as : Outputs α) : Outputs β := as.bind fun a => .last (f a)

/-- Each output of one sequence with each of another, which is gone through for each of the
first. Without the second there is nothing, not even an error of the first. -/
def pairs (as : Outputs α) (bs : Unit → Outputs β) (f : α → β → Except Stop γ) : Outputs γ :=
  as.bindAll fun a => (bs ()).bindAll fun b => .last (do f (← a) (← b))

def filter (p : α → Bool) : Outputs α → Outputs α
  | .nil => .nil
  | .last (.ok a) => if p a then .one a else .nil
  | .last (.error s) => .stop s
  | .cons (.ok a) rest =>
    if p a then .cons (.ok a) fun _ => filter p (rest ())
    else .later fun _ => filter p (rest ())
  | .cons (.error s) rest => .cons (.error s) fun _ => filter p (rest ())
  | .later promise => .later fun _ => filter p (promise ())

/-- Another sequence, if this one is empty. -/
def orElse (bs : Unit → Outputs α) : Outputs α → Outputs α
  | .nil => bs ()
  | .later promise => .later fun _ => orElse bs (promise ())
  | as => as

/-- Puts the outputs of a handler in the place of the first error and what follows it. -/
def handle (f : Value → Outputs α) : Outputs α → Outputs α
  | .nil => .nil
  | .last (.error (.error v)) => f v
  | .last r => .last r
  | .cons (.error (.error v)) _ => f v
  | .cons r rest => .cons r fun _ => handle f (rest ())
  | .later promise => .later fun _ => handle f (promise ())

/-- Ends the sequence where it leaves to a mark. -/
def upTo (mark : Nat) : Outputs α → Outputs α
  | .nil => .nil
  | .last r => if isLeave r then .nil else .last r
  | .cons r rest => if isLeave r then .nil else .cons r fun _ => upTo mark (rest ())
  | .later promise => .later fun _ => upTo mark (promise ())
where
  isLeave : Except Stop α → Bool
    | .error (.leave m) => m == mark
    | _ => false

/-- The first outputs, and no more than a number of them. -/
def take (n : Nat) (as : Outputs α) : Outputs α :=
  if n = 0 then .nil
  else
    match as with
    | .cons r rest => if n = 1 then .last r else .cons r fun _ => take (n - 1) (rest ())
    | .later promise => .later fun _ => take n (promise ())
    | as => as

/-- What follows a number of outputs. -/
def drop (n : Nat) (as : Outputs α) : Outputs α :=
  if n = 0 then as
  else
    match as with
    | .cons _ rest => .later fun _ => drop (n - 1) (rest ())
    | .later promise => .later fun _ => drop n (promise ())
    | _ => .nil

/-- The first output, if there is one. -/
def head? : Outputs α → Option (Except Stop α)
  | .nil => none
  | .last r => some r
  | .cons r _ => some r
  | .later promise => head? (promise ())

/-- The first value, if there is one. -/
def first (as : Outputs α) : Except Stop (Option α) :=
  match as.head? with
  | none => .ok none
  | some r => r.map some

/-- Puts the results of a function for all values behind others; the first error counts. -/
def collect {ε : Type} (f : Except Stop α → Except ε β) (done : List β) :
    Outputs α → Except ε (List β)
  | .nil => .ok done.reverse
  | .last r => (f r).map fun b => (b :: done).reverse
  | .cons r rest =>
    match f r with
    | .ok b => collect f (b :: done) (rest ())
    | .error e => .error e
  | .later promise => collect f done (promise ())

/-- All values, or the first error. -/
def values (as : Outputs α) : Except Stop (List α) := as.collect id []

/-- The states after all values, each of which takes a state to its successors. -/
def reduce (step : α → β → Outputs β) (as : Outputs α) (state : β) : Outputs β :=
  match as with
  | .nil => .one state
  | .last (.ok a) => step a state
  | .last (.error s) => .stop s
  | .cons (.ok a) rest =>
    (step a state).bind fun next => .later fun _ => reduce step (rest ()) next
  | .cons (.error s) _ => .stop s
  | .later promise => .later fun _ => reduce step (promise ()) state

/-- The outputs for each state on the way. -/
def scan (step : α → β → Outputs β) (result : α → β → Outputs γ) (as : Outputs α) (state : β) :
    Outputs γ :=
  match as with
  | .nil => .nil
  | .last (.ok a) => (step a state).bind (result a)
  | .last (.error s) => .stop s
  | .cons (.ok a) rest =>
    (step a state).bind fun next =>
      (result a next).append fun _ => .later fun _ => scan step result (rest ()) next
  | .cons (.error s) _ => .stop s
  | .later promise => .later fun _ => scan step result (promise ()) state

end Outputs

end Filter

end SwiftCodec
