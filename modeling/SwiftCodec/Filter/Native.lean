import SwiftCodec.Filter.Calculation
import SwiftCodec.Filter.Format
import SwiftCodec.Filter.Matching
import SwiftCodec.Filter.Part
import SwiftCodec.Filter.Reading
import SwiftCodec.Text.Blank

/-!
The filters that are not defined in the filter language itself. What they give depends on their
input and their arguments alone. So there are none that ask for the time or the environment or that
end the program; nor are there any for dates.
-/
namespace SwiftCodec

namespace Filter

/-- What a call hands over: a value, once for each that the given filter has, or the filter. -/
inductive Argument where
  | value (v : Value)
  | filter (f : Value → Outputs Value)

inductive Argument.Kind where
  | value
  | filter
deriving DecidableEq, Repr

structure Native where
  name : String
  parameters : List Argument.Kind
  /-- The outputs for an input and as many arguments as there are parameters. -/
  run : Value → List Argument → Outputs Value

namespace Native

def constant (name : String) (v : Value) : Native := ⟨name, [], fun _ _ => .one v⟩

def simple (name : String) (f : Value → Result) : Native := ⟨name, [], fun v _ => .last (f v)⟩

def withValue (name : String) (f : Value → Value → Result) : Native :=
  ⟨name, [.value], fun
    | v, [.value w] => .last (f v w)
    | _, _ => .nil⟩

def withTwoValues (name : String) (f : Value → Value → Value → Result) : Native :=
  ⟨name, [.value, .value], fun
    | v, [.value w, .value x] => .last (f v w x)
    | _, _ => .nil⟩

def withFilter (name : String) (f : Value → (Value → Outputs Value) → Outputs Value) : Native :=
  ⟨name, [.filter], fun
    | v, [.filter g] => f v g
    | _, _ => .nil⟩

def withCount (name : String) (f : Nat → Outputs Value → Outputs Value) : Native :=
  ⟨name, [.value, .filter], fun
    | v, [.value n, .filter g] =>
      match integer n with
      | .ok n => f n.toNat (g v)
      | .error s => .stop s
    | _, _ => .nil⟩

def string : Value → Except Stop String
  | .string s => .ok s
  | v => unfit v "string"

def array : Value → Except Stop (List Value)
  | .array items => .ok items
  | v => unfit v "array"

def quantity : Value → Except Stop Quantity
  | .number q => .ok q
  | v => unfit v "number"

def onString (name : String) (f : String → Value) : Native :=
  simple name fun v => do .ok (f (← string v))

def onStrings (name : String) (f : String → String → Value) : Native :=
  withValue name fun v w => do .ok (f (← string v) (← string w))

/-! ## Numbers -/

def real (x : Float) : Value := .number (.real x)

def onReal (name : String) (f : Float → Float) : Native :=
  simple name fun v => do .ok (real (f (← quantity v).toFloat))

def onReals (name : String) (f : Float → Float → Float) : Native :=
  withTwoValues name fun _ v w => do
    .ok (real (f (← quantity v).toFloat (← quantity w).toFloat))

def rounding (name : String) (way : Float → Float) : Native :=
  simple name fun v => do .ok (.number ((← quantity v).round way))

def truncate (x : Float) : Float := if x < 0 then x.ceil else x.floor

/-- Rounds to the nearest integer, a half to the even one. -/
def roundEven (x : Float) : Float :=
  if (x - truncate x).abs == 0.5 then 2 * (x / 2).round else x.round

/-- The values from one on by steps, as long as they are inside; `fuel` of them at most. -/
def progression (step : Value) (inside : Value → Bool) : Nat → Value → Outputs Value
  | 0, _ => .stop .exhausted
  | fuel + 1, v =>
    if inside v then
      .cons (.ok v) fun _ =>
        match Arithmetic.add.run v step with
        | .ok w => progression step inside fuel w
        | .error s => .stop s
    else .nil

def range : Native :=
  ⟨"range", [.value, .value, .value], fun
    | _, [.value start, .value stop, .value step] =>
      let inside (v : Value) : Bool :=
        match step.compare (.ofInt 0) with
        | .gt => v.compare stop == .lt
        | .lt => v.compare stop == .gt
        | .eq => v.compare stop != .eq
      progression step inside (Nat.pow 2 64) start
    | _, _ => .nil⟩

def numeric : List Native :=
  [constant "nan" (real (0 / 0)), constant "infinite" (real (1 / 0)), range,
    rounding "floor" Float.floor, rounding "ceil" Float.ceil, rounding "round" Float.round,
    onReal "fabs" Float.abs, onReal "trunc" truncate, onReal "rint" roundEven,
    onReal "nearbyint" Float.round, onReal "sqrt" Float.sqrt, onReal "cbrt" Float.cbrt,
    onReal "exp" Float.exp, onReal "exp2" Float.exp2, onReal "exp10" (Float.pow 10),
    onReal "pow10" (Float.pow 10), onReal "log" Float.log, onReal "log2" Float.log2,
    onReal "log10" Float.log10, onReal "sin" Float.sin, onReal "cos" Float.cos,
    onReal "tan" Float.tan, onReal "asin" Float.asin, onReal "acos" Float.acos,
    onReal "atan" Float.atan, onReal "sinh" Float.sinh, onReal "cosh" Float.cosh,
    onReal "tanh" Float.tanh, onReal "asinh" Float.asinh, onReal "acosh" Float.acosh,
    onReal "atanh" Float.atanh,
    onReals "pow" Float.pow, onReals "atan2" Float.atan2, onReals "fmod" remainder,
    onReals "fmin" fun x y => if y.isNaN || x ≤ y then x else y,
    onReals "fmax" fun x y => if y.isNaN || y ≤ x then x else y,
    onReals "fdim" fun x y => if x ≤ y then 0 else x - y]

/-! ## Texts -/

def readText (s : String) : Result :=
  match Value.parse s with
  | .ok v => .ok v
  | .error f => failure ("cannot parse " ++ s ++ " as JSON: " ++ f.message)

def explode (s : String) : Value := .array (s.toList.map fun c => .ofNat c.toNat)

def implode (v : Value) : Result := do
  let cs ← (← array v).mapM fun w => do
    let n ← integer w
    if 0 ≤ n ∧ n.toNat.isValidChar then .ok (Char.ofNat n.toNat) else unfit w "character"
  .ok (.string (String.ofList cs))

/-- Takes something off a text, if it is there. -/
def stripping (name : String) (strip? : List Char → List Char → Option (List Char)) : Native :=
  withValue name fun
    | .string s, .string t =>
      .ok (.string (((strip? s.toList t.toList).map String.ofList).getD s))
    | v, _ => .ok v

def stripStart? (s t : List Char) : Option (List Char) :=
  if t.isPrefixOf s then some (s.drop t.length) else none

def stripEnd? (s t : List Char) : Option (List Char) :=
  if t.isSuffixOf s then some (s.take (s.length - t.length)) else none

def textual : List Native :=
  [simple "tojson" fun v => .ok (.string v.text),
    simple "fromjson" fun v => do readText (← string v),
    simple "tostring" fun v => .ok (.string v.plainText),
    onString "utf8bytelength" fun s => .ofNat s.utf8ByteSize,
    onString "ascii_downcase" fun s => .string (s.map Char.toLower),
    onString "ascii_upcase" fun s => .string (s.map Char.toUpper),
    onString "explode" explode, simple "implode" implode,
    onString "trim" fun s => .string (Text.dropBlanksEnd (Text.dropBlanks s)),
    onString "ltrim" fun s => .string (Text.dropBlanks s),
    onString "rtrim" fun s => .string (Text.dropBlanksEnd s),
    onStrings "startswith" fun s t => .bool (t.toList.isPrefixOf s.toList),
    onStrings "endswith" fun s t => .bool (t.toList.isSuffixOf s.toList),
    stripping "ltrimstr" stripStart?, stripping "rtrimstr" stripEnd?,
    withTwoValues "matches" (matching true false),
    withTwoValues "split_matches" (matching true true),
    withTwoValues "split_" (matching false true),
    simple "@text" fun v => .ok (.string v.plainText),
    simple "@json" fun v => .ok (.string v.text),
    simple "@html" fun v => .ok (.string (Format.html v)),
    simple "@uri" fun v => .ok (.string (Format.uri v)),
    simple "@csv" Format.csv, simple "@tsv" Format.tsv, simple "@sh" Format.shell,
    simple "@base64" fun v => .ok (.string (Format.base64 v)),
    simple "@base64d" Format.fromBase64]

/-! ## Parts -/

def size : Value → Result
  | .null => .ok (.ofNat 0)
  | .bool b => failure ((Value.bool b).text ++ " has no length")
  | .number q => .ok (.number q.magnitude)
  | .string s => .ok (.ofNat s.length)
  | .array items => .ok (.ofNat items.length)
  | .object members => .ok (.ofNat members.length)

def keysUnsorted : Value → Except Stop (List Value)
  | .object members => .ok (members.map fun m => .string m.1)
  | .array items => .ok ((List.range items.length).map .ofNat)
  | v => unfit v "iterable (array or object)"

def has (v key : Value) : Result :=
  match v, key with
  | .object members, .string k => .ok (.bool (members.lookup k).isSome)
  | .array items, .number (.whole i) =>
    if 0 ≤ i then .ok (.bool (i < items.length)) else unindexed v key
  | v, key => unindexed v key

mutual
/-- Whether each part of the second value is within some part of the first. -/
def contains (v : Value) : Value → Bool
  | .string t =>
    match v with
    | .string s => t.isEmpty || ! (occurrences (· == ·) t.toList s.toList 0).isEmpty
    | _ => false
  | .array ws =>
    match v with
    | .array vs => containsItems vs ws
    | _ => false
  | .object ns =>
    match v with
    | .object ms => containsMembers ms ns
    | _ => false
  | w => v.equals w
termination_by structural w => w
def containsItems (vs : List Value) : List Value → Bool
  | [] => true
  | w :: ws => (vs.any fun v => contains v w) && containsItems vs ws
termination_by structural ws => ws
def containsMembers (ms : List (String × Value)) : List (String × Value) → Bool
  | [] => true
  | (k, w) :: ns =>
    (match ms.lookup k with
      | some v => contains v w
      | none => false) && containsMembers ms ns
termination_by structural ns => ns
end

/-- Where a text occurs in a text, a sequence in an array, or a value among the items. -/
def indices (v inner : Value) : Result :=
  let found (places : List Nat) : Result := .ok (.array (places.map .ofNat))
  match v, inner with
  | .string s, .string t => found (occurrences (· == ·) t.toList s.toList 0)
  | .array vs, .array ws => found (occurrences Value.equals ws vs 0)
  | .array vs, w => found (occurrences Value.equals [w] vs 0)
  | v, w => unindexed v w

/-- Each item with the array of all values of a filter for it. -/
def keyed (f : Value → Outputs Value) (items : List Value) : Except Stop (List (Value × Value)) :=
  items.mapM fun v => do .ok (.array (← (f v).values), v)

/-- The items sorted by the values of a filter. A single item needs no comparison. -/
def sortBy (v : Value) (f : Value → Outputs Value) : Result := do
  let items ← array v
  if items.length < 2 then .ok v
  else .ok (.array ((Value.sortOn Prod.fst (← keyed f items)).map Prod.snd))

/-- Items with equal values of a filter, in the order of these. -/
def groupBy (v : Value) (f : Value → Outputs Value) : Result := do
  let pairs := Value.sortOn Prod.fst (← keyed f (← array v))
  let groups := pairs.splitBy fun a b => a.1.equals b.1
  .ok (.array (groups.map fun g => .array (g.map Prod.snd)))

/-- The first of the least items, or null if there is none. -/
def leastBy (v : Value) (f : Value → Outputs Value) : Result := do
  let pairs := Value.sortOn Prod.fst (← keyed f (← array v))
  .ok ((pairs.head?.map Prod.snd).getD .null)

/-- The last of the greatest items, or null if there is none. -/
def greatestBy (v : Value) (f : Value → Outputs Value) : Result := do
  let pairs := Value.sortOn Prod.fst (← keyed f (← array v))
  .ok ((pairs.getLast?.map Prod.snd).getD .null)

def structural : List Native :=
  [constant "null" .null, constant "true" (.bool true), constant "false" (.bool false),
    simple "type" fun v => .ok (.string v.typeName), simple "length" size,
    simple "keys_unsorted" fun v => do .ok (.array (← keysUnsorted v)),
    simple "keys" fun v => do .ok (.array (Value.sortOn id (← keysUnsorted v))),
    simple "sort" fun v => do .ok (.array (Value.sortOn id (← array v))),
    simple "reverse" fun v => do .ok (.array (← array v).reverse),
    withValue "has" has, withValue "contains" fun v w => .ok (.bool (contains v w)),
    withValue "indices" indices,
    withFilter "sort_by" fun v f => .last (sortBy v f),
    withFilter "group_by" fun v f => .last (groupBy v f),
    withFilter "min_by" fun v f => .last (leastBy v f),
    withFilter "max_by" fun v f => .last (greatestBy v f)]

/-! ## Sequences -/

/-- The first value as an error; without one the input stays as it is. -/
def raise (v : Value) (f : Value → Outputs Value) : Outputs Value :=
  match (f v).first with
  | .ok none => .one v
  | .ok (some w) => .stop (.error w)
  | .error s => .stop s

def lastOf (as : Outputs Value) : Outputs Value :=
  match as.values with
  | .ok vs => .ofList vs.getLast?.toList
  | .error s => .stop s

def sequential : List Native :=
  [⟨"error", [], fun v _ => .stop (.error v)⟩, withFilter "error" raise,
    withFilter "first" fun v f => (f v).take 1, withFilter "last" fun v f => lastOf (f v),
    withCount "limit" Outputs.take, withCount "skip" Outputs.drop]

end Native

def natives : List Native :=
  Native.structural ++ Native.sequential ++ Native.textual ++ Native.numeric

def native? (name : String) (arity : Nat) : Option Native :=
  natives.find? fun n => n.name = name ∧ n.parameters.length = arity

end Filter

end SwiftCodec
