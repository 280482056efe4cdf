import SwiftCodec.Proofs.Codec.Calls
import SwiftCodec.Proofs.Name.Dotted
import SwiftCodec.Proofs.Text.Scope

/-!
How expressions nest. Each of the two expressions for a type is read back from its text: the
closures in it, one inside the other, and for each what is made of the value it is applied to. Both
read as the outline of the type, which ends at markers, and each closure has its value once.
-/
namespace SwiftCodec

/-- What an expression does with a value. -/
inductive Choice where
  | marker
  /-- Calls the function passed in for a type argument. -/
  | parameter (name : String)
  /-- Calls the codec of a type. -/
  | own
deriving DecidableEq, Repr

inductive Outline where
  | node (choice : Choice) (args : List Outline)
deriving Repr

namespace TypeExpr

mutual
/-- What is to be done with a value of a type, and with those inside. -/
def outline (params : List String) : TypeExpr → Outline
  | ⟨base, target, args⟩ =>
    let name := resolvedName ⟨base, target, args⟩
    if (Marker.of? ⟨base, target, args⟩).isSome then .node .marker []
    else .node (if name ∈ params then .parameter name else .own) (outlineAll params args)
termination_by structural t => t
def outlineAll (params : List String) : List TypeExpr → List Outline
  | [] => []
  | t :: ts => outline params t :: outlineAll params ts
termination_by structural ts => ts
end

variable {params : List String}

theorem outline_marker {t : TypeExpr} {kind : Marker} (marked : Marker.of? t = some kind) :
    t.outline params = .node .marker [] := by
  cases t
  simp [outline, marked]

theorem outline_node {t : TypeExpr} (unmarked : Marker.of? t = none) :
    t.outline params = .node (if t.resolvedName ∈ params then .parameter t.resolvedName else .own)
      (outlineAll params t.args) := by
  cases t
  simp [outline, unmarked]

theorem outlineAll_append (ts us : List TypeExpr) :
    outlineAll params (ts ++ us) = outlineAll params ts ++ outlineAll params us := by
  induction ts with
  | nil => rfl
  | cons t ts ih => simp [outlineAll, ih]

end TypeExpr

/-- The choice that a text shows. Without a call it is that of a marker; the codec of a type is
called by a path, and the function for a type argument by a name of six letters and its own. -/
def Choice.ofText (own : List Char) : Choice :=
  if '(' ∈ own then
    let callee := (own.takeWhile (· ≠ '(')).filter (· ≠ ' ')
    if '.' ∈ callee then .own else .parameter (String.ofList (callee.drop 6))
  else .marker

namespace Scope

mutual
/-- The choices in a text, closure by closure. -/
def outline : Scope → Outline
  | ⟨own, closures⟩ => .node (Choice.ofText own) (outlineAll closures)
termination_by structural s => s
def outlineAll : List Scope → List Outline
  | [] => []
  | s :: ss => outline s :: outlineAll ss
termination_by structural ss => ss
end

theorem outlineAll_append (ss ss' : List Scope) :
    outlineAll (ss ++ ss') = outlineAll ss ++ outlineAll ss' := by
  induction ss with
  | nil => rfl
  | cons s ss ih => simp [outlineAll, ih]

/-- A text has the outline, its own value so many times, and each closure in it its value once. -/
structure Shows (s : Scope) (o : Outline) (n : Nat) : Prop where
  outline : s.outline = o
  own : uses s.own = n
  inner : ∀ c ∈ s.inner, uses c.own = 1

end Scope

namespace Choice

theorem ofText_marker {own : List Char} (plain : '(' ∉ own) : ofText own = .marker := by
  rw [ofText, if_neg plain]

theorem takeWhile_callee {callee : List Char} (plain : '(' ∉ callee) (rest : List Char) :
    (callee ++ '(' :: rest).takeWhile (· ≠ '(') = callee := by
  have before : ∀ c ∈ callee, decide (c ≠ '(') = true := by
    intro c member
    refine decide_eq_true fun same => ?_
    exact plain (same ▸ member)
  rw [List.takeWhile_append_of_pos before]
  simp

theorem ofText_own {callee : List Char} (plain : '(' ∉ callee) (dot : '.' ∈ callee)
    (rest : List Char) : ofText (callee ++ '(' :: rest) = .own := by
  have inside : '.' ∈ callee.filter (· ≠ ' ') := List.mem_filter.mpr ⟨dot, by decide⟩
  have bracket : '(' ∈ callee ++ '(' :: rest := by simp
  rw [ofText, if_pos bracket, takeWhile_callee plain]
  exact if_pos inside

theorem ofText_parameter {verb name : List Char} (letters : verb.length = 6)
    (word : ∀ c ∈ verb ++ name, Name.isTail c) (rest : List Char) :
    ofText (verb ++ name ++ '(' :: rest) = .parameter (String.ofList name) := by
  have absent {c : Char} (other : Name.isTail c = false) : c ∉ verb ++ name := by
    intro member
    exact absurd (word c member) (by simp [other])
  have bracket : '(' ∈ verb ++ name ++ '(' :: rest := by simp
  have visible : (verb ++ name).filter (· ≠ ' ') = verb ++ name := by
    refine List.filter_eq_self.mpr fun c member => decide_eq_true fun blank => ?_
    subst blank
    exact absent (by decide) member
  rw [ofText, if_pos bracket, takeWhile_callee (absent (by decide)), visible]
  simp only [if_neg (absent (show Name.isTail '.' = false by decide)), ← letters, List.drop_left]

theorem ofText_blanks (own : List Char) : ofText (' ' :: own ++ [' ']) = ofText own := by
  by_cases bracket : '(' ∈ own
  · obtain ⟨callee, rest, rfl, plain⟩ := List.eq_append_cons_of_mem bracket
    have front : '(' ∉ ' ' :: callee := by simpa using plain
    have text : ' ' :: (callee ++ '(' :: rest) ++ [' '] =
        (' ' :: callee) ++ '(' :: (rest ++ [' ']) := by simp
    rw [text, ofText, ofText, takeWhile_callee front, takeWhile_callee plain, if_pos (by simp),
      if_pos bracket]
    simp
  · have bracket' : '(' ∉ ' ' :: own ++ [' '] := by simpa using bracket
    rw [ofText_marker bracket, ofText_marker bracket']

end Choice

namespace Scope

variable {own : List Char} {closures : List Scope} {o : Outline} {n : Nat}

theorem Shows.blanks (h : Shows ⟨own, closures⟩ o n) :
    Shows ⟨' ' :: own ++ [' '], closures⟩ o n where
  outline := by
    rw [← h.outline, Scope.outline, Scope.outline, Choice.ofText_blanks]
  own := by
    have between : uses ([' '] ++ own ++ [' ']) = uses own :=
      uses_between (by decide) (by decide) (by decide)
    exact between.trans h.own
  inner := h.inner

/-- What a closure has between its braces. -/
def Body (s : String) (o : Outline) : Prop :=
  ∃ own closures, Reads s own closures ∧ Shows ⟨own, closures⟩ o 1

/-- Closures and commas, and nothing else. -/
def Listed (s : String) (os : List Outline) : Prop :=
  ∃ own closures, Reads s own closures ∧ outlineAll closures = os ∧
    (∀ c ∈ innerAll closures, uses c.own = 1) ∧ ∀ c ∈ own, c ∈ ['\x7b', '\x7d', ',', ' ']

namespace Listed

variable {s t : String} {os os' : List Outline}

theorem nil : Listed "" [] := by
  refine ⟨[], [], ?_, rfl, List.forall_mem_nil _, List.forall_mem_nil _⟩
  exact .plain (s := "") (by decide)

theorem comma : Listed ", " [] :=
  ⟨", ".toList, [], .plain (by decide), rfl, List.forall_mem_nil _, by simp⟩

theorem closure (body : Body s o) : Listed (Plan.closure s) [o] := by
  obtain ⟨own, closures, reads, shows⟩ := body
  refine ⟨_, _, reads.closure, ?_, ?_, by simp⟩
  · rw [outlineAll, shows.blanks.outline]
    rfl
  · intro c member
    rw [innerAll, innerAll, List.append_nil] at member
    rcases List.mem_cons.mp member with rfl | below
    · exact shows.blanks.own
    · exact shows.inner c below

theorem append (hs : Listed s os) (ht : Listed t os') : Listed (s ++ t) (os ++ os') := by
  obtain ⟨own, closures, reads, rfl, inner, signs⟩ := hs
  obtain ⟨own', closures', reads', rfl, inner', signs'⟩ := ht
  refine ⟨_, _, reads.append reads', outlineAll_append _ _, ?_, ?_⟩
  · rw [innerAll_append]
    exact List.forall_mem_append.mpr ⟨inner, inner'⟩
  · exact List.forall_mem_append.mpr ⟨signs, signs'⟩

variable {params : List String} {make : TypeExpr → String}

theorem leading {args : List TypeExpr} (each : ∀ a ∈ args, Body (make a) (a.outline params)) :
    Listed (Scope.leading (args.map fun a => Plan.closure (make a)))
      (TypeExpr.outlineAll params args) := by
  induction args with
  | nil => exact nil
  | cons a args ih =>
    obtain ⟨body, later⟩ := List.forall_mem_cons.mp each
    rw [List.map_cons, leading_cons]
    exact ((closure body).append comma).append (ih later)

theorem joined {args : List TypeExpr} (each : ∀ a ∈ args, Body (make a) (a.outline params)) :
    Listed (String.intercalate ", " (args.map fun a => Plan.closure (make a)))
      (TypeExpr.outlineAll params args) := by
  rcases List.eq_nil_or_concat' args with rfl | ⟨init, last, rfl⟩
  · exact nil
  · obtain ⟨first, single⟩ := List.forall_mem_append.mp each
    rw [List.map_append, List.map_singleton, intercalate_concat, TypeExpr.outlineAll_append]
    exact (leading first).append (closure (single last (List.mem_singleton_self _)))

end Listed

/-- What a function makes of a text: the text stands at one place in it, behind closures that are
all closed, and the whole shows the outline. -/
def Framed (make : String → String) (o : Outline) : Prop :=
  ∃ front back f b before behind, (∀ input, make input = front ++ input ++ back) ∧
    Reads front f before ∧ Reads back b behind ∧
    ∀ input, Within Unbracketed input →
      Shows ⟨f ++ input.toList ++ b, before ++ behind⟩ o (uses input.toList)

theorem Framed.reads {make : String → String} (framed : Framed make o) {input : String}
    (plain : Within Unbracketed input) :
    ∃ own closures, Reads (make input) own closures ∧
      Shows ⟨own, closures⟩ o (uses input.toList) := by
  obtain ⟨front, back, f, b, before, behind, text, readsFront, readsBack, shows⟩ := framed
  have given : Reads input input.toList [] := .plain (plain.mono fun c h => ⟨h.2.2.1, h.2.2.2⟩)
  refine ⟨_, _, text input ▸ (readsFront.append given).append readsBack, ?_⟩
  simpa using shows input plain

theorem Framed.once {make : String → String} (framed : Framed make o) :
    ∃ front back, (ofText front).isSome ∧ ∀ input, make input = front ++ input ++ back := by
  obtain ⟨front, back, f, b, before, behind, text, readsFront, -, -⟩ := framed
  exact ⟨front, back, by rw [readsFront.ofText]; rfl, text⟩

/-- A text in which only the part given to it can have values of closures. -/
theorem Shows.around {f b cs : List Char} {before behind : List Scope} {choice : Choice}
    {os : List Outline} (front : '$' ∉ f) (back : '$' ∉ b) (apart : b.head? ≠ some '0')
    (chosen : Choice.ofText (f ++ cs ++ b) = choice) (outlines : outlineAll (before ++ behind) = os)
    (inner : ∀ c ∈ innerAll (before ++ behind), uses c.own = 1) :
    Shows ⟨f ++ cs ++ b, before ++ behind⟩ (.node choice os) (uses cs) where
  outline := by rw [Scope.outline, chosen, outlines]
  own := uses_between front back apart
  inner := inner

end Scope

namespace Plan

open Scope

variable {params : List String}

theorem not_mem_name {s : String} (name : Within (Name.isNameChar ·) s) {c : Char}
    (sign : Name.isNameChar c = false) : c ∉ s.toList := by
  intro member
  exact absurd (name c member) (by simp [sign])

theorem unbracketed_name {s : String} (name : Within (Name.isNameChar ·) s) :
    Within Unbracketed s := by
  intro c member
  have apart {d : Char} (sign : Name.isNameChar d = false) : c ≠ d := by
    rintro rfl
    exact not_mem_name name sign member
  exact ⟨apart (by decide), apart (by decide), apart (by decide), apart (by decide)⟩

theorem reads_unbracketed {s : String} (plain : Within Unbracketed s) : Reads s s.toList [] :=
  .plain (plain.mono fun _ h => ⟨h.2.2.1, h.2.2.2⟩)

/-- Nothing but the value itself, with text behind it that makes no call. -/
theorem framed_marker {make : String → String} (back : String) (plain : Within Unbracketed back)
    (unused : '$' ∉ back.toList) (apart : back.toList.head? ≠ some '0')
    (text : ∀ input, make input = input ++ back) : Framed make (.node .marker []) := by
  refine ⟨"", back, [], back.toList, [], [], fun input => by simp [text],
    reads_unbracketed (s := "") (by decide), reads_unbracketed plain, fun input given => ?_⟩
  refine .around (by simp) unused apart (Choice.ofText_marker ?_) rfl (List.forall_mem_nil _)
  simp only [List.nil_append, List.mem_append, not_or]
  constructor
  · intro member
    exact (given _ member).1 rfl
  · intro member
    exact (plain _ member).1 rfl

theorem framed_cast {make : String → String} {word name : String}
    (plain : Within Unbracketed word) (unused : '$' ∉ word.toList)
    (apart : word.toList.head? ≠ some '0') (some : word ≠ "")
    (named : Within (Name.isNameChar ·) name)
    (text : ∀ input, make input = input ++ word ++ name) : Framed make (.node .marker []) := by
  have characters : (word ++ name).toList = word.toList ++ name.toList := String.toList_append
  refine framed_marker (word ++ name) (plain.append (unbracketed_name named)) ?_ ?_ ?_
  · rw [characters, List.mem_append, not_or]
    exact ⟨unused, not_mem_name named (by decide)⟩
  · rw [characters, List.head?_append_of_ne_nil _ (by simpa using some)]
    exact apart
  · intro input
    rw [text, String.append_assoc]

/-- A call with the value behind all other arguments, which are closures. -/
theorem framed_call {make : String → String} {callee arguments : String} {choice : Choice}
    {os : List Outline} (named : Within (Name.isNameChar ·) callee)
    (chosen : ∀ rest, Choice.ofText (callee.toList ++ '(' :: rest) = choice)
    (listed : Listed arguments os)
    (text : ∀ input, make input = callee ++ "(" ++ arguments ++ input ++ ")") :
    Framed make (.node choice os) := by
  obtain ⟨own, closures, reads, outlines, inner, signs⟩ := listed
  have bracket : Reads "(" ['('] [] := .plain (by decide)
  have opening := ((reads_unbracketed (unbracketed_name named)).append bracket).append reads
  have closing : Reads ")" [')'] [] := .plain (by decide)
  refine ⟨_, ")", _, _, _, [], text, opening, closing, fun input _ => ?_⟩
  refine .around ?_ (by decide) (by decide) ?_ (by simpa using outlines) (by simpa using inner)
  · rw [List.mem_append, List.mem_append, not_or, not_or]
    exact ⟨⟨not_mem_name named (by decide), by decide⟩,
      fun member => absurd (signs _ member) (by decide)⟩
  · rw [← chosen (own ++ input.toList ++ [')'])]
    simp

theorem framed_method {make : String → String} {arguments : String} {os : List Outline}
    (listed : Listed arguments os)
    (text : ∀ input, make input = input ++ ("." ++ encodeName ++ "(" ++ arguments ++ ")")) :
    Framed make (.node .own os) := by
  obtain ⟨own, closures, reads, outlines, inner, signs⟩ := listed
  have opening : Reads ("." ++ encodeName ++ "(") (".encodeJson".toList ++ ['(']) [] :=
    .plain (by decide)
  have closing : Reads ")" [')'] [] := .plain (by decide)
  refine ⟨"", _, [], _, [], _, fun input => by rw [String.empty_append, text],
    Reads.plain (by decide), (opening.append reads).append closing, fun input given => ?_⟩
  refine .around (by simp) ?_ (by simp) ?_ (by simpa using outlines) (by simpa using inner)
  · simp only [List.mem_append, not_or]
    exact ⟨⟨by decide, fun member => absurd (signs _ member) (by decide)⟩, by decide⟩
  · have plain : '(' ∉ input.toList ++ ".encodeJson".toList := by
      rw [List.mem_append, not_or]
      exact ⟨fun member => (given _ member).1 rfl, by decide⟩
    -- The value is in front of the bracket too, but without brackets it does not move it.
    have chosen := Choice.ofText_own plain (by simp) (own ++ [')'])
    rw [← chosen]
    simp

/-- A type whose nodes go by dotted names; type arguments of the struct are identifiers, and where
one of them is meant it takes no arguments. -/
structure Scoped (params : List String) (t : TypeExpr) : Prop where
  named : ∀ n ∈ t.nodes, Name.isDotted n.resolvedName
  identifiers : ∀ p ∈ params, Name.isIdentifier p
  bare : t.Bare params

instance (params : List String) (t : TypeExpr) : Decidable (t.Bare params) :=
  inferInstanceAs (Decidable (∀ n ∈ t.nodes, _ → _))

namespace Scoped

variable {t : TypeExpr}

theorem name (h : Scoped params t) : Within (Name.isNameChar ·) t.resolvedName :=
  Name.isNameChar_of_isDotted (h.named t t.self_mem_nodes)

theorem arg {a : TypeExpr} (h : Scoped params t) (arg : a ∈ t.args) : Scoped params a where
  named := fun n inside => h.named n (TypeExpr.mem_nodes_of_arg arg inside)
  identifiers := h.identifiers
  bare := h.bare.arg arg

theorem args_eq (h : Scoped params t) (own : t.resolvedName ∈ params) : t.args = [] :=
  h.bare t t.self_mem_nodes own

end Scoped

/-- What holds of markers, of type arguments, and of other types if of their arguments. -/
theorem scoped_induction {motive : TypeExpr → Prop}
    (marker : ∀ t kind, Scoped params t → Marker.of? t = some kind → motive t)
    (parameter : ∀ t, Scoped params t → Marker.of? t = none → t.resolvedName ∈ params → motive t)
    (own : ∀ t, Scoped params t → Marker.of? t = none → t.resolvedName ∉ params →
      (∀ a ∈ t.args, motive a) → motive t) :
    ∀ t, Scoped params t → motive t := by
  intro t fits
  induction t with
  | node base target args ih =>
    cases marked : Marker.of? ⟨base, target, args⟩ with
    | some kind => exact marker _ kind fits marked
    | none =>
      by_cases passed : TypeExpr.resolvedName ⟨base, target, args⟩ ∈ params
      · exact parameter _ fits marked passed
      · exact own _ fits marked passed fun a arg => ih a arg (fits.arg arg)

theorem outline_parameter {t : TypeExpr} (fits : Scoped params t) (unmarked : Marker.of? t = none)
    (own : t.resolvedName ∈ params) : t.outline params = .node (.parameter t.resolvedName) [] := by
  rw [TypeExpr.outline_node unmarked, if_pos own, fits.args_eq own]
  rfl

theorem outline_own {t : TypeExpr} (unmarked : Marker.of? t = none)
    (foreign : t.resolvedName ∉ params) :
    t.outline params = .node .own (TypeExpr.outlineAll params t.args) := by
  rw [TypeExpr.outline_node unmarked, if_neg foreign]

theorem body_of_framed {make : String → String} {o : Outline} (framed : Framed make o) :
    Body (make closureInput) o := framed.reads (by decide)

theorem framed_parameter {make : String → String} (verb : String) {name : String}
    (letters : verb.toList.length = 6) (word : Within (Name.isTail ·) verb)
    (identifier : Name.isIdentifier name)
    (text : ∀ input, make input = verb ++ name ++ "(" ++ input ++ ")") :
    Framed make (.node (.parameter name) []) := by
  have tail : ∀ c ∈ verb.toList ++ name.toList, Name.isTail c :=
    List.forall_mem_append.mpr ⟨word, Name.isTail_of_isIdentifier identifier⟩
  have callee : (verb ++ name).toList = verb.toList ++ name.toList := String.toList_append
  have named : Within (Name.isNameChar ·) (verb ++ name) := by
    intro c member
    exact Name.isNameChar_of_isTail (tail c (callee ▸ member))
  refine framed_call named ?_ .nil ?_
  · intro rest
    have chosen := Choice.ofText_parameter letters tail rest
    rwa [String.ofList_toList, ← callee] at chosen
  · intro input
    rw [text, String.append_empty]

theorem framed_decode : ∀ t, Scoped params t →
    Framed (fun input => (of params t).decode input) (t.outline params) := by
  apply scoped_induction
  case marker =>
    intro t kind fits marked
    rw [TypeExpr.outline_marker marked]
    cases kind with
    | passThrough =>
      refine framed_cast (show Within Unbracketed " as " by decide) (by decide) (by decide)
        (by decide) fits.name fun input => ?_
      rw [of_marker marked, decode]
    | cast =>
      refine framed_cast (show Within Unbracketed " as? " by decide) (by decide) (by decide)
        (by decide) fits.name fun input => ?_
      rw [of_marker marked, decode]
  case parameter =>
    intro t fits unmarked own
    rw [outline_parameter fits unmarked own]
    refine framed_parameter "decode" (by decide) (by decide) (fits.identifiers _ own)
      fun input => ?_
    rw [of_parameter unmarked own, fits.args_eq own, decode, List.map_nil, decodeClosures,
      List.nil_append, String.intercalate_singleton]
  case own =>
    intro t fits unmarked foreign ih
    rw [outline_own unmarked foreign]
    have listed := Listed.leading fun a arg => body_of_framed (ih a arg)
    have callee : (t.resolvedName ++ "." ++ decodeName).toList =
        t.resolvedName.toList ++ '.' :: decodeName.toList := by
      rw [String.toList_append, String.toList_append]
      simp
    have named : Within (Name.isNameChar ·) (t.resolvedName ++ "." ++ decodeName) :=
      (fits.name.append (by decide)).append (by decide)
    refine framed_call named ?_ listed fun input => ?_
    · exact Choice.ofText_own (not_mem_name named (by decide)) (by rw [callee]; simp)
    · rw [of_own unmarked foreign, decode, decodeClosures_eq_map, intercalate_concat, List.map_map]
      simp only [String.append_assoc]
      rfl

theorem framed_encode : ∀ t, Scoped params t →
    Framed (fun value => (of params t).encode value) (t.outline params) := by
  apply scoped_induction
  case marker =>
    intro t kind fits marked
    rw [TypeExpr.outline_marker marked]
    refine framed_marker "" (by decide) (by simp) (by simp) fun value => ?_
    rw [of_marker marked, encode, String.append_empty]
  case parameter =>
    intro t fits unmarked own
    rw [outline_parameter fits unmarked own]
    refine framed_parameter "encode" (by decide) (by decide) (fits.identifiers _ own)
      fun value => ?_
    rw [of_parameter unmarked own, encode]
  case own =>
    intro t fits unmarked foreign ih
    rw [outline_own unmarked foreign]
    have listed := Listed.joined fun a arg => body_of_framed (ih a arg)
    refine framed_method listed fun value => ?_
    rw [of_own unmarked foreign, encode, encodeClosures_eq_map, List.map_map]
    simp only [String.append_assoc]
    rfl

/-! ## Balance -/

theorem neutral_call {callee arguments : String} (plain : Neutral callee)
    (inside : Neutral arguments) : Neutral (callee ++ "(" ++ arguments ++ ")") := by
  have call := plain.append inside.brackets
  rwa [← String.append_assoc, ← String.append_assoc] at call

theorem neutral_joined {texts : List String} (each : ∀ s ∈ texts, Neutral s) :
    Neutral (String.intercalate ", " texts) := by
  rcases List.eq_nil_or_concat' texts with rfl | ⟨init, last, rfl⟩
  · intro opened rest
    simp
  · obtain ⟨first, single⟩ := List.forall_mem_append.mp each
    rw [intercalate_concat]
    exact (Neutral.leading first).append (single last (List.mem_singleton_self _))

theorem neutral_decode : ∀ t, Scoped params t →
    ∀ input, Within Unbracketed input → Neutral ((of params t).decode input) := by
  apply scoped_induction
  case marker =>
    intro t kind fits marked input plain
    have given := Neutral.plain plain
    have name := Neutral.plain (unbracketed_name fits.name)
    rw [of_marker marked]
    cases kind with
    | passThrough => exact (given.append (.plain (by decide))).append name
    | cast => exact (given.append (.plain (by decide))).append name
  case parameter =>
    intro t fits unmarked own input plain
    have name := Neutral.plain (unbracketed_name fits.name)
    rw [of_parameter unmarked own, fits.args_eq own, decode, List.map_nil, decodeClosures,
      List.nil_append, String.intercalate_singleton]
    exact neutral_call ((Neutral.plain (by decide)).append name) (.plain plain)
  case own =>
    intro t fits unmarked foreign ih input plain
    have name := Neutral.plain (unbracketed_name fits.name)
    rw [of_own unmarked foreign, decode, decodeClosures_eq_map, List.map_map]
    apply neutral_call ((name.append (.plain (by decide))).append (.plain (by decide)))
    apply neutral_joined
    refine List.forall_mem_append.mpr ⟨?_, List.forall_mem_singleton.mpr (.plain plain)⟩
    intro s member
    obtain ⟨a, arg, rfl⟩ := List.mem_map.mp member
    exact (ih a arg closureInput (by decide)).closure

theorem neutral_encode : ∀ t, Scoped params t →
    ∀ value, Within Unbracketed value → Neutral ((of params t).encode value) := by
  apply scoped_induction
  case marker =>
    intro t kind fits marked value plain
    rw [of_marker marked, encode]
    exact .plain plain
  case parameter =>
    intro t fits unmarked own value plain
    have name := Neutral.plain (unbracketed_name fits.name)
    rw [of_parameter unmarked own, encode]
    exact neutral_call ((Neutral.plain (by decide)).append name) (.plain plain)
  case own =>
    intro t fits unmarked foreign ih value plain
    have given := Neutral.plain plain
    rw [of_own unmarked foreign, encode, encodeClosures_eq_map, List.map_map]
    apply neutral_call ((given.append (.plain (by decide))).append (.plain (by decide)))
    apply neutral_joined
    intro s member
    obtain ⟨a, arg, rfl⟩ := List.mem_map.mp member
    exact (ih a arg closureInput (by decide)).closure

end Plan

/-- An expression is made around its input so that brackets and braces are balanced, the input
stands at one place outside of closures, each closure has its value once outside of those inside it,
and what is done from closure to closure is as outlined. -/
structure Mirrors (o : Outline) (make : String → String) (input : String) : Prop where
  balanced : Scope.Balanced (make input)
  once : ∃ front back, (Scope.ofText front).isSome ∧ ∀ i, make i = front ++ i ++ back
  nests : ∃ scope, Scope.ofText (make input) = some scope ∧ scope.Shows o 0

/-- Both expressions for a type mirror it. -/
theorem expressions_mirror_type {t : TypeExpr} {params : List String} {input : String}
    (named : ∀ n ∈ t.nodes, Name.isDotted n.resolvedName)
    (identifiers : ∀ p ∈ params, Name.isIdentifier p) (bare : t.Bare params)
    (plain : Within Scope.Unbracketed input) (unused : Scope.uses input.toList = 0) :
    Mirrors (t.outline params) (decodeExpression · t params) input ∧
      Mirrors (t.outline params) (encodeExpression · t params) input := by
  have fits : Plan.Scoped params t := ⟨named, identifiers, bare⟩
  have mirrors {make : String → String} (neutral : Scope.Neutral (make input))
      (framed : Scope.Framed make (t.outline params)) : Mirrors (t.outline params) make input := by
    obtain ⟨own, closures, reads, shows⟩ := framed.reads plain
    exact ⟨neutral.balanced, framed.once, ⟨own, closures⟩, reads.ofText, unused ▸ shows⟩
  constructor
  · exact mirrors (Plan.neutral_decode t fits input plain) (Plan.framed_decode t fits)
  · exact mirrors (Plan.neutral_encode t fits input plain) (Plan.framed_encode t fits)

theorem expressions_mirror_type_pages :
    let t : TypeExpr := .dictionary (.named "String")
      (.generic "Net.Page" [.named "T", .optional (.generic "AnyJson" [.named "T"])])
    let o : Outline := .node .own [.node .own [],
      .node .own [.node (.parameter "T") [], .node .own [.node .marker []]]]
    (∀ n ∈ t.nodes, Name.isDotted n.resolvedName) ∧ (∀ p ∈ ["T"], Name.isIdentifier p) ∧
      t.Bare ["T"] ∧ Within Scope.Unbracketed "pages_field!" ∧
      Scope.uses "pages_field!".toList = 0 ∧ t.outline ["T"] = o ∧
      Mirrors o (decodeExpression · t ["T"]) "pages_field!" ∧
      Mirrors o (encodeExpression · t ["T"]) "pages_field!" := by
  intro t o
  have named : ∀ n ∈ t.nodes, Name.isDotted n.resolvedName := by decide
  have identifiers : ∀ p ∈ ["T"], Name.isIdentifier p := by decide
  have bare : t.Bare ["T"] := by decide
  have plain : Within Scope.Unbracketed "pages_field!" := by decide
  have unused : Scope.uses "pages_field!".toList = 0 := by decide
  exact ⟨named, identifiers, bare, plain, unused, rfl,
    expressions_mirror_type named identifiers bare plain unused⟩

end SwiftCodec
