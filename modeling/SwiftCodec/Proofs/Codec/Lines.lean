import SwiftCodec.Proofs.Codec.Alphabet
import SwiftCodec.Proofs.Codec.Bindings

/-!
Reading the lines of a codec: which entries of the local dictionary a line names, which name it
binds, which field it reports as missing and what it builds. For each reader there is a lemma about
one statement, whose lines are fixed but for the texts it is given, and one about the lines of a
whole function.
-/
namespace SwiftCodec

/-! ## Readers -/

/-- A line without the blanks in front. -/
def unindented (line : String) : List Char := line.toList.dropWhile (· = ' ')

/-- An entry of the local dictionary in a line; what is assigned is followed by a sign of it. -/
structure Access where
  key : String
  assigned : Bool
deriving DecidableEq, Repr

/-- Code and string literals take turns. -/
def accessesIn : List (List Char) → List Access
  | code :: literal :: rest =>
    (if "dict[".toList.isSuffixOf code then
      [⟨String.ofList literal, "] = ".toList.isPrefixOf (rest.headD [])⟩] else []) ++
    accessesIn rest
  | _ => []

def accesses (line : String) : List Access := accessesIn ((unindented line).splitOn '"')

/-- The name that a line binds, behind one of the words for it. -/
def boundName? (line : String) : Option String :=
  (["let ", "guard let ", "if let ", "var "].findSome? fun word =>
    (unindented line).dropPrefix? word.toList).map fun cs =>
      String.ofList (cs.takeWhile Name.isTail)

/-- The field that a line reports as missing. -/
def missingField? (line : String) : Option String :=
  ((unindented line).dropPrefix? "assertionFailure(\"field '".toList).bind fun cs =>
    if cs.dropWhile (· ≠ '\x27') = "' is missing\")".toList then
      some (String.ofList (cs.takeWhile (· ≠ '\x27'))) else none

/-- The fields that are reported as missing just before nothing is given back. -/
def missingExits : List String → List String
  | line :: next :: rest =>
    (if unindented next = "return nil".toList then (missingField? line).toList else []) ++
      missingExits (next :: rest)
  | _ => []

/-- The call whose value a line gives back. -/
def returnedCall? (line : String) : Option Call :=
  ((unindented line).dropPrefix? "return ".toList).bind fun cs => (Call.scan [] cs).head?

/-- The label of an argument and the text behind it. -/
def labelled (argument : String) : String × String :=
  (String.ofList (argument.toList.takeWhile (· ≠ ':')),
    String.ofList ((argument.toList.dropWhile (· ≠ ':')).drop 2))

/-! ## Indentation -/

theorem unindented_of_visible {line : String} (visible : Visible line) :
    unindented line = line.toList := by
  simpa [unindented] using visible.dropWhile_blanks []

theorem unindented_indent (width : Nat) (line : String) :
    unindented (indent width line) = unindented line := by
  unfold indent
  split_ifs with void
  · rw [void]
  · rw [unindented, String.toList_append, String.toList_ofList,
      List.dropWhile_append_of_pos fun c member => by simpa using List.eq_of_mem_replicate member,
      unindented]

theorem accesses_indent (width : Nat) : accesses ∘ indent width = accesses :=
  funext fun line => by rw [Function.comp_apply, accesses, unindented_indent, accesses]

theorem boundName?_indent (width : Nat) : boundName? ∘ indent width = boundName? :=
  funext fun line => by rw [Function.comp_apply, boundName?, unindented_indent, boundName?]

/-- Blanks in front of lines are of no account. -/
theorem missingExits_congr {lines lines' : List String}
    (same : List.Forall₂ (fun line line' => unindented line = unindented line') lines lines') :
    missingExits lines = missingExits lines' := by
  induction same with
  | nil => rfl
  | cons head tail ih =>
    cases tail with
    | nil => rfl
    | cons next _ => simp only [missingExits, missingField?, head, next, ih]

/-- The lines of a function before they are indented. -/
def Function.flush (f : Function) : List String :=
  (f.signature ++ " \x7b") :: f.body.flatMap Statement.lines ++ ["\x7d"]

theorem Function.lines_flush (f : Function) :
    List.Forall₂ (fun line line' => unindented line = unindented line') f.lines f.flush := by
  refine .cons (unindented_indent 2 _) (List.rel_append ?_ (.cons (unindented_indent 2 _) .nil))
  exact List.forall₂_map_left_iff.mpr (List.forall₂_same.mpr fun line _ => unindented_indent 4 line)

/-! ## Entries of the dictionary -/

abbrev Unquoted (s : String) : Prop := Within (· ≠ '"') s

theorem accesses_unquoted {line : String} (plain : Unquoted line) : accesses line = [] := by
  have absent : '"' ∉ unindented line :=
    fun member => plain '"' (List.dropWhile_sublist _ |>.subset member) rfl
  rw [accesses, List.splitOn_eq_singleton absent]
  rfl

theorem accesses_literal {line front literal back : String}
    (split : unindented line = front.toList ++ '"' :: (literal.toList ++ '"' :: back.toList))
    (plain : Unquoted front) (plain' : Unquoted literal) (plain'' : Unquoted back) :
    accesses line =
      if "dict[".toList <:+ front.toList then
        [⟨literal, "] = ".toList.isPrefixOf back.toList⟩] else [] := by
  have absent {s : String} (h : Unquoted s) : '"' ∉ s.toList := fun member => h '"' member rfl
  rw [accesses, split, List.splitOn_append_cons_self, List.splitOn_append_cons_self,
    List.splitOn_eq_singleton (absent plain), List.splitOn_eq_singleton (absent plain'),
    List.splitOn_eq_singleton (absent plain'')]
  simp [accessesIn]

def Source.accesses : Source → List Access
  | .entry key => [⟨key, false⟩]
  | .expression _ => []

/-- The words of a binding up to its source. -/
def Binding.front (b : Binding) : String :=
  (match b.type with
    | none => b.name
    | some type => b.name ++ ": " ++ type) ++ " = "

theorem Binding.unquoted_front {b : Binding} (plain : ∀ t ∈ b.texts, Unquoted t) :
    Unquoted b.front := by
  obtain ⟨name, type?, source⟩ := b
  have named : Unquoted name := plain name (by simp [texts])
  cases type? with
  | none => exact named.append (by decide)
  | some type =>
    have typed : Unquoted type := plain type (by simp [texts])
    exact ((named.append (by decide)).append typed).append (by decide)

/-- A line that binds names the entry that its source is. -/
theorem accesses_binding {b : Binding} (plain : ∀ t ∈ b.texts, Unquoted t) (word back : String)
    (visible : Visible word) (plainWord : Unquoted word) (plainBack : Unquoted back)
    (unassigned : "] = ".toList.isPrefixOf (']' :: back.toList) = false) :
    accesses (word ++ b.text ++ back) = b.source.accesses := by
  have front := plainWord.append (Binding.unquoted_front plain)
  have given : Unquoted b.source.given := plain _ (by simp [Binding.texts])
  have text : b.text = b.front ++ b.source.text := by
    cases b with
    | mk name type source => cases type <;> rfl
  rw [text]
  cases source : b.source with
  | expression value =>
    rw [source] at given
    refine accesses_unquoted (((plainWord.append ?_)).append plainBack)
    exact (Binding.unquoted_front plain).append given
  | entry key =>
    rw [source] at given
    have split : unindented (word ++ (b.front ++ (Source.entry key).text) ++ back) =
        (word ++ b.front ++ "dict[").toList ++ '"' ::
          (key.toList ++ '"' :: ("]" ++ back).toList) := by
      rw [unindented_of_visible ((visible.append _).append _)]
      simp [Source.text]
    rw [accesses_literal split (front.append (by decide)) given
      ((show Unquoted "]" by decide).append plainBack)]
    have suffix : "dict[".toList <:+ (word ++ b.front ++ "dict[").toList :=
      ⟨_, (String.toList_append ..).symm⟩
    have after : ("]" ++ back).toList = ']' :: back.toList := by simp
    rw [if_pos suffix, after, unassigned]
    rfl

theorem DecodeFailure.unquoted_text {failure : DecodeFailure}
    (plain : ∀ t ∈ failure.texts, Unquoted t) : Unquoted failure.text := by
  match failure with
  | .missingField field =>
    have name : Unquoted field := plain field (by simp [texts])
    exact ((show Unquoted "field '" by decide).append name).append (by decide)
  | .typeMismatch none expected =>
    have type : Unquoted expected := plain expected (by simp [texts])
    exact (show Unquoted "json not a " by decide).append type
  | .typeMismatch (some field) expected =>
    have name : Unquoted field := plain field (by simp [texts])
    have type : Unquoted expected := plain expected (by simp [texts])
    exact (((show Unquoted "field '" by decide).append name).append (by decide)).append type

namespace Statement

/-- The entries that the lines of a statement name. -/
def accesses : Statement → List Access
  | .bind b | .guardBind b _ | .ifBind b _ => b.source.accesses
  | .store key _ => [⟨key, true⟩]
  | _ => []

theorem accesses_message {message : String} (plain : Unquoted message) :
    SwiftCodec.accesses ("  assertionFailure(\"" ++ message ++ "\")") = [] := by
  have split : unindented ("  assertionFailure(\"" ++ message ++ "\")") =
      "assertionFailure(".toList ++ '"' :: (message.toList ++ '"' :: ")".toList) := by
    simp [unindented]
  rw [accesses_literal split (by decide) plain (by decide), if_neg (by decide)]

theorem accesses_store {key value : String} (plain : Unquoted key) (plain' : Unquoted value) :
    SwiftCodec.accesses ((Source.entry key).text ++ " = " ++ value) = [⟨key, true⟩] := by
  have split : unindented ((Source.entry key).text ++ " = " ++ value) =
      "dict[".toList ++ '"' :: (key.toList ++ '"' :: ("] = " ++ value).toList) := by
    have entry : Visible (Source.entry key).text :=
      ((show Visible "dict[\"" by decide).append key).append _
    rw [unindented_of_visible ((entry.append _).append _)]
    simp [Source.text]
  rw [accesses_literal split (by decide) plain ((show Unquoted "] = " by decide).append plain'),
    if_pos (List.suffix_refl _)]
  simp

theorem accesses_lines {s : Statement} (plain : ∀ t ∈ s.texts, Unquoted t) :
    s.lines.flatMap SwiftCodec.accesses = s.accesses := by
  have nothing {line : String} (h : Unquoted line) : SwiftCodec.accesses line = [] :=
    accesses_unquoted h
  cases s with
  | blank | newDictionary | keyWarning => rfl
  | bind b =>
    have binding := accesses_binding plain "let " "" (by decide) (by decide) (by decide) (by decide)
    rw [String.append_empty] at binding
    simp only [lines, List.flatMap_singleton, binding, accesses]
  | guardBind b failure =>
    have given : ∀ t ∈ b.texts, Unquoted t :=
      fun t member => plain t (List.mem_append_left _ member)
    have message : Unquoted failure.text :=
      DecodeFailure.unquoted_text fun t member => plain t (List.mem_append_right _ member)
    simp only [lines, List.flatMap_cons, List.flatMap_nil, accesses_message message,
      accesses_binding given "guard let " " else \x7b" (by decide) (by decide) (by decide)
        (by decide),
      nothing (show Unquoted "  return nil" by decide), nothing (show Unquoted "\x7d" by decide),
      accesses, List.append_nil]
  | ifBind b value =>
    have given : ∀ t ∈ b.texts, Unquoted t :=
      fun t member => plain t (List.mem_cons_of_mem _ member)
    have value' : Unquoted value := plain value List.mem_cons_self
    simp only [lines, List.flatMap_cons, List.flatMap_nil,
      accesses_binding given "if let " " \x7b" (by decide) (by decide) (by decide) (by decide),
      nothing ((show Unquoted "  return " by decide).append value'),
      nothing (show Unquoted "\x7d" by decide), accesses, List.append_nil]
  | construct type labels =>
    have named : Unquoted type := plain type List.mem_cons_self
    have labelled : Unquoted (String.intercalate ", " (labels.map fun l => l ++ ": " ++ l)) := by
      refine .intercalate (by decide) fun text member => ?_
      obtain ⟨l, label, rfl⟩ := List.mem_map.mp member
      have label' : Unquoted l := plain l (List.mem_cons_of_mem _ label)
      exact (label'.append (by decide)).append label'
    have line := (((show Unquoted "return " by decide).append named).append
      (show Unquoted "(" by decide)).append labelled
    simp only [lines, List.flatMap_singleton,
      nothing (line.append (show Unquoted ")" by decide)), accesses]
  | giveBack value =>
    have value' : Unquoted value := plain value List.mem_cons_self
    simp only [lines, List.flatMap_singleton,
      nothing ((show Unquoted "return " by decide).append value'), accesses]
  | store key value =>
    have key' : Unquoted key := plain key List.mem_cons_self
    have value' : Unquoted value := plain value (by simp [texts])
    simp only [lines, List.flatMap_singleton, accesses_store key' value', accesses]

end Statement

theorem Function.accesses_lines {f : Function} (signature : Unquoted f.signature)
    (plain : ∀ s ∈ f.body, ∀ t ∈ s.texts, Unquoted t) :
    f.lines.flatMap accesses = f.body.flatMap Statement.accesses := by
  have opening : accesses (indent 2 (f.signature ++ " \x7b")) = [] := by
    rw [← Function.comp_apply (f := accesses), accesses_indent]
    exact accesses_unquoted (signature.append (by decide))
  have closing : accesses (indent 2 "\x7d") = [] := by decide
  have body : ((f.body.flatMap Statement.lines).map (indent 4)).flatMap accesses =
      f.body.flatMap Statement.accesses := by
    rw [List.flatMap_map, ← Function.comp_def, accesses_indent, List.flatMap_assoc]
    exact List.flatMap_congr fun s present => Statement.accesses_lines (plain s present)
  simp only [lines, List.cons_append, List.flatMap_cons, List.flatMap_append, List.flatMap_nil,
    opening, closing, body, List.nil_append, List.append_nil]

/-! ## Names that are bound -/

abbrev IsWord (s : String) : Prop := Within (Name.isTail ·) s

theorem takeWhile_word {name : String} (word : IsWord name) {c : Char}
    (apart : Name.isTail c = false) (rest : List Char) :
    (name.toList ++ c :: rest).takeWhile Name.isTail = name.toList := by
  rw [List.takeWhile_append_of_pos word, List.takeWhile_cons_of_neg (by simp [apart]),
    List.append_nil]

theorem Binding.leading_word {b : Binding} (word : IsWord b.name) (back : List Char) :
    (b.text.toList ++ back).takeWhile Name.isTail = b.name.toList := by
  obtain ⟨name, type?, source⟩ := b
  cases type? with
  | none => simpa [text] using takeWhile_word word (by decide : Name.isTail ' ' = false) _
  | some type => simpa [text] using takeWhile_word word (by decide : Name.isTail ':' = false) _

theorem Statement.boundNames_lines {s : Statement} (words : ∀ n ∈ s.introduced, IsWord n) :
    s.lines.filterMap boundName? = s.introduced := by
  have named {b : Binding} (word : IsWord b.name) (back : List Char) :
      String.ofList ((b.text.toList ++ back).takeWhile Name.isTail) = b.name := by
    rw [b.leading_word word, String.ofList_toList]
  cases s with
  | blank | newDictionary | keyWarning => decide
  | bind b =>
    have name := named (words b.name List.mem_cons_self) []
    rw [List.append_nil] at name
    simp [lines, boundName?, unindented, List.dropPrefix?, introduced, name]
  | guardBind b failure =>
    have name := named (words b.name List.mem_cons_self)
    simp [lines, boundName?, unindented, List.dropPrefix?, introduced, name]
  | ifBind b value =>
    have name := named (words b.name List.mem_cons_self)
    simp [lines, boundName?, unindented, List.dropPrefix?, introduced, name]
  | construct | giveBack | store =>
    simp [lines, boundName?, unindented, List.dropPrefix?, introduced, Source.text]

theorem Function.boundNames_lines {f : Function}
    (signature : boundName? (f.signature ++ " \x7b") = none)
    (words : ∀ s ∈ f.body, ∀ n ∈ s.introduced, IsWord n) :
    f.lines.filterMap boundName? = f.body.flatMap Statement.introduced := by
  have opening : boundName? (indent 2 (f.signature ++ " \x7b")) = none := by
    rw [← Function.comp_apply (f := boundName?), boundName?_indent, signature]
  have closing : boundName? (indent 2 "\x7d") = none := by decide
  have body : ((f.body.flatMap Statement.lines).map (indent 4)).filterMap boundName? =
      f.body.flatMap Statement.introduced := by
    rw [List.filterMap_map, boundName?_indent, List.filterMap_flatMap]
    exact List.flatMap_congr fun s present => Statement.boundNames_lines (words s present)
  simp only [lines, List.cons_append, List.filterMap_cons, List.filterMap_append,
    List.filterMap_nil, opening, closing, body, List.append_nil]

/-! ## Missing fields -/

/-- A report begins with a letter of its own. -/
theorem missingField?_of_head {line : String} (other : (unindented line).head? ≠ some 'a') :
    missingField? line = none := by
  have report :
      "assertionFailure(\"field '".toList = 'a' :: "ssertionFailure(\"field '".toList := by decide
  have none : (unindented line).dropPrefix? "assertionFailure(\"field '".toList = none := by
    rw [report]
    cases chars : unindented line with
    | nil => rfl
    | cons c cs =>
      rw [chars] at other
      simp only [List.dropPrefix?]
      rw [if_neg (by simpa using other)]
  rw [missingField?, none]
  rfl

theorem missingExits_cons {line : String} (silent : missingField? line = none)
    (rest : List String) : missingExits (line :: rest) = missingExits rest := by
  cases rest with
  | nil => rfl
  | cons next rest =>
    simp only [missingExits, silent, Option.toList_none, ite_self, List.nil_append]

theorem missingExits_cons_nil {line : String} (rest : List String) :
    missingExits (line :: "  return nil" :: rest) =
      (missingField? line).toList ++ missingExits rest := by
  have back : unindented "  return nil" = "return nil".toList := by decide
  rw [missingExits, if_pos back, missingExits_cons (missingField?_of_head (by decide))]

def DecodeFailure.field? : DecodeFailure → Option String
  | .missingField field => some field
  | .typeMismatch field? _ => field?

/-- The field that a failure reports as missing. -/
def DecodeFailure.missing? : DecodeFailure → Option String
  | .missingField field => some field
  | .typeMismatch _ _ => none

theorem missingField?_report {field back : String} (word : IsWord field) :
    missingField? ("  assertionFailure(\"field '" ++ field ++ "'" ++ back) =
      if back = " is missing\")" then some field else none := by
  have front : unindented ("  assertionFailure(\"field '" ++ field ++ "'" ++ back) =
      "assertionFailure(\"field '".toList ++ (field.toList ++ '\x27' :: back.toList) := by
    simp [unindented]
  have plain : ∀ c ∈ field.toList, decide (c ≠ '\x27') = true := by
    intro c member
    rw [decide_eq_true_eq]
    rintro rfl
    exact absurd (word _ member) (by decide)
  have last : "' is missing\")".toList = '\x27' :: " is missing\")".toList := by decide
  rw [missingField?, front, List.dropPrefix?_append_of_beq _ BEq.rfl, Option.bind_some,
    List.dropWhile_append_of_pos plain, List.takeWhile_append_of_pos plain,
    List.dropWhile_cons_of_neg (by decide), List.takeWhile_cons_of_neg (by decide), last]
  simp only [List.cons.injEq, true_and, String.toList_inj, List.append_nil, String.ofList_toList]

theorem missingField?_message {failure : DecodeFailure} (words : ∀ n ∈ failure.field?, IsWord n) :
    missingField? ("  assertionFailure(\"" ++ failure.text ++ "\")") = failure.missing? := by
  cases failure with
  | missingField field =>
    have line : "  assertionFailure(\"" ++ (DecodeFailure.missingField field).text ++ "\")" =
        "  assertionFailure(\"field '" ++ field ++ "'" ++ " is missing\")" :=
      String.toList_inj.mp (by simp [DecodeFailure.text])
    rw [line, missingField?_report (words field rfl), if_pos rfl]
    rfl
  | typeMismatch field? expected =>
    cases field? with
    | none =>
      have other : (unindented ("  assertionFailure(\"" ++
          (DecodeFailure.typeMismatch none expected).text ++ "\")")).dropPrefix?
          "assertionFailure(\"field '".toList = none := by
        simp [unindented, DecodeFailure.text, List.dropPrefix?]
      rw [missingField?, other]
      rfl
    | some field =>
      have line : "  assertionFailure(\"" ++
          (DecodeFailure.typeMismatch (some field) expected).text ++ "\")" =
          "  assertionFailure(\"field '" ++ field ++ "'" ++ (" is not a " ++ expected ++ "\")") :=
        String.toList_inj.mp (by simp [DecodeFailure.text])
      have other : " is not a " ++ expected ++ "\")" ≠ " is missing\")" := by
        intro same
        simpa using String.toList_inj.mpr same
      rw [line, missingField?_report (words field rfl), if_neg other]
      rfl

def Statement.failure? : Statement → Option DecodeFailure
  | .guardBind _ failure => some failure
  | _ => none

/-- The fields for want of which a statement gives up. -/
def Statement.missing (s : Statement) : List String := (s.failure?.bind (·.missing?)).toList

theorem Statement.missingExits_lines {s : Statement}
    (words : ∀ failure ∈ s.failure?, ∀ n ∈ failure.field?, IsWord n)
    (rest : List String) : missingExits (s.lines ++ rest) = s.missing ++ missingExits rest := by
  have silent {line : String} (other : (unindented line).head? ≠ some 'a') (rest : List String) :
      missingExits (line :: rest) = missingExits rest :=
    missingExits_cons (missingField?_of_head other) rest
  cases s with
  | blank | newDictionary | keyWarning => exact silent (by decide) rest
  | bind b => exact silent (by simp [unindented]) rest
  | guardBind b failure =>
    simp only [lines, List.cons_append, List.nil_append]
    rw [silent (by simp [unindented]), missingExits_cons_nil, silent (by decide),
      missingField?_message (words failure rfl)]
    rfl
  | ifBind b value =>
    simp only [lines, List.cons_append, List.nil_append]
    rw [silent (by simp [unindented]), silent (by simp [unindented]), silent (by decide)]
    rfl
  | construct | giveBack | store => exact silent (by simp [unindented, Source.text]) rest

theorem missingExits_flatMap {statements : List Statement}
    (words : ∀ s ∈ statements, ∀ failure ∈ s.failure?, ∀ n ∈ failure.field?, IsWord n)
    (rest : List String) :
    missingExits (statements.flatMap Statement.lines ++ rest) =
      statements.flatMap Statement.missing ++ missingExits rest := by
  induction statements with
  | nil => rfl
  | cons s statements ih =>
    obtain ⟨first, later⟩ := List.forall_mem_cons.mp words
    rw [List.flatMap_cons, List.flatMap_cons, List.append_assoc, Statement.missingExits_lines first,
      ih later, List.append_assoc]

theorem Function.missingExits_lines {f : Function}
    (signature : missingField? (f.signature ++ " \x7b") = none)
    (words : ∀ s ∈ f.body, ∀ failure ∈ s.failure?, ∀ n ∈ failure.field?, IsWord n) :
    missingExits f.lines = f.body.flatMap Statement.missing := by
  have closing : missingField? "\x7d" = none := missingField?_of_head (by decide)
  rw [missingExits_congr f.lines_flush, flush, List.cons_append, missingExits_cons signature,
    missingExits_flatMap words, missingExits_cons closing]
  exact List.append_nil _

end SwiftCodec
