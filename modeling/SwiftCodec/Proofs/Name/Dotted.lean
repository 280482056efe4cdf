import SwiftCodec.Name.Basic
import Mathlib.Data.List.Basic

/-!
Dotted names as sequences of identifiers. The matcher goes through the characters of a name one by
one; what it accepts is exactly what identifiers become when dots are put between them. So a
qualified name is dotted if and only if all names that it is made of are.
-/
namespace SwiftCodec.Name

/-- Identifiers, at least one, with dots between them. -/
def Dotted (name : String) : Prop :=
  ∃ parts : List String, parts ≠ [] ∧ (∀ p ∈ parts, isIdentifier p) ∧
    name = String.intercalate "." parts

theorem isDottedFrom_of_tail {cs : List Char} (tail : cs.all isTail) : isDottedFrom true cs := by
  induction cs with
  | nil => rfl
  | cons c cs ih =>
    obtain ⟨here, rest⟩ := List.forall_mem_cons.mp (List.all_eq_true.mp tail)
    have plain : c ≠ '.' := by
      rintro rfl
      exact absurd here (by decide)
    rw [isDottedFrom, if_pos rfl, if_neg plain, here, Bool.true_and]
    exact ih (List.all_eq_true.mpr rest)

theorem isDotted_of_isIdentifier {name : String} (identifier : isIdentifier name) :
    isDotted name := by
  unfold isIdentifier at identifier
  unfold isDotted
  cases chars : name.toList with
  | nil => simp [chars, isIdentifierList] at identifier
  | cons c cs =>
    rw [chars, isIdentifierList, Bool.and_eq_true] at identifier
    rw [isDottedFrom, if_neg (by simp), identifier.1, Bool.true_and]
    exact isDottedFrom_of_tail identifier.2

/-- A dot ends an identifier and begins another, wherever it stands. -/
theorem isDottedFrom_dot (inside : Bool) (front back : List Char) :
    isDottedFrom inside (front ++ '.' :: back) =
      (isDottedFrom inside front && isDottedFrom false back) := by
  induction front generalizing inside with
  | nil =>
    cases inside with
    | false => simp [isDottedFrom, isHead]
    | true => simp [isDottedFrom]
  | cons c front ih =>
    cases inside with
    | false => simp [isDottedFrom, ih, Bool.and_assoc]
    | true =>
      by_cases dot : c = '.'
      · simp [isDottedFrom, dot, ih]
      · simp [isDottedFrom, dot, ih, Bool.and_assoc]

theorem isDotted_join (front back : String) :
    isDotted (front ++ "." ++ back) = (isDotted front && isDotted back) := by
  have dot : ".".toList = ['.'] := by decide
  simp only [isDotted, String.toList_append, dot, List.append_assoc, List.singleton_append]
  exact isDottedFrom_dot false front.toList back.toList

theorem isDotted_intercalate {names : List String} (some : names ≠ []) :
    isDotted (String.intercalate "." names) ↔ ∀ n ∈ names, isDotted n := by
  induction names with
  | nil => contradiction
  | cons first rest ih =>
    cases rest with
    | nil => simp
    | cons second rest =>
      have later := ih (List.cons_ne_nil _ _)
      rw [String.intercalate_cons_cons, isDotted_join, Bool.and_eq_true, later,
        List.forall_mem_cons (a := first)]

/-- The first run of characters of a dotted text, and the identifiers behind its dots. Inside an
identifier the run is the rest of it. -/
theorem exists_runs {inside : Bool} {cs : List Char} (dotted : isDottedFrom inside cs) :
    ∃ run runs, cs = List.intercalate ['.'] (run :: runs) ∧
      (if inside then run.all isTail else isIdentifierList run) ∧
      ∀ r ∈ runs, isIdentifierList r := by
  induction cs generalizing inside with
  | nil =>
    cases inside with
    | false => cases dotted
    | true => exact ⟨[], [], by simp, rfl, List.forall_mem_nil _⟩
  | cons c cs ih =>
    -- One more character belongs in front of the first run.
    have extend (run : List Char) (runs : List (List Char)) :
        c :: List.intercalate ['.'] (run :: runs) =
          List.intercalate ['.'] ((c :: run) :: runs) := by
      cases runs <;> simp
    cases inside with
    | false =>
      simp only [isDottedFrom, Bool.false_eq_true, if_false, Bool.and_eq_true] at dotted
      obtain ⟨run, runs, text, tail, identifiers⟩ := ih dotted.2
      refine ⟨c :: run, runs, by rw [text, extend], ?_, identifiers⟩
      simpa [isIdentifierList, dotted.1] using tail
    | true =>
      by_cases dot : c = '.'
      · subst dot
        have behind : isDottedFrom false cs := dotted
        obtain ⟨run, runs, text, identifier, identifiers⟩ := ih behind
        refine ⟨[], run :: runs, by simp [text], rfl, ?_⟩
        exact List.forall_mem_cons.mpr ⟨identifier, identifiers⟩
      · simp only [isDottedFrom, if_true, if_neg dot, Bool.and_eq_true] at dotted
        obtain ⟨run, runs, text, tail, identifiers⟩ := ih dotted.2
        refine ⟨c :: run, runs, by rw [text, extend], ?_, identifiers⟩
        simpa [dotted.1] using tail

/-- The matcher accepts sequences of identifiers, and nothing else. -/
theorem isDotted_iff {name : String} : isDotted name ↔ Dotted name := by
  constructor
  · intro dotted
    obtain ⟨run, runs, text, first, later⟩ := exists_runs dotted
    have identifier : ∀ r ∈ run :: runs, isIdentifierList r :=
      List.forall_mem_cons.mpr ⟨first, later⟩
    refine ⟨(run :: runs).map String.ofList, by simp, ?_, ?_⟩
    · intro p member
      obtain ⟨r, present, rfl⟩ := List.mem_map.mp member
      rw [isIdentifier, String.toList_ofList]
      exact identifier r present
    · have dot : ".".toList = ['.'] := by decide
      apply String.toList_inj.mp
      rw [String.toList_intercalate, List.map_map, dot, text]
      congr 1
      simp [Function.comp_def]
  · rintro ⟨parts, some, identifiers, rfl⟩
    rw [isDotted_intercalate some]
    exact fun p member => isDotted_of_isIdentifier (identifiers p member)

/-! ## Characters -/

theorem dot_or_tail_of_isDottedFrom {inside : Bool} {cs : List Char}
    (dotted : isDottedFrom inside cs) : ∀ c ∈ cs, c = '.' ∨ isTail c := by
  induction cs generalizing inside with
  | nil => simp
  | cons c cs ih =>
    have step : (c = '.' ∨ isTail c) ∧ ∃ inside, isDottedFrom inside cs := by
      rw [isDottedFrom] at dotted
      split_ifs at dotted with started dot
      · exact ⟨.inl dot, _, dotted⟩
      · rw [Bool.and_eq_true] at dotted
        exact ⟨.inr dotted.1, _, dotted.2⟩
      · rw [Bool.and_eq_true] at dotted
        exact ⟨.inr (by rw [isTail, dotted.1, Bool.true_or]), _, dotted.2⟩
    obtain ⟨here, inside, rest⟩ := step
    exact List.forall_mem_cons.mpr ⟨here, ih rest⟩

/-- A character of which dotted names are made. -/
def isNameChar (c : Char) : Bool := isTail c || c = '.'

theorem isNameChar_of_isTail {c : Char} (tail : isTail c) : isNameChar c := by
  rw [isNameChar, tail, Bool.true_or]

theorem isNameChar_of_isDotted {name : String} (dotted : isDotted name) :
    ∀ c ∈ name.toList, isNameChar c := by
  intro c member
  rcases dot_or_tail_of_isDottedFrom dotted c member with rfl | tail
  · decide
  · exact isNameChar_of_isTail tail

end SwiftCodec.Name
