import SwiftCodec.Codec.Enum
import SwiftCodec.Proofs.Codec.Marks
import SwiftCodec.Text.Blank
import Mathlib.Data.List.DropRight

/-!
The lines that follow a remark. Of the lines of generated functions only the remarks start with a
block comment, so a function has one for each of its marked fields and no other, and the next line
stores the field.
-/
namespace SwiftCodec

namespace Text

def trim (s : String) : String := dropBlanksEnd (dropBlanks s)

/-- Behind its leading blanks a line does not start with a block comment. -/
def Plain (line : String) : Prop := ¬ ['/', '*'] <+: line.toList.dropWhile isBlank

instance (line : String) : Decidable (Plain line) := inferInstanceAs (Decidable (¬ _))

/-- Two characters of a line decide. -/
theorem plain_append {word rest : String} (long : 2 ≤ (word.toList.dropWhile isBlank).length)
    (plain : Plain word) : Plain (word ++ rest) := by
  intro opens
  have begun : ¬ (word.toList.dropWhile isBlank).isEmpty := by
    rw [List.isEmpty_iff]
    intro empty
    simp [empty] at long
  rw [String.toList_append, List.dropWhile_append, if_neg begun] at opens
  exact plain (List.prefix_of_prefix_length_le opens (List.prefix_append _ _) long)

theorem dropWhile_blanks (width : Nat) (cs : List Char) :
    (List.replicate width ' ' ++ cs).dropWhile isBlank = cs.dropWhile isBlank := by
  rw [List.dropWhile_append, List.dropWhile_replicate_eq_filter_not]
  have blank : isBlank ' ' = true := by decide
  simp [blank]

theorem plain_indent {line : String} (width : Nat) (plain : Plain line) :
    Plain (indent width line) := by
  unfold indent
  split
  · decide
  · unfold Plain
    rw [String.toList_append, String.toList_ofList, dropWhile_blanks]
    exact plain

theorem trim_ne_of_plain {line : String} (plain : Plain line) : trim line ≠ keyWarningText := by
  intro same
  refine plain ?_
  have cut : (trim line).toList <+: line.toList.dropWhile isBlank := by
    simp only [trim, dropBlanksEnd, dropBlanks, String.toList_ofList]
    exact List.rdropWhile_prefix isBlank _
  rw [same] at cut
  exact List.IsPrefix.trans (by decide) cut

end Text

/-- For every line that reads as the remark when trimmed, the line behind it. -/
def afterRemarks : List String → List (Option String)
  | [] => []
  | line :: rest =>
    if Text.trim line = keyWarningText then rest.head? :: afterRemarks rest else afterRemarks rest

theorem afterRemarks_plain {lines : List String} (plain : ∀ l ∈ lines, Text.Plain l)
    (rest : List String) : afterRemarks (lines ++ rest) = afterRemarks rest := by
  induction lines with
  | nil => rfl
  | cons l lines ih =>
    obtain ⟨head, tail⟩ := List.forall_mem_cons.mp plain
    rw [List.cons_append, afterRemarks, if_neg (Text.trim_ne_of_plain head), ih tail]

theorem Statement.plain_lines {s : Statement} (other : s ≠ .keyWarning) :
    ∀ l ∈ s.lines, Text.Plain l := by
  cases s with
  | keyWarning => contradiction
  | blank => exact List.forall_mem_singleton.mpr (by decide)
  | bind b => exact List.forall_mem_singleton.mpr (Text.plain_append (by decide) (by decide))
  | guardBind b failure =>
    simp only [lines, String.append_assoc, List.forall_mem_cons]
    exact ⟨Text.plain_append (by decide) (by decide), Text.plain_append (by decide) (by decide),
      by decide, by decide, List.forall_mem_nil _⟩
  | ifBind b value =>
    simp only [lines, String.append_assoc, List.forall_mem_cons]
    exact ⟨Text.plain_append (by decide) (by decide), Text.plain_append (by decide) (by decide),
      by decide, List.forall_mem_nil _⟩
  | construct type labels =>
    simp only [lines, String.append_assoc]
    exact List.forall_mem_singleton.mpr (Text.plain_append (by decide) (by decide))
  | giveBack value =>
    exact List.forall_mem_singleton.mpr (Text.plain_append (by decide) (by decide))
  | newDictionary => exact List.forall_mem_singleton.mpr (by decide)
  | store key value =>
    simp only [lines, Source.text, String.append_assoc]
    exact List.forall_mem_singleton.mpr (Text.plain_append (by decide) (by decide))

theorem Statement.plain_printed {body : List Statement} (other : ∀ s ∈ body, s ≠ .keyWarning) :
    ∀ l ∈ (body.flatMap lines).map (indent 4), Text.Plain l := by
  intro l member
  obtain ⟨line, printed, rfl⟩ := List.mem_map.mp member
  obtain ⟨s, present, printed⟩ := List.mem_flatMap.mp printed
  exact Text.plain_indent 4 (s.plain_lines (other s present) line printed)

/-- The line that stores an encoded field. -/
def assignment (field : String) (t : TypeExpr) (params : List String) : String :=
  indent 4 ("dict[\"" ++ field ++ "\"] = " ++ encodeExpression field t params)

theorem lines_store (field : String) (t : TypeExpr) (params : List String) :
    (Statement.store field (encodeExpression field t params)).lines.map (indent 4) =
      [assignment field t params] := by
  have joined (value : String) : "\"]" ++ (" = " ++ value) = "\"] = " ++ value :=
    (String.append_assoc ..).symm
  simp only [Statement.lines, Source.text, assignment, List.map_singleton, String.append_assoc,
    joined]

namespace Function

variable {f : Function}

/-- The functions that codecs are made of. -/
def IsCodec (f : Function) : Prop :=
  f.opening = "static func " ++ decodeName ∨ f.opening = "func " ++ encodeName

theorem IsCodec.plain_signature (codec : f.IsCodec) :
    Text.Plain (indent 2 (f.signature ++ " \x7b")) := by
  refine Text.plain_indent 2 ?_
  unfold signature
  rcases codec with opening | opening
  · simp only [opening, String.append_assoc]
    exact Text.plain_append (by decide) (by decide)
  · simp only [opening, String.append_assoc]
    exact Text.plain_append (by decide) (by decide)

theorem IsCodec.plain_lines (codec : f.IsCodec) (other : ∀ s ∈ f.body, s ≠ .keyWarning) :
    ∀ l ∈ f.lines, Text.Plain l := by
  intro l member
  rcases List.mem_append.mp member with member | member
  · rcases List.mem_cons.mp member with rfl | member
    · exact codec.plain_signature
    · exact Statement.plain_printed other l member
  · obtain rfl := List.mem_singleton.mp member
    decide

end Function

theorem EnumDecl.plain_decoder (e : EnumDecl) : ∀ l ∈ e.decoder.lines, Text.Plain l :=
  Function.IsCodec.plain_lines (.inl rfl) (by simp [decoder])

theorem EnumDecl.plain_encoder (e : EnumDecl) : ∀ l ∈ e.encoder.lines, Text.Plain l :=
  Function.IsCodec.plain_lines (.inr rfl) (by simp [encoder])

theorem Field.unmarked_decode {f : Field} {params : List String} {statements : List Statement}
    (decoded : f.decode params = .ok statements) : ∀ s ∈ statements, s ≠ .keyWarning := by
  obtain ⟨shape, _, h⟩ := bind_eq_ok.mp decoded
  dsimp only at h
  split at h
  · cases h
    simp
  · cases h
    split <;> simp

namespace StructDecl

theorem plain_decoder {s : StructDecl} {d : Function} (made : s.decoder = .ok d) :
    ∀ l ∈ d.lines, Text.Plain l := by
  obtain ⟨fields, decoded, h⟩ := bind_eq_ok.mp made
  cases h
  refine Function.IsCodec.plain_lines (.inl rfl) ?_
  have unmarked : ∀ st ∈ fields.flatten, st ≠ .keyWarning := by
    intro st member
    obtain ⟨statements, present, member⟩ := List.mem_flatten.mp member
    obtain ⟨f, _, hf⟩ := exists_of_forall₂ (mapM_eq_ok.mp decoded).flip present
    exact Field.unmarked_decode hf st member
  simpa [or_imp, forall_and] using unmarked

/-- The lines that store the marked fields. -/
def remarked (s : StructDecl) (marks : List (Field × Option String)) : List String :=
  marks.filterMap fun (f, key?) => key?.map fun _ => assignment f.name f.type s.parameters

theorem remark_indent : Text.trim (indent 4 keyWarningText) = keyWarningText := by decide

theorem plain_assignment (field : String) (t : TypeExpr) (params : List String) :
    Text.Plain (assignment field t params) := by
  refine Text.plain_indent 4 ?_
  simp only [String.append_assoc]
  exact Text.plain_append (by decide) (by decide)

theorem afterRemarks_stores (s : StructDecl) (marks : List (Field × Option String))
    (rest : List String) :
    afterRemarks (((s.stores marks).flatMap Statement.lines).map (indent 4) ++ rest) =
      (s.remarked marks).map some ++ afterRemarks rest := by
  induction marks with
  | nil => rfl
  | cons mark marks ih =>
    obtain ⟨f, key?⟩ := mark
    have plain : ∀ l ∈ [assignment f.name f.type s.parameters], Text.Plain l :=
      List.forall_mem_singleton.mpr (plain_assignment f.name f.type s.parameters)
    cases key? with
    | none =>
      have printed : ((s.stores ((f, none) :: marks)).flatMap Statement.lines).map (indent 4) =
          [assignment f.name f.type s.parameters] ++
            ((s.stores marks).flatMap Statement.lines).map (indent 4) := by
        rw [← lines_store]
        simp [stores, Field.store]
      rw [printed, List.append_assoc, afterRemarks_plain plain, ih]
      rfl
    | some key =>
      have printed : ((s.stores ((f, some key) :: marks)).flatMap Statement.lines).map (indent 4) =
          indent 4 keyWarningText :: ([assignment f.name f.type s.parameters] ++
            ((s.stores marks).flatMap Statement.lines).map (indent 4)) := by
        rw [← lines_store]
        simp [stores, Field.store, Statement.lines]
      rw [printed, List.cons_append, afterRemarks, if_pos remark_indent, List.append_assoc,
        afterRemarks_plain plain, ih]
      rfl

/-- In an encoder a remark stands right before the line of each marked field. -/
theorem afterRemarks_encoder (s : StructDecl) (marks : List (Field × Option String))
    (rest : List String) :
    afterRemarks ((s.encoderOf marks).lines ++ rest) =
      (s.remarked marks).map some ++ afterRemarks rest := by
  let front : List Statement := [.newDictionary, .blank]
  let back : List Statement := [.blank, .giveBack "dict"]
  have opening : ∀ l ∈ indent 2 ((s.encoderOf marks).signature ++ " \x7b") ::
      (front.flatMap Statement.lines).map (indent 4), Text.Plain l :=
    List.forall_mem_cons.mpr ⟨Function.IsCodec.plain_signature (.inr rfl),
      Statement.plain_printed (by simp [front])⟩
  have closing : ∀ l ∈ (back.flatMap Statement.lines).map (indent 4) ++ [indent 2 "\x7d"],
      Text.Plain l :=
    List.forall_mem_append.mpr ⟨Statement.plain_printed (by simp [back]),
      List.forall_mem_singleton.mpr (by decide)⟩
  have printed : (s.encoderOf marks).lines ++ rest =
      (indent 2 ((s.encoderOf marks).signature ++ " \x7b") ::
        (front.flatMap Statement.lines).map (indent 4)) ++
      (((s.stores marks).flatMap Statement.lines).map (indent 4) ++
        ((back.flatMap Statement.lines).map (indent 4) ++ [indent 2 "\x7d"] ++ rest)) := by
    simp [Function.lines, encoderOf, front, back]
  rw [printed, afterRemarks_plain opening, afterRemarks_stores, afterRemarks_plain closing]

end StructDecl

end SwiftCodec
