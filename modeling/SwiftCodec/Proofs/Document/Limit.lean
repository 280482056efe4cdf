import SwiftCodec.Proofs.Document.Agreement
import SwiftCodec.Proofs.Document.RoundTrip

/-!
Files as texts and back. The text written of a file is read as the file as long as the reader's
limit on open containers is not met, and is not read at all when it is: every part of a written
file is looked at, so that no part can be too deep and escape notice.
-/
namespace SwiftCodec

namespace Document

theorem scanning_eq_ok {α : Type} {r : Except Fault α} {a : α} :
    scanning r = .ok a ↔ r = .ok a := mapError_eq_ok

theorem textUnder_eq_ok {α : Type} {step : PathStep} {r : Except TextFailure α} {a : α} :
    textUnder step r = .ok a ↔ r = .ok a := mapError_eq_ok

theorem Agree.place {α : Type} {d e : Cursor} {t : Except TextFailure (α × Cursor)}
    {r : Reading α} {a : α} (agree : Agree d t r) (read : t = .ok (a, e)) : e = d := by
  cases agree with
  | both _ =>
    cases read
    rfl
  | neither _ _ => cases read

variable {c d e : Cursor} {limit depth : Nat}

/-- A declaration whose members are read has none that is too deep, apart from its kind. -/
theorem textMembers_shallow {members : List (String × Json)} {first : Bool} {seen : Option Kind}
    {n : Nat} {found : Kind × List (String × Json)}
    (inside : Json.Members limit first c members d)
    (read : textMembers depth seen first n c = .ok (found, e)) :
    e = d ∧ ∀ m ∈ members, m.1 ≠ "kind" → m.2.depth ≤ depth - 1 := by
  induction members generalizing c first seen n found with
  | nil =>
    cases inside with
    | done closes =>
      obtain _ | n := n
      · cases read
      rw [textMembers, closes] at read
      cases seen with
      | none => cases read
      | some kind =>
        cases read
        exact ⟨rfl, by simp⟩
  | cons m rest ih =>
    cases inside with
    | @more _ _ _ _ b f _ key j _ steps colon head tail =>
      obtain _ | n := n
      · cases read
      by_cases isKind : key = "kind"
      · subst isKind
        cases seen with
        | some kind =>
          rw [textMembers_kind_again steps] at read
          cases read
        | none =>
          rw [textMembers_kind steps colon] at read
          obtain ⟨⟨kind, f'⟩, kindRead, read⟩ := bind_eq_ok.mp read
          obtain rfl := (textKind_agree head).place (textUnder_eq_ok.mp kindRead)
          obtain ⟨place, shallow⟩ := ih tail read
          exact ⟨place, List.forall_mem_cons.mpr ⟨fun other => absurd rfl other, shallow⟩⟩
      · rw [textMembers_other isKind steps colon] at read
        obtain ⟨r, value, read⟩ := bind_eq_ok.mp read
        obtain ⟨⟨found', e'⟩, others, read⟩ := bind_eq_ok.mp read
        -- Reading has succeeded at this limit, so the value that stands here fits.
        obtain ⟨rfl, fits⟩ := head.read_only (scanning_eq_ok.mp (textUnder_eq_ok.mp value))
        cases read
        obtain ⟨place, shallow⟩ := ih tail others
        exact ⟨place, List.forall_mem_cons.mpr ⟨fun _ => fits, shallow⟩⟩

theorem depth_declaration (a : Declaration) :
    a.toJson.depth = Json.depthMembers a.members + 1 := by
  change max 0 (Json.depthMembers a.members) + 1 = _
  rw [Nat.zero_max]

theorem textDeclaration_shallow {a : Declaration} {settled : Reading Declaration}
    (room : 2 ≤ depth) (stands : Json.Stands limit c a.toJson d)
    (read : textDeclaration depth c = .ok (settled, e)) :
    e = d ∧ a.toJson.depth ≤ depth - 1 := by
  cases stands with
  | word word => cases word
  | object head inside =>
    rw [textDeclaration_brace head] at read
    obtain ⟨⟨found, e'⟩, members, read⟩ := bind_eq_ok.mp read
    obtain ⟨place, shallow⟩ := textMembers_shallow inside members
    cases read
    refine ⟨place, ?_⟩
    have fits : Json.depthMembers a.members ≤ depth - 1 - 1 :=
      Json.depthMembers_le.mpr fun m member =>
        shallow m (List.mem_cons_of_mem _ member) (a.kind_absent m member)
    rw [depth_declaration]
    omega

theorem textDeclarationItems_shallow {as found : List Declaration} {first : Bool} {index n : Nat}
    (room : 2 ≤ depth) (inside : Json.Items limit first c (as.map Declaration.toJson) d)
    (start : (index == 0) = first) (read : textDeclarationItems depth index n c = .ok (found, e)) :
    e = d ∧ Json.depthItems (as.map Declaration.toJson) ≤ depth - 1 := by
  induction as generalizing c first index n found with
  | nil =>
    cases inside with
    | done closes =>
      obtain _ | n := n
      · cases read
      rw [textDeclarationItems, start, closes] at read
      cases read
      exact ⟨rfl, Nat.zero_le _⟩
  | cons a as ih =>
    rw [List.map_cons] at inside
    cases inside with
    | @more _ _ _ b _ _ _ _ steps head tail =>
      obtain _ | n := n
      · cases read
      rw [textDeclarationItems, start, steps] at read
      change (textUnder (.index index) (textDeclaration depth b) >>= _) = _ at read
      obtain ⟨⟨settled, f⟩, declaration, read⟩ := bind_eq_ok.mp read
      obtain ⟨rfl, fits⟩ := textDeclaration_shallow room head (textUnder_eq_ok.mp declaration)
      cases settled with
      | error failure => cases read
      | ok b =>
        obtain ⟨⟨others, f⟩, rest, read⟩ := bind_eq_ok.mp read
        cases read
        obtain ⟨place, shallow⟩ := ih tail rfl rest
        exact ⟨place, Nat.max_le.mpr ⟨fits, shallow⟩⟩

theorem textDeclarations_shallow {as found : List Declaration}
    (stands : Json.Stands limit c (.array (as.map Declaration.toJson)) d)
    (read : textDeclarations c = .ok (found, e)) :
    e = d ∧ Json.depthItems (as.map Declaration.toJson) ≤ nestingLimit - 3 := by
  have begins : begun c = .ok c.skipBlanks := begun_of_stands stands
  cases stands with
  | word word => cases word
  | array head inside =>
    rw [textDeclarations, begins] at read
    simp only [bind, Except.bind, head] at read
    exact textDeclarationItems_shallow (by decide) inside rfl read

theorem depth_source (f : SourceFile) :
    f.toJson.depth = Json.depthItems (f.declarations.map Declaration.toJson) + 2 := by
  change max 0 (max (Json.depthItems (f.declarations.map Declaration.toJson) + 1) 0) + 1 = _
  omega

/-- A file that is read from its own text nests no deeper than the limit. -/
theorem textSource_shallow {f found : SourceFile} (stands : Json.Stands limit c f.toJson d)
    (read : textSource c = .ok (found, e)) : f.toJson.depth < nestingLimit := by
  have begins : begun c = .ok c.skipBlanks := begun_of_stands stands
  cases stands with
  | word word => cases word
  | object head inside =>
    rw [textSource, begins] at read
    simp only [bind, Except.bind, head] at read
    obtain ⟨n, enough⟩ : ∃ n, c.skipBlanks.fuel = n + 2 := ⟨_, rfl⟩
    rw [enough] at read
    cases inside with
    | more steps colon name rest =>
      rw [textSourceMembers_filename rfl steps colon] at read
      obtain ⟨⟨s, e'⟩, filename, read⟩ := bind_eq_ok.mp read
      obtain rfl := (textString_agree name .string).place (textUnder_eq_ok.mp filename)
      cases rest with
      | more steps colon list rest =>
        dsimp only at read
        rw [textSourceMembers_declarations rfl steps colon] at read
        obtain ⟨⟨ds, e'⟩, declarations, read⟩ := bind_eq_ok.mp read
        obtain ⟨-, shallow⟩ := textDeclarations_shallow list (textUnder_eq_ok.mp declarations)
        have level : nestingLimit = 128 := rfl
        rw [depth_source]
        omega

end Document

namespace SourceFile

theorem stands_toText (f : SourceFile) {limit : Nat} (room : f.toJson.depth < limit) :
    ∃ d, Json.Stands limit (.ofString f.toText) f.toJson d := by
  obtain ⟨q, stands⟩ := Json.stands_compact f.toJson f.plain_toJson.textual limit room [] .start
  rw [List.append_nil] at stands
  exact ⟨_, stands⟩

/-- However the value of a file is laid out in a text, the file is read. -/
theorem ofText_of_written {f : SourceFile} {text : String} {d : Cursor}
    (stands : Json.Stands nestingLimit (.ofString text) f.toJson d) :
    SourceFile.ofText text = .ok f := by
  have same := ofText_of_stands stands f.plain_toJson.distinct
  rw [f.ofJson_toJson] at same
  cases read : SourceFile.ofText text with
  | error failure =>
    rw [read] at same
    cases same
  | ok found =>
    rw [read] at same
    cases same
    rfl

theorem ofText_toText {f : SourceFile} (room : f.toJson.depth < nestingLimit) :
    SourceFile.ofText f.toText = .ok f := by
  obtain ⟨d, stands⟩ := f.stands_toText room
  exact ofText_of_written stands

/-- A written file that is too deep is not read as anything. -/
theorem depth_of_ofText {f found : SourceFile} (read : SourceFile.ofText f.toText = .ok found) :
    f.toJson.depth < nestingLimit := by
  obtain ⟨⟨found', e⟩, source, -⟩ := map_eq_ok.mp read
  -- The text says what was written at some limit, if not at that of the reader.
  obtain ⟨d, stands⟩ := f.stands_toText (Nat.lt_succ_self _)
  exact Document.textSource_shallow stands source

end SourceFile

/-- Reading undoes writing: for values always, for texts in any layout when they are JSON, and for
the compact text exactly when it opens fewer containers at once than the limit of the reader. -/
theorem reading_undoes_writing (f : SourceFile) :
    SourceFile.ofJson f.toJson = .ok f ∧
      (∀ text, Json.parse text = .ok f.toJson → SourceFile.ofText text = .ok f) ∧
      (SourceFile.ofText f.toText = .ok f ↔ f.toJson.depth < 128) := by
  refine ⟨f.ofJson_toJson, fun text parsed => ?_, SourceFile.depth_of_ofText,
    SourceFile.ofText_toText⟩
  obtain ⟨d, stands⟩ := Json.stands_of_parse parsed
  exact SourceFile.ofText_of_written stands

/-- A name with a quote in it, and blanks between the words. -/
def spacedFile : SourceFile := ⟨"A\"1", [.typeAlias ⟨"Id", .named "Int"⟩]⟩

def spacedText : String :=
  "\x7b \"filename\": \"A\\u00221\", \"declarations\": [\x7b\"kind\":\"typealias\",\"name\":\"Id\",
    \"type\":\x7b\"baseName\":\"Int\"\x7d\x7d]\x7d"

set_option maxRecDepth 1024 in
theorem reading_undoes_writing_spaced :
    Json.parse spacedText = .ok spacedFile.toJson ∧ SourceFile.ofText spacedText = .ok spacedFile ∧
      spacedFile.toJson.depth < 128 ∧ SourceFile.ofText spacedFile.toText = .ok spacedFile := by
  have parsed : Json.parse spacedText = .ok spacedFile.toJson := by rfl
  have room : spacedFile.toJson.depth < 128 := by decide
  obtain ⟨-, anyLayout, compact⟩ := reading_undoes_writing spacedFile
  exact ⟨parsed, anyLayout _ parsed, room, compact.mpr room⟩

/-- A name behind a number of array brackets. -/
def arrayTower : Nat → TypeExpr
  | 0 => .named "Int"
  | n + 1 => .array (arrayTower n)

theorem depth_arrayTower (n : Nat) : (arrayTower n).toJson.depth = 2 * n + 1 := by
  induction n with
  | zero => rfl
  | succ n ih =>
    change max 0 (max (max (arrayTower n).toJson.depth 0 + 1) 0) + 1 = _
    omega

/-- A file that opens as many containers as the limit says. -/
def towerFile : SourceFile := ⟨"Tower.swift", [.typeAlias ⟨"Tower", arrayTower 62⟩]⟩

theorem tower_not_read : towerFile.toJson.depth ≤ 128 ∧
    SourceFile.ofText towerFile.toText ≠ .ok towerFile := by
  have depth : towerFile.toJson.depth = 128 := by
    rw [Document.depth_source]
    change max (max 0 (max 0 (max (arrayTower 62).toJson.depth 0)) + 1) 0 + 2 = 128
    rw [depth_arrayTower]
    rfl
  refine ⟨Nat.le_of_eq depth, fun read => ?_⟩
  have shallow := SourceFile.depth_of_ofText read
  rw [depth] at shallow
  exact Nat.lt_irrefl _ shallow

end SwiftCodec
