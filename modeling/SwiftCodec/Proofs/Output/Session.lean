import SwiftCodec.Proofs.Codec.Marks
import SwiftCodec.Proofs.Output.Emission

/-!
A listing as the state of a session of headers and emissions, any of which may fail. An emission
only adds to what is listed; a struct that fails, in whichever of its fields and codecs, leaves the
listing as the enums and the structs in front of it have left it, and the session goes on from
there.
-/
namespace SwiftCodec

namespace StructDecl

/-- A struct fails at a field: the first that a decoder it lacks cannot decode, or else the first
that an encoder it lacks cannot encode. -/
inductive FailsAt (codecs : Codecs) (known : List EnumDecl) (s : StructDecl) (f : Field)
    (d : Defect) : Prop where
  | decoding (lacking : ¬ codecs.hasDecoder s.name)
      (first : IsFirst (fun g => Fails (g.decode s.parameters)) s.fields f)
      (failed : f.decode s.parameters = .error d)
  | encoding (decodes : codecs.hasDecoder s.name ∨ ∀ g ∈ s.fields, ¬ Fails (g.decode s.parameters))
      (lacking : ¬ codecs.hasEncoder s.name)
      (first : IsFirst (fun g => Fails (g.encode s.parameters known)) s.fields f)
      (failed : f.encode s.parameters known = .error d)

variable {codecs : Codecs} {known : List EnumDecl} {s : StructDecl} {d : Defect}

theorem missingDecoder_eq_error :
    s.missingDecoder codecs = .error d ↔
      ¬ codecs.hasDecoder s.name ∧ s.fields.mapM (·.decode s.parameters) = .error d := by
  unfold missingDecoder
  split
  · rename_i there
    simp [there]
  · rename_i lacking
    rw [map_eq_error, decoder, bind_ok_eq_error]
    exact (and_iff_right lacking).symm

theorem fails_missingDecoder :
    Fails (s.missingDecoder codecs) ↔
      ¬ codecs.hasDecoder s.name ∧ ∃ g ∈ s.fields, Fails (g.decode s.parameters) := by
  rw [← fails_mapM]
  exact (exists_congr fun _ => missingDecoder_eq_error).trans exists_and_left

theorem missingEncoder_eq_error :
    s.missingEncoder codecs known = .error d ↔
      ¬ codecs.hasEncoder s.name ∧ s.fields.mapM (·.encode s.parameters known) = .error d := by
  have encoded : s.encoder known = .error d ↔
      s.fields.mapM (·.encode s.parameters known) = .error d := by
    rw [encoder_eq_error, mapM_eq_error, mapM_eq_error]
    simp only [Field.mark, Field.encode_eq, Fails, map_eq_error, bind_ok_eq_error]
  unfold missingEncoder
  split
  · rename_i there
    simp [there]
  · rename_i lacking
    rw [map_eq_error, encoded]
    exact (and_iff_right lacking).symm

theorem block_eq_error :
    s.block codecs known = .error d ↔ ∃ f, s.FailsAt codecs known f d := by
  have parts : s.block codecs known = .error d ↔
      s.missingDecoder codecs = .error d ∨
        ¬ Fails (s.missingDecoder codecs) ∧ s.missingEncoder codecs known = .error d := by
    rw [block, bind_eq_error, fails_iff_not_ok, not_not]
    simp only [bind_ok_eq_error, exists_and_right]
  rw [parts, fails_missingDecoder, missingDecoder_eq_error, missingEncoder_eq_error, mapM_eq_error,
    mapM_eq_error]
  constructor
  · rintro (⟨lacking, f, first, failed⟩ | ⟨decodes, lacking, f, first, failed⟩)
    · exact ⟨f, .decoding lacking first failed⟩
    · refine ⟨f, .encoding ?_ lacking first failed⟩
      by_cases there : codecs.hasDecoder s.name
      · exact .inl there
      · exact .inr fun g member fails => decodes ⟨there, g, member, fails⟩
  · rintro ⟨f, ⟨lacking, first, failed⟩ | ⟨decodes, lacking, first, failed⟩⟩
    · exact .inl ⟨lacking, f, first, failed⟩
    · refine .inr ⟨?_, lacking, f, first, failed⟩
      rintro ⟨absent, g, member, fails⟩
      rcases decodes with there | decodes
      · exact absent there
      · exact decodes g member fails

end StructDecl

namespace Listing

variable {codecs : Codecs} {known : List EnumDecl} {l l' l'' : Listing}

/-- A listing that has grown: nothing of what has been listed is gone. -/
structure Grows (l l' : Listing) : Prop where
  lines : l.lines <+: l'.lines
  warnings : l.warnings <+: l'.warnings
  extensions : l.extensions ≤ l'.extensions

theorem Grows.refl (l : Listing) : l.Grows l := ⟨List.prefix_rfl, List.prefix_rfl, Nat.le_refl _⟩

theorem Grows.trans (first : l.Grows l') (second : l'.Grows l'') : l.Grows l'' where
  lines := first.lines.trans second.lines
  warnings := first.warnings.trans second.warnings
  extensions := Nat.le_trans first.extensions second.extensions

theorem grows_add (l : Listing) (bs : List Block) (ws : List Warning) : l.Grows (l.add bs ws) where
  lines := by
    rw [lines_add]
    exact List.prefix_append _ _
  warnings := List.prefix_append _ _
  extensions := by
    rw [extensions_add]
    exact Nat.le_add_right _ _

theorem emitStruct_eq_ok {s : StructDecl} :
    l.emitStruct codecs known s = .ok l' ↔
      ∃ b ws, s.block codecs known = .ok (b, ws) ∧ l' = l.add [b] ws := by
  rw [emitStruct_eq_add, bind_eq_ok]
  constructor
  · rintro ⟨⟨b, ws⟩, made, h⟩
    cases h
    exact ⟨b, ws, made, rfl⟩
  · rintro ⟨b, ws, made, rfl⟩
    exact ⟨(b, ws), made, rfl⟩

theorem emitStruct_eq_error {s : StructDecl} {d : Defect} :
    l.emitStruct codecs known s = .error d ↔ ∃ f, s.FailsAt codecs known f d := by
  rw [emitStruct_eq_add, ← StructDecl.block_eq_error]
  exact bind_ok_eq_error (g := fun row : Block × List Warning => l.add [row.1] row.2)

theorem grows_emitStructs (structs : List StructDecl) (l : Listing) :
    l.Grows (l.emitStructs codecs known structs).1 := by
  induction structs generalizing l with
  | nil => exact .refl l
  | cons s structs ih =>
    unfold emitStructs
    split
    · rename_i l' emitted
      obtain ⟨b, ws, -, rfl⟩ := emitStruct_eq_ok.mp emitted
      exact (grows_add l [b] ws).trans (ih _)
    · exact .refl l

theorem emitStructs_append (front back : List StructDecl) (l : Listing) :
    l.emitStructs codecs known (front ++ back) =
      match l.emitStructs codecs known front with
      | (l', none) => l'.emitStructs codecs known back
      | failed => failed := by
  induction front generalizing l with
  | nil => rfl
  | cons s front ih =>
    rw [List.cons_append, emitStructs, emitStructs]
    cases l.emitStruct codecs known s with
    | error => rfl
    | ok l' => exact ih l'

/-- Structs fail at the first of them that does, with what is listed in front of it. -/
theorem emitStructs_eq_error {structs : List StructDecl} {d : Defect} :
    l.emitStructs codecs known structs = (l', some d) ↔
      ∃ before s after f, structs = before ++ s :: after ∧
        l.emitStructs codecs known before = (l', none) ∧ s.FailsAt codecs known f d := by
  constructor
  · intro failed
    induction structs generalizing l with
    | nil => cases failed
    | cons s structs ih =>
      unfold emitStructs at failed
      split at failed
      · rename_i l₁ emitted
        obtain ⟨before, s', after, f, rfl, listed, fails⟩ := ih failed
        refine ⟨s :: before, s', after, f, rfl, ?_, fails⟩
        rwa [emitStructs, emitted]
      · rename_i stopped
        cases failed
        obtain ⟨f, fails⟩ := emitStruct_eq_error.mp stopped
        exact ⟨[], s, structs, f, rfl, rfl, fails⟩
  · rintro ⟨before, s, after, f, rfl, listed, fails⟩
    rw [emitStructs_append, listed]
    change l'.emitStructs codecs known (s :: after) = _
    rw [emitStructs, emitStruct_eq_error.mpr ⟨f, fails⟩]

variable {enums : List EnumDecl}

theorem emit_append (front back : List StructDecl) :
    l.emit codecs known enums (front ++ back) =
      match l.emit codecs known enums front with
      | (l', none) => l'.emit codecs known [] back
      | failed => failed := emitStructs_append front back _

theorem grows_emit (structs : List StructDecl) :
    l.Grows (l.emit codecs known enums structs).1 := by
  rw [emit, emitEnums_eq_add]
  exact (grows_add l _ _).trans (grows_emitStructs structs _)

/-- What a generator is asked for. -/
inductive Step where
  | header (filename : String) (time : Time)
  | emit (known enums : List EnumDecl) (structs : List StructDecl)

/-- A step taken, and the defect that has stopped it. -/
def step (codecs : Codecs) (l : Listing) : Step → Listing × Option Defect
  | .header filename time => (l.header filename time, none)
  | .emit known enums structs => l.emit codecs known enums structs

/-- Steps taken one after the other, whether or not they fail. -/
def run (codecs : Codecs) (l : Listing) : List Step → Listing × List (Option Defect)
  | [] => (l, [])
  | s :: steps =>
    let (l', result) := l.step codecs s
    let (final, results) := run codecs l' steps
    (final, result :: results)

end Listing

/-- An emission adds to a listing and takes nothing from it; it is the emission of a part of the
structs and, if that goes well, of the rest; and it fails at a field of a struct exactly if it lists
what is in front of the struct. To the steps that follow, the struct has never been there. -/
theorem emission_is_atomic (codecs : Codecs) (known enums : List EnumDecl) (l : Listing) :
    (∀ structs, l.Grows (l.emit codecs known enums structs).1) ∧
    (∀ front back, l.emit codecs known enums (front ++ back) =
      match l.emit codecs known enums front with
      | (l', none) => l'.emit codecs known [] back
      | failed => failed) ∧
    (∀ structs l' d, l.emit codecs known enums structs = (l', some d) ↔
      ∃ before s after f, structs = before ++ s :: after ∧
        l.emit codecs known enums before = (l', none) ∧ s.FailsAt codecs known f d) ∧
    ∀ before s after f d, (l.emit codecs known enums before).2 = none → s.FailsAt codecs known f d →
      ∀ later, ∃ final results,
        l.run codecs (.emit known enums (before ++ s :: after) :: later) =
          (final, some d :: results) ∧
        l.run codecs (.emit known enums before :: later) = (final, none :: results) := by
  have stops (structs : List StructDecl) (l' : Listing) (d : Defect) :
      l.emit codecs known enums structs = (l', some d) ↔
        ∃ before s after f, structs = before ++ s :: after ∧
          l.emit codecs known enums before = (l', none) ∧ s.FailsAt codecs known f d :=
    Listing.emitStructs_eq_error
  refine ⟨fun _ => Listing.grows_emit _, Listing.emit_append, stops, ?_⟩
  intro before s after f d listed fails later
  obtain ⟨l', emitted⟩ : ∃ l', l.emit codecs known enums before = (l', none) :=
    ⟨_, Prod.ext rfl listed⟩
  have failed := (stops _ l' d).mpr ⟨before, s, after, f, rfl, emitted, fails⟩
  refine ⟨(l'.run codecs later).1, (l'.run codecs later).2, ?_, ?_⟩
  · simp only [Listing.run, Listing.step, failed]
  · simp only [Listing.run, Listing.step, emitted]

/-- A struct that is stopped by its second field when there is a warning for the first. -/
def tables : StructDecl where
  name := "Tables"
  parameters := []
  fields := [⟨"levels", .dictionary (.named "Level") (.named "Int")⟩,
    ⟨"others", .dictionary (.named "Other") (.named "Int")⟩]

theorem emission_is_atomic_tables :
    ∃ final results,
      ({} : Listing).run {}
          [.emit [⟨"Level", "Int"⟩] [⟨"Level", "Int"⟩] [{ name := "Point" }, tables],
            .header "Again.swift" default, .emit [] [] [{ name := "Point" }]] =
        (final, some (.unsupportedKey "others" "Other") :: results) ∧
      ({} : Listing).run {}
          [.emit [⟨"Level", "Int"⟩] [⟨"Level", "Int"⟩] [{ name := "Point" }],
            .header "Again.swift" default, .emit [] [] [{ name := "Point" }]] =
        (final, none :: results) := by
  have fails : tables.FailsAt {} [⟨"Level", "Int"⟩]
      ⟨"others", .dictionary (.named "Other") (.named "Int")⟩
      (.unsupportedKey "others" "Other") := by
    refine .encoding (.inr ?_) (by decide) ⟨[_], [], rfl, ⟨_, rfl⟩, ?_⟩ rfl
    · rintro g member ⟨d, failed⟩
      rcases List.mem_pair.mp member with rfl | rfl <;> cases failed
    · rintro g member ⟨d, failed⟩
      cases List.mem_singleton.mp member
      cases failed
  exact (emission_is_atomic {} [⟨"Level", "Int"⟩] [⟨"Level", "Int"⟩] {}).2.2.2
    [{ name := "Point" }] tables [] _ _ rfl fails _

end SwiftCodec
