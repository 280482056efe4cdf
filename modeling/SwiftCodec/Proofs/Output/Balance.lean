import SwiftCodec.Proofs.Codec.Texts
import SwiftCodec.Proofs.Output.Containment
import SwiftCodec.Proofs.Output.Reduction
import SwiftCodec.Proofs.Output.Session
import SwiftCodec.Proofs.Text.Depth

/-!
Generated lines as blocks, one behind the other. There are as many of them as lines that open one,
whatever has been asked for. If all names are names, counting braces finds them: a line that begins
outside of all braces is blank or opens a block, and a block ends at the line that has a closing
brace alone.
-/
namespace SwiftCodec

/-! ## Counting blocks -/

def opensBlock (line : String) : Bool := "extension ".toList.isPrefixOf line.toList

theorem not_opensBlock_indent {width : Nat} (deep : 0 < width) (line : String) :
    opensBlock (indent width line) = false := by
  obtain ⟨n, rfl⟩ := Nat.exists_eq_add_of_lt deep
  unfold indent
  split
  · decide
  · simp [opensBlock, List.replicate_succ, List.isPrefixOf]

theorem Function.not_opensBlock {f : Function} : ∀ line ∈ f.lines, ¬ opensBlock line := by
  intro line member
  have indented : ∃ width inner, 0 < width ∧ line = indent width inner := by
    simp only [lines, List.mem_append, List.mem_cons, List.mem_map, List.not_mem_nil,
      or_false] at member
    rcases member with (rfl | ⟨inner, -, rfl⟩) | rfl
    · exact ⟨2, _, by decide, rfl⟩
    · exact ⟨4, inner, by decide, rfl⟩
    · exact ⟨2, _, by decide, rfl⟩
  obtain ⟨width, inner, deep, rfl⟩ := indented
  simp [not_opensBlock_indent deep]

/-- The first line of a block is the only one that opens one. -/
theorem Block.countP_opensBlock (b : Block) : b.lines.countP opensBlock = 1 := by
  have codec {f : Function} : f.lines.countP opensBlock = 0 :=
    List.countP_eq_zero.mpr f.not_opensBlock
  have first : opensBlock ("extension " ++ b.typeName ++ " \x7b") := by
    simp [opensBlock, List.isPrefixOf]
  have blank : opensBlock "" = false := by decide
  have last : opensBlock "\x7d" = false := by decide
  unfold lines
  cases b.decoder <;> cases b.encoder <;>
    simp [List.countP_append, codec, first, blank, last]

theorem Section.countP_opensBlock (s : Section) :
    s.lines.countP opensBlock = if s.isBlock then 1 else 0 := by
  cases s with
  | header filename time =>
    simp [lines, headerLines, isBlock, opensBlock, List.isPrefixOf]
  | block b => exact b.countP_opensBlock

theorem Listing.extensions_eq_countP (l : Listing) :
    l.extensions = l.lines.countP opensBlock := by
  unfold extensions lines
  induction l.sections with
  | nil => rfl
  | cons s sections ih =>
    rw [List.flatMap_cons, List.countP_append, ← ih, Section.countP_opensBlock, List.countP_cons]
    exact Nat.add_comm _ _

/-! ## Counting braces -/

/-- How many braces are open behind lines. -/
def depth (lines : List String) : Int := braces (lines.flatMap String.toList)

theorem depth_cons (line : String) (lines : List String) :
    depth (line :: lines) = braces line.toList + depth lines := by
  rw [depth, List.flatMap_cons, braces_append, depth]

/-- What a line may be that begins inside of so many braces. -/
structure StandsAt (d : Int) (line : String) : Prop where
  nonneg : ∀ cs, cs <+: line.toList → 0 ≤ d + braces cs
  outside : d = 0 →
    line = "" ∨ ∃ name, Name.isDotted name ∧ line = "extension " ++ name ++ " \x7b"
  closing : line = "\x7d" ↔ d = 1 ∧ d + braces line.toList = 0

/-- Wherever lines are split, the next line is one that may be there, and at the end no brace is
open. -/
def Delimited (lines : List String) : Prop :=
  depth lines = 0 ∧ ∀ front line back, lines = front ++ line :: back → StandsAt (depth front) line

/-- Lines that lead from one depth to another. -/
inductive Leads : Int → List String → Int → Prop where
  | nil {d : Int} : Leads d [] d
  | cons {d d' : Int} {line : String} {lines : List String} (stands : StandsAt d line)
      (rest : Leads (d + braces line.toList) lines d') : Leads d (line :: lines) d'

namespace Leads

variable {d d' d'' low last : Int} {line : String} {lines lines' : List String}

theorem append (first : Leads d lines d') (second : Leads d' lines' d'') :
    Leads d (lines ++ lines') d'' := by
  induction first with
  | nil => exact second
  | cons stands _ ih => exact .cons stands (ih second)

theorem flatten {parts : List (List String)} (each : ∀ part ∈ parts, Leads d part d) :
    Leads d parts.flatten d := by
  induction parts with
  | nil => exact .nil
  | cons part parts ih =>
    obtain ⟨first, later⟩ := List.forall_mem_cons.mp each
    exact first.append (ih later)

theorem depth_eq (h : Leads d lines d') : d' = d + depth lines := by
  induction h with
  | nil => simp [depth, braces]
  | cons _ _ ih =>
    rw [ih, depth_cons]
    omega

theorem standsAt {front back : List String} (h : Leads d (front ++ line :: back) d') :
    StandsAt (d + depth front) line := by
  induction front generalizing d with
  | nil =>
    cases h with
    | cons stands _ => simpa [depth, braces] using stands
  | cons first front ih =>
    cases h with
    | cons _ rest =>
      have later := ih rest
      rwa [Int.add_assoc, ← depth_cons] at later

theorem delimited (h : Leads 0 lines 0) : Delimited lines := by
  constructor
  · have whole := h.depth_eq
    omega
  · rintro front line back rfl
    have here := h.standsAt
    rwa [Int.zero_add] at here

/-- A line inside of a block that does not end it. -/
theorem inside (deep : 1 ≤ d) (spans : Spans line low last) (room : 1 ≤ d + low)
    (other : line ≠ "\x7d") (rest : Leads (d + last) lines d') : Leads d (line :: lines) d' := by
  refine .cons ⟨?_, ?_, ?_⟩ (spans.last ▸ rest)
  · intro cs front
    have above := spans.low cs front
    omega
  · omega
  · have above := spans.low_le_last
    rw [spans.last]
    constructor
    · exact fun same => absurd same other
    · omega

theorem ne_brace (spans : Spans line 0 last) : line ≠ "\x7d" := by
  -- A closing brace alone falls below where it begins.
  rintro rfl
  have closing : braces "\x7d".toList = -1 := by decide
  have above := spans.low _ List.prefix_rfl
  omega

theorem level (deep : 1 ≤ d) (h : Level line) (rest : Leads d lines d') :
    Leads d (line :: lines) d' :=
  inside deep h (by omega) (ne_brace h) (by rwa [Int.add_zero])

theorem opens (deep : 1 ≤ d) (h : Spans line 0 1) (rest : Leads (d + 1) lines d') :
    Leads d (line :: lines) d' :=
  inside deep h (by omega) (ne_brace h) rest

theorem closes (deep : 1 ≤ d) (h : Spans line (-1) (-1)) (other : line ≠ "\x7d")
    (rest : Leads d lines d') : Leads (d + 1) (line :: lines) d' :=
  inside (by omega) h (by omega) other (by rwa [Int.add_neg_cancel_right])

end Leads

/-! ## Texts -/

theorem composable_level : Composable Level where
  plain given := .level (given.mono fun _ h => ⟨h.1, h.2.1⟩)
  append := .after
  closure := .closure

theorem level_of_isDotted {name : String} (dotted : Name.isDotted name) : Level name := by
  refine .level fun c member => ?_
  have sign := Name.isNameChar_of_isDotted dotted c member
  constructor <;> rintro rfl <;> exact absurd sign (by decide)

theorem DecodeFailure.level_text {failure : DecodeFailure}
    (level : ∀ t ∈ failure.texts, Level t) : Level failure.text := by
  match failure with
  | .missingField field =>
    have name : Level field := level field (by simp [texts])
    exact composable_level.between (by decide) name (by decide)
  | .typeMismatch none expected =>
    have type : Level expected := level expected (by simp [texts])
    exact .after (by decide) type
  | .typeMismatch (some field) expected =>
    have name : Level field := level field (by simp [texts])
    have type : Level expected := level expected (by simp [texts])
    exact .after (composable_level.between (by decide) name (by decide)) type

theorem Binding.level_text {b : Binding} (level : ∀ t ∈ b.texts, Level t) : Level b.text := by
  obtain ⟨name, type?, source⟩ := b
  have bound : Level name := level name (by simp [texts])
  have given : Level source.given := level source.given (by simp [texts])
  have value : Level source.text := by
    cases source with
    | entry key => exact .before (.after (by decide) given) (by decide)
    | expression text => exact given
  cases type? with
  | none => exact .after (.before bound (by decide)) value
  | some type =>
    have typed : Level type := level type (by simp [texts])
    exact .after (.before (.after (.before bound (by decide)) typed) (by decide)) value

/-! ## Lines -/

theorem Statement.leads_lines {s : Statement} (level : ∀ t ∈ s.texts, Level t) {d : Int}
    (deep : 1 ≤ d) : Leads d (s.lines.map (indent 4)) d := by
  have single {line : String} (h : Level line) : Leads d [indent 4 line] d :=
    .level deep (h.indent 4) .nil
  have deeper : 1 ≤ d + 1 := by omega
  have closing : Leads (d + 1) [indent 4 "\x7d"] d :=
    .closes deep (.indent (by decide) 4) (by decide) .nil
  cases s with
  | blank | newDictionary | keyWarning => exact single (by decide)
  | bind b => exact single (.after (by decide) (Binding.level_text level))
  | guardBind b failure =>
    have bound : Level b.text :=
      Binding.level_text fun t member => level t (List.mem_append_left _ member)
    have message : Level failure.text :=
      DecodeFailure.level_text fun t member => level t (List.mem_append_right _ member)
    have opening : Spans ("guard let " ++ b.text ++ " else \x7b") 0 1 :=
      .after (.after (by decide) bound) (by decide)
    have report : Level ("  assertionFailure(\"" ++ failure.text ++ "\")") :=
      .before (.after (by decide) message) (by decide)
    exact .opens deep (opening.indent 4) (.level deeper (report.indent 4)
      (.level deeper (.indent (by decide) 4) closing))
  | ifBind b value =>
    have result : Level value := level value List.mem_cons_self
    have bound : Level b.text :=
      Binding.level_text fun t member => level t (List.mem_cons_of_mem _ member)
    have opening : Spans ("if let " ++ b.text ++ " \x7b") 0 1 :=
      .after (.after (by decide) bound) (by decide)
    have back : Level ("  return " ++ value) := .after (by decide) result
    exact .opens deep (opening.indent 4) (.level deeper (back.indent 4) closing)
  | construct type labels =>
    obtain ⟨name, named⟩ := List.forall_mem_cons.mp level
    have arguments : Level (String.intercalate ", " (labels.map fun l => l ++ ": " ++ l)) := by
      refine composable_level.intercalate (by decide) fun text member => ?_
      obtain ⟨l, label, rfl⟩ := List.mem_map.mp member
      exact .after (.before (named l label) (by decide)) (named l label)
    exact single (.before (.after (.before (.after (by decide) name) (by decide)) arguments)
      (by decide))
  | giveBack value => exact single (.after (by decide) (level value List.mem_cons_self))
  | store key value =>
    have entry : Level (Source.entry key).text :=
      .before (.after (by decide) (level key List.mem_cons_self)) (by decide)
    have stored : Level value := level value (by simp [texts])
    exact single (.after (.before entry (by decide)) stored)

/-- A function begins and ends inside of one brace. -/
theorem Function.leads_lines {f : Function} (signature : Level f.signature)
    (level : ∀ s ∈ f.body, ∀ t ∈ s.texts, Level t) : Leads 1 f.lines 1 := by
  have opening : Spans (f.signature ++ " \x7b") 0 1 := .after signature (by decide)
  have body : Leads 2 ((f.body.flatMap Statement.lines).map (indent 4)) 2 := by
    rw [List.map_flatMap]
    refine .flatten fun part member => ?_
    obtain ⟨s, present, rfl⟩ := List.mem_map.mp member
    exact Statement.leads_lines (level s present) (by decide)
  have closing : Leads 2 [indent 2 "\x7d"] 1 :=
    .closes (d := 1) (by decide) (.indent (by decide) 2) (by decide) .nil
  exact .opens (by decide) (opening.indent 2) (body.append closing)

/-- The lines around the codecs of a type lead inside of one brace and out again. -/
theorem Leads.extension {name : String} {codecs : List String} (named : Name.isDotted name)
    (inner : Leads 1 codecs 1) :
    Leads 0 (["extension " ++ name ++ " \x7b"] ++ codecs ++ ["\x7d", ""]) 0 := by
  have opening : Spans ("extension " ++ name ++ " \x7b") 0 1 :=
    .after (.after (by decide) (level_of_isDotted named)) (by decide)
  have first : StandsAt 0 ("extension " ++ name ++ " \x7b") := by
    refine ⟨?_, fun _ => .inr ⟨name, named, rfl⟩, ?_⟩
    · intro cs front
      rw [Int.zero_add]
      exact opening.low cs front
    · constructor
      · exact fun same => absurd same (ne_brace opening)
      · rintro ⟨outside, -⟩
        cases outside
  have last : StandsAt 1 "\x7d" := by
    have spans : Spans "\x7d" (-1) (-1) := by decide
    refine ⟨fun cs front => ?_, by omega, by decide⟩
    have above := spans.low cs front
    omega
  have blank : StandsAt 0 "" := ⟨by simp [braces], fun _ => .inl rfl, by decide⟩
  refine .cons first ?_
  rw [opening.last]
  exact inner.append (.cons last (.cons blank .nil))

theorem Block.leads_lines {b : Block} (named : Name.isDotted b.typeName)
    (decoding : ∀ f ∈ b.decoder, Leads 1 f.lines 1)
    (encoding : ∀ f ∈ b.encoder, Leads 1 f.lines 1) : Leads 0 b.lines 0 := by
  have between : Leads 1 [""] 1 := .level (by decide) (by decide) .nil
  unfold lines
  cases hd : b.decoder with
  | none =>
    cases he : b.encoder with
    | none => exact .extension named .nil
    | some e => exact .extension named (encoding e he)
  | some d =>
    cases he : b.encoder with
    | none => exact .extension named (decoding d hd)
    | some e => exact .extension named (((decoding d hd).append between).append (encoding e he))

/-! ## Blocks -/

theorem EnumDecl.leads_block {e : EnumDecl} (named : Name.isDotted e.name)
    (raw : Name.isDotted e.rawType) (codecs : Codecs) : Leads 0 (e.block codecs).lines 0 := by
  have name := level_of_isDotted named
  have type := level_of_isDotted raw
  apply Block.leads_lines named
  · intro f there
    obtain ⟨signature, body⟩ := composable_level.enumDecoder name type
    exact EnumDecl.made_of_block.1 f there ▸ Function.leads_lines signature body
  · intro f there
    obtain ⟨signature, body⟩ := composable_level.enumEncoder type
    exact EnumDecl.made_of_block.2 f there ▸ Function.leads_lines signature body

theorem StructDecl.leads_block {codecs : Codecs} {known : List EnumDecl} {s : StructDecl}
    {b : Block} {ws : List Warning} (covered : s.Over (Name.isDotted ·))
    (emitted : s.block codecs known = .ok (b, ws)) : Leads 0 b.lines 0 := by
  have level : s.Over Level := covered.mono fun _ => level_of_isDotted
  obtain ⟨decoded, encoded⟩ := StructDecl.made_of_block emitted
  apply Block.leads_lines
  · rw [(StructDecl.block_eq_ok.mp emitted).1]
    exact covered.name
  · intro f there
    obtain ⟨signature, body⟩ := composable_level.decoder level (decoded f there)
    exact Function.leads_lines signature body
  · intro f there
    obtain ⟨signature, body⟩ := composable_level.encoder level (encoded f there)
    exact Function.leads_lines signature body

variable {files : List SourceFile} {file : SourceFile}

/-- Types that no alias has been recorded for have nothing but checked names. -/
theorem dotted_of_occurs (valid : ∀ f ∈ files, f.validate = .ok ())
    (fields : ∀ s ∈ file.flatten.structs, ∀ x ∈ s.fields, x.type.Written)
    (targets : ∀ f ∈ files, ∀ a ∈ f.flatten.aliases, a.target.Written) (member : file ∈ files)
    {n : String} (occurs : Occurs files file n) : Name.isDotted n := by
  rcases occurs with named | recorded
  · exact dotted_of_named valid member named
  · cases recorded with
    | used declared field node recorded =>
      cases recorded.symm.trans (fields _ declared _ field _ node)
    | target other declared node recorded =>
      cases recorded.symm.trans (targets _ other _ declared _ node)

theorem SourceFile.sections_of_generate {r : Registry} {time : Time} {g : GeneratedFile}
    (generated : file.generate r time = .ok g) :
    ∃ blocks : List Block, g.listing.sections = .header g.filename time :: blocks.map .block := by
  obtain ⟨-, structs, known, rows, -, -, -, rfl⟩ := generate_eq_ok.mp generated
  exact ⟨_, rfl⟩

theorem leads_generated {time : Time} {g : GeneratedFile}
    (dotted : ∀ n, Occurs files file n → Name.isDotted n)
    (generated : file.generate (Registry.scan files) time = .ok g) :
    ∃ lines, g.listing.lines = Section.headerLines g.filename time ++ lines ∧
      Leads 0 lines 0 := by
  obtain ⟨blocks, sections⟩ := SourceFile.sections_of_generate generated
  refine ⟨blocks.flatMap Block.lines, ?_, .flatten fun part present => ?_⟩
  · rw [Listing.lines, sections, List.flatMap_cons, List.flatMap_map]
    rfl
  · obtain ⟨b, listed, rfl⟩ := List.mem_map.mp present
    have member : .block b ∈ g.listing.sections :=
      sections ▸ List.mem_cons_of_mem _ (List.mem_map_of_mem listed)
    rcases SourceFile.block_cases generated member with
      ⟨e, declared, rfl⟩ | ⟨s, declared, s', known, ws, resolves, emitted⟩
    · apply EnumDecl.leads_block
      · exact dotted _ (.inl (.type (List.mem_append_right _ (List.mem_map_of_mem declared))))
      · exact dotted _ (.inl (.raw declared rfl))
    · have covered : s'.Over (Occurs files file) :=
        resolves.over_resolved over_targets (over_struct declared)
      exact StructDecl.leads_block (covered.mono dotted) emitted

/-- Headers and emissions, failing or not, list as many blocks as lines that open one. What is
generated of files whose types are as they have been written is delimited behind its header of nine
lines. -/
theorem output_is_delimited :
    (∀ codecs steps, (({} : Listing).run codecs steps).1.extensions =
      (({} : Listing).run codecs steps).1.lines.countP opensBlock) ∧
    ∀ (files : List SourceFile) (file : SourceFile) (time : Time) (g : GeneratedFile),
      (∀ f ∈ files, f.validate = .ok ()) →
      (∀ f ∈ files, ∀ s ∈ f.flatten.structs, ∀ x ∈ s.fields, x.type.Written) →
      (∀ f ∈ files, ∀ a ∈ f.flatten.aliases, a.target.Written) → file ∈ files →
      file.generate (Registry.scan files) time = .ok g →
      g.listing.lines.take 9 = Section.headerLines g.filename time ∧
        Delimited (g.listing.lines.drop 9) := by
  refine ⟨fun codecs steps => Listing.extensions_eq_countP _, ?_⟩
  intro files file time g valid fields targets member generated
  have dotted (n : String) (occurs : Occurs files file n) : Name.isDotted n :=
    dotted_of_occurs valid (fields file member) targets member occurs
  obtain ⟨lines, behind, leads⟩ := leads_generated dotted generated
  have header : (Section.headerLines g.filename time).length = 9 := rfl
  rw [behind, ← header, List.take_left, List.drop_left]
  exact ⟨rfl, leads.delimited⟩

theorem output_is_delimited_shapes :
    ∃ g, shapes.generate (Registry.scan [shapes, support]) ⟨0, 0⟩ = .ok g ∧
      Delimited (g.listing.lines.drop 9) := by
  obtain ⟨g, generated, -⟩ := shapes_generate ⟨0, 0⟩
  have delimited := output_is_delimited.2 [shapes, support] shapes ⟨0, 0⟩ g (by decide) (by decide)
    (by decide) List.mem_cons_self generated
  exact ⟨g, generated, delimited.2⟩

end SwiftCodec
