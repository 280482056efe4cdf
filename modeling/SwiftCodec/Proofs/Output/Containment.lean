import SwiftCodec.Proofs.Name.Dotted
import SwiftCodec.Proofs.Output.Emission
import SwiftCodec.Proofs.Output.Failures
import SwiftCodec.Proofs.Output.Weaving

/-!
What declarations can put into generated lines. Behind the header every line is woven from fixed
pieces and names that the files declare or use, which validation has checked, or that they record
for an alias, which it has not. If those are names too, no line can be broken.
-/
namespace SwiftCodec

/-! ## Where names come from -/

/-- The names that validation looks at: those in the file, and those in the targets of aliases. -/
inductive Named (files : List SourceFile) (file : SourceFile) (n : String) : Prop where
  | type (declared : n ∈ file.flatten.typeNames)
  | parameter {s : StructDecl} (declared : s ∈ file.flatten.structs) (parameter : n ∈ s.parameters)
  | field {s : StructDecl} {f : Field} (declared : s ∈ file.flatten.structs) (field : f ∈ s.fields)
      (named : f.name = n)
  | raw {e : EnumDecl} (declared : e ∈ file.flatten.enums) (raw : e.rawType = n)
  | used {s : StructDecl} {f : Field} {t : TypeExpr} (declared : s ∈ file.flatten.structs)
      (field : f ∈ s.fields) (node : t ∈ f.type.nodes) (named : t.base = n)
  | target {other : SourceFile} {a : AliasDecl} {t : TypeExpr} (member : other ∈ files)
      (declared : a ∈ other.flatten.aliases) (node : t ∈ a.target.nodes) (named : t.base = n)

/-- The targets that types of the file, or targets of aliases, come with. -/
inductive Recorded (files : List SourceFile) (file : SourceFile) (n : String) : Prop where
  | used {s : StructDecl} {f : Field} {t : TypeExpr} (declared : s ∈ file.flatten.structs)
      (field : f ∈ s.fields) (node : t ∈ f.type.nodes) (recorded : t.target = some n)
  | target {other : SourceFile} {a : AliasDecl} {t : TypeExpr} (member : other ∈ files)
      (declared : a ∈ other.flatten.aliases) (node : t ∈ a.target.nodes)
      (recorded : t.target = some n)

def Occurs (files : List SourceFile) (file : SourceFile) (n : String) : Prop :=
  Named files file n ∨ Recorded files file n

variable {files : List SourceFile} {file : SourceFile}

theorem dotted_of_named (valid : ∀ f ∈ files, f.validate = .ok ()) (member : file ∈ files)
    {n : String} (named : Named files file n) : Name.isDotted n := by
  obtain ⟨⟨types, -⟩, structs, raws, -⟩ := Inventory.validate_eq_ok.mp (valid file member)
  cases named with
  | type declared => exact types n declared
  | parameter declared parameter =>
    have checked := Inventory.validateStruct_eq_ok.mp (structs _ declared)
    exact Name.isDotted_of_isIdentifier (checked.1 n parameter)
  | field declared field named =>
    subst named
    have checked := Inventory.validateStruct_eq_ok.mp (structs _ declared)
    exact Name.isDotted_of_isIdentifier (checked.2 _ field).1
  | raw declared raw =>
    subst raw
    exact raws _ declared
  | used declared field node named =>
    subst named
    exact (TypeExpr.validate_iff_nodes.mp (valid_field (valid file member) declared field) _ node).1
  | target other declared node named =>
    subst named
    have aliases := (Inventory.validate_eq_ok.mp (valid _ other)).2.2.2
    have checked := (Inventory.validateAlias_eq_ok.mp (aliases _ declared)).2
    exact (TypeExpr.validate_iff_nodes.mp checked _ node).1

/-! ## Resolution brings in no other names -/

variable {P : String → Prop}

theorem TypeExpr.over_iff {t : TypeExpr} :
    t.Over P ↔ P t.base ∧ (∀ a ∈ t.target, P a) ∧ ∀ a ∈ t.args, a.Over P := by
  constructor
  · intro covered
    obtain ⟨base, target⟩ := covered t t.self_mem_nodes
    exact ⟨base, target, fun a arg => covered.arg arg⟩
  · rintro ⟨base, target, args⟩ n member
    rcases mem_nodes.mp member with rfl | ⟨a, arg, inside⟩
    · exact ⟨base, target⟩
    · exact args a arg n inside

namespace Aliases

variable {m : Aliases}

theorem over_args {params chain : List String} {args us : List TypeExpr}
    (resolved : args.mapM (m.resolveIn params chain) = .ok us)
    (step : ∀ a ∈ args, ∀ u, m.resolveIn params chain a = .ok u → u.Over P) :
    ∀ u ∈ us, u.Over P := by
  intro u member
  obtain ⟨a, arg, hu⟩ := exists_of_forall₂ (mapM_eq_ok.mp resolved).flip member
  exact step a arg u hu

theorem over_resolveIn (targets : ∀ name t, m.target? name = some t → t.Over P)
    {params chain : List String} {t u : TypeExpr} (covered : t.Over P)
    (resolved : m.resolveIn params chain t = .ok u) : u.Over P := by
  induction params, chain, t using resolve_induction m generalizing u with
  | name params chain base target ih =>
    by_cases shadowed : base ∈ params
    · rw [resolveIn_shadowed shadowed] at resolved
      cases resolved
      exact covered
    rw [resolveIn_name shadowed] at resolved
    obtain ⟨⟨chain', end?⟩, reached, resolved⟩ := bind_eq_ok.mp resolved
    match end? with
    | none =>
      cases resolved
      exact covered
    | some ⟨final, _, []⟩ =>
      -- The name stays, and records the name that the targets end in.
      obtain ⟨a, known⟩ := exists_target_of_follow reached rfl
      have named : P final := (targets a _ known).here
      cases resolved
      exact TypeExpr.over_iff.mpr ⟨covered.here, by simpa using named, List.forall_mem_nil _⟩
    | some ⟨final, final?, arg :: args⟩ =>
      -- The name gives way to the type that the targets end in.
      obtain ⟨a, known⟩ := exists_target_of_follow reached rfl
      have ends : TypeExpr.Over P ⟨final, final?, arg :: args⟩ := targets a _ known
      obtain ⟨us, hus, h⟩ := bind_eq_ok.mp resolved
      cases h
      refine TypeExpr.over_iff.mpr ⟨ends.here, by simp, over_args hus fun a arg u hu => ?_⟩
      exact ih chain' _ reached a arg (ends.arg arg) hu
  | applied params chain base target args applied ih =>
    obtain ⟨named, target, inside⟩ := TypeExpr.over_iff.mp covered
    rw [resolveIn_applied applied] at resolved
    obtain ⟨us, hus, h⟩ := bind_eq_ok.mp resolved
    cases h
    exact TypeExpr.over_iff.mpr
      ⟨named, target, over_args hus fun a arg u hu => ih a arg (inside a arg) hu⟩

end Aliases

theorem Registry.Resolves.over_resolved {r : Registry} {s s' : StructDecl}
    (resolves : r.Resolves s s') (targets : ∀ name t, r.aliases.target? name = some t → t.Over P)
    (covered : s.Over P) : s'.Over P := by
  refine ⟨resolves.name ▸ covered.name, resolves.parameters ▸ covered.parameters, ?_⟩
  intro f' field
  obtain ⟨f, declared, named, typed⟩ := exists_of_forall₂ resolves.fields.flip field
  rw [named]
  exact (covered.fields f declared).imp_right fun type =>
    Aliases.over_resolveIn targets type typed

theorem over_targets (name : String) (t : TypeExpr)
    (known : (Registry.scan files).aliases.target? name = some t) : t.Over (Occurs files file) := by
  obtain ⟨other, member, a, declared, -, rfl⟩ :=
    Registry.exists_alias_of_find? (Aliases.find?_of_target? known)
  exact fun n node => ⟨.inl (.target member declared node rfl),
    fun _ recorded => .inr (.target member declared node recorded)⟩

theorem over_struct {s : StructDecl} (declared : s ∈ file.flatten.structs) :
    s.Over (Occurs files file) where
  name := .inl (.type (List.mem_append_left _ (List.mem_map_of_mem declared)))
  parameters := fun _ parameter => .inl (.parameter declared parameter)
  fields := fun _ field => ⟨.inl (.field declared field rfl), fun _ node =>
    ⟨.inl (.used declared field node rfl),
      fun _ recorded => .inr (.used declared field node recorded)⟩⟩

/-! ## Generated lines -/

theorem woven_missing {codecs : Codecs} {known : List EnumDecl} {s : StructDecl}
    (covered : s.Over P) {b : Block} {ws : List Warning}
    (emitted : s.block codecs known = .ok (b, ws)) : ∀ line ∈ b.lines, Woven P line := by
  obtain ⟨decoded, encoded⟩ := StructDecl.made_of_block emitted
  refine Block.woven_lines ((StructDecl.block_eq_ok.mp emitted).1 ▸ covered.name) ?_ ?_
  · exact fun d there => StructDecl.given_decoder covered (decoded d there)
  · exact fun e there => StructDecl.given_encoder covered (encoded e there)

theorem EnumDecl.woven_missing {e : EnumDecl} (named : P e.name) (raw : P e.rawType)
    (codecs : Codecs) : ∀ line ∈ (e.block codecs).lines, Woven P line := by
  apply Block.woven_lines named
  · exact fun d there => made_of_block.1 d there ▸ EnumDecl.given_decoder named raw
  · exact fun d there => made_of_block.2 d there ▸ EnumDecl.given_encoder raw

theorem Block.woven_written {b : Block} (woven : ∀ line ∈ b.lines, Woven P line) :
    ∀ line ∈ b.written, Woven P line := by
  unfold written
  split_ifs
  · exact List.forall_mem_nil _
  · exact woven

/-- Behind the header there is nothing but fixed pieces and names that occur in the files. -/
theorem woven_generated {time : Time} {g : GeneratedFile}
    (generated : file.generate (Registry.scan files) time = .ok g) :
    ∃ lines, g.listing.lines = Section.headerLines (outputFilename file.filename) time ++ lines ∧
      ∀ line ∈ lines, Woven (Occurs files file) line := by
  obtain ⟨-, structs, known, rows, resolved, -, emitted, rfl⟩ :=
    SourceFile.generate_eq_ok.mp generated
  refine ⟨_, SourceFile.lines_assemble .., fun line member => ?_⟩
  obtain ⟨part, present, inside⟩ := List.mem_flatten.mp member
  rcases List.mem_append.mp present with present | present
  · obtain ⟨e, declared, rfl⟩ := List.mem_map.mp present
    have named : Occurs files file e.name :=
      .inl (.type (List.mem_append_right _ (List.mem_map_of_mem declared)))
    exact Block.woven_written
      (EnumDecl.woven_missing named (.inl (.raw declared rfl)) _) line inside
  · obtain ⟨⟨b, ws⟩, row, rfl⟩ := List.mem_map.mp present
    obtain ⟨s', struct, emitted⟩ := exists_of_forall₂ (mapM_eq_ok.mp emitted).flip row
    obtain ⟨s, declared, resolves⟩ :=
      exists_of_forall₂ (Registry.resolves_structs resolved).flip struct
    have covered : s'.Over (Occurs files file) :=
      resolves.over_resolved over_targets (over_struct declared)
    exact Block.woven_written (woven_missing covered emitted) line inside

/-! ## Characters -/

/-- A character that shows and stays on its line. -/
def Printable (c : Char) : Prop := ' ' ≤ c ∧ c ≤ '~'

instance (c : Char) : Decidable (Printable c) := inferInstanceAs (Decidable (_ ∧ _))

theorem printable_pieces : ∀ s ∈ pieces, ∀ c ∈ s.toList, Printable c := by
  have all : pieces.all fun s => s.toList.all (Printable ·) := by decide +kernel
  simpa only [List.all_eq_true, decide_eq_true_eq] using all

theorem printable_between {first last c : Char} (ends : Printable first ∧ Printable last)
    (low : first ≤ c) (high : c ≤ last) : Printable c :=
  ⟨Char.le_trans ends.1.1 low, Char.le_trans high ends.2.2⟩

namespace Name

theorem printable_of_isTail {c : Char} (tail : isTail c) : Printable c := by
  rw [isTail, isHead, Bool.or_eq_true, Bool.or_eq_true, decide_eq_true_eq] at tail
  rcases tail with (letter | rfl) | digit
  · rcases Bool.or_eq_true_iff.mp letter with upper | lower
    · obtain ⟨low, high⟩ := of_decide_eq_true upper
      exact printable_between (by decide : Printable 'A' ∧ Printable 'Z') low high
    · obtain ⟨low, high⟩ := Bool.and_eq_true_iff.mp lower
      exact printable_between (by decide : Printable 'a' ∧ Printable 'z') (of_decide_eq_true low)
        (of_decide_eq_true high)
  · decide
  · obtain ⟨low, high⟩ := Bool.and_eq_true_iff.mp digit
    exact printable_between (by decide : Printable '0' ∧ Printable '9') (of_decide_eq_true low)
      (of_decide_eq_true high)

theorem printable_of_isDottedFrom {inside : Bool} {cs : List Char}
    (dotted : isDottedFrom inside cs) : ∀ c ∈ cs, Printable c := by
  intro c member
  rcases dot_or_tail_of_isDottedFrom dotted c member with rfl | tail
  · decide
  · exact printable_of_isTail tail

end Name

theorem printable_of_woven {line : String} (dotted : ∀ n, P n → Name.isDotted n)
    (woven : Woven P line) : ∀ c ∈ line.toList, Printable c :=
  woven.forall_char printable_pieces fun n named => Name.printable_of_isDottedFrom (dotted n named)

theorem line_break_not_printable : ¬ Printable '\n' := by decide

/-! ## The header -/

namespace Time

theorem getD_unbroken {names : List String} (unbroken : ∀ n ∈ names, '\n' ∉ n.toList) (i : Nat) :
    '\n' ∉ (names.getD i "").toList := by
  rw [List.getD_eq_getElem?_getD]
  cases found : names[i]? with
  | none => simp
  | some n => exact unbroken n (List.mem_of_getElem? found)

theorem padded_unbroken (width n : Nat) : '\n' ∉ (padded width n).toList := by
  have digits : '\n' ∉ (toString n).toList := by
    intro member
    rw [Nat.toString_eq_repr, Nat.toList_repr] at member
    exact absurd (Nat.isDigit_of_mem_toDigits (by decide) (by decide) member) (by decide)
  rw [padded, String.toList_append, String.toList_ofList, List.mem_append, List.mem_replicate]
  rintro (⟨-, zero⟩ | member)
  · exact absurd zero (by decide)
  · exact digits member

theorem text_unbroken (t : Time) : '\n' ∉ t.text.toList := by
  have weekday (i : Nat) : '\n' ∉ (weekdays.getD i "").toList := getD_unbroken (by decide) i
  have month (i : Nat) : '\n' ∉ (months.getD i "").toList := getD_unbroken (by decide) i
  have year (y : Int) : '\n' ∉ (yearText y).toList := by
    rw [yearText, String.toList_append, List.mem_append]
    rintro (sign | digits)
    · split_ifs at sign <;> simp at sign
    · exact padded_unbroken _ _ digits
  unfold text
  simp only [String.toList_append, List.mem_append, weekday, month, year, padded_unbroken]
  simp

end Time

theorem unbroken_outputFilename (source : String) :
    '\n' ∉ (outputFilename source).toList ↔ '\n' ∉ source.toList := by
  have ending : '\n' ∉ "+JsonGen.swift".toList := by decide
  have dropped : '\n' ∉ ".swift".toList := by decide
  rw [outputFilename, String.toList_append, List.mem_append, not_or, and_iff_left ending]
  split_ifs with suffix
  · obtain ⟨front, whole⟩ := List.isSuffixOf_iff_suffix.mp suffix
    have length : source.length - 6 = front.length := by
      have lengths := congrArg List.length whole
      rw [List.length_append, String.length_toList, String.length_toList] at lengths
      have six : ".swift".length = 6 := by decide
      omega
    rw [String.toList_ofList, length, ← whole, List.take_left, List.mem_append, not_or,
      and_iff_left dropped]
  · rfl

theorem unbroken_header (filename : String) (time : Time) :
    (∀ line ∈ Section.headerLines filename time, '\n' ∉ line.toList) ↔ '\n' ∉ filename.toList := by
  simp only [Section.headerLines, List.forall_mem_cons, String.toList_append, List.mem_append,
    time.text_unbroken]
  simp

/-! ## Lines -/

theorem not_mem_of_mem_splitOn {a : Char} {cs part : List Char} (h : part ∈ cs.splitOn a) :
    a ∉ part := by
  induction cs generalizing part with
  | nil =>
    rw [List.splitOn_nil, List.mem_singleton] at h
    simp [h]
  | cons c cs ih =>
    rw [List.splitOn_cons_eq_if_modifyHead] at h
    split_ifs at h with same
    · rcases List.mem_cons.mp h with rfl | h
      · simp
      · exact ih h
    · cases parts : cs.splitOn a with
      | nil => simp [parts] at h
      | cons first rest =>
        rw [parts] at ih h
        rcases List.mem_cons.mp h with rfl | h
        · have other : a ≠ c := by
            rintro rfl
            simp at same
          exact List.not_mem_cons_of_ne_of_not_mem other (ih List.mem_cons_self)
        · exact ih (List.mem_cons_of_mem _ h)

/-- Splitting the contents at line breaks gives the lines back if there is none inside of them. -/
theorem splitOn_contents {g : GeneratedFile} (begun : g.listing.lines ≠ []) :
    g.contents.toList.splitOn '\n' = (g.listing.lines ++ [""]).map String.toList ↔
      ∀ line ∈ g.listing.lines, '\n' ∉ line.toList := by
  have joined : g.contents.toList =
      ['\n'].intercalate ((g.listing.lines ++ [""]).map String.toList) := by
    have whole : g.contents = String.intercalate "\n" (g.listing.lines ++ [""]) := by
      rw [GeneratedFile.contents, String.intercalate_append_of_ne_nil begun (by simp),
        String.intercalate_singleton, String.append_empty]
    rw [whole, String.toList_intercalate]
    rfl
  rw [joined]
  constructor
  · intro same line member
    have part := List.mem_map_of_mem (f := String.toList) (List.mem_append_left [""] member)
    rw [← same] at part
    exact not_mem_of_mem_splitOn part
  · intro unbroken
    apply List.splitOn_intercalate
    · intro cs member
      obtain ⟨line, present, rfl⟩ := List.mem_map.mp member
      rcases List.mem_append.mp present with present | last
      · exact unbroken line present
      · rw [List.mem_singleton.mp last]
        simp
    · simp

/-- Generated lines are made of fixed pieces and names from the files, and of these validation
misses only recorded targets. If they are names as well, no line behind the header can be broken,
and nothing but the name of the file can break the header. -/
theorem output_contained {time : Time} {g : GeneratedFile}
    (valid : ∀ f ∈ files, f.validate = .ok ()) (member : file ∈ files)
    (generated : file.generate (Registry.scan files) time = .ok g) :
    ∃ lines, g.listing.lines = Section.headerLines (outputFilename file.filename) time ++ lines ∧
      (∀ line ∈ lines, Woven (Occurs files file) line) ∧
      (∀ n, Named files file n → Name.isDotted n) ∧
      ((∀ n, Recorded files file n → Name.isDotted n) →
        (∀ line ∈ lines, Woven (fun n => Occurs files file n ∧ Name.isDotted n) line ∧
          ∀ c ∈ line.toList, Printable c) ∧
        (g.contents.toList.splitOn '\n' = (g.listing.lines ++ [""]).map String.toList ↔
          '\n' ∉ file.filename.toList)) := by
  obtain ⟨lines, behind, woven⟩ := woven_generated generated
  have named : ∀ n, Named files file n → Name.isDotted n := fun n => dotted_of_named valid member
  refine ⟨lines, behind, woven, named, fun recorded => ?_⟩
  have dotted (n : String) (occurs : Occurs files file n) : Name.isDotted n :=
    occurs.elim (named n) (recorded n)
  have printable (line : String) (there : line ∈ lines) : ∀ c ∈ line.toList, Printable c :=
    printable_of_woven dotted (woven line there)
  constructor
  · intro line there
    exact ⟨(woven line there).mono fun n occurs => ⟨occurs, dotted n occurs⟩, printable line there⟩
  · have unbroken : ∀ line ∈ lines, '\n' ∉ line.toList := fun line there inside =>
      line_break_not_printable (printable line there _ inside)
    have begun : g.listing.lines ≠ [] := by simp [behind, Section.headerLines]
    rw [splitOn_contents begun, behind, List.forall_mem_append, and_iff_left unbroken,
      unbroken_header, unbroken_outputFilename]

theorem output_contained_shapes :
    ∃ g, shapes.generate (Registry.scan [shapes, support]) ⟨0, 0⟩ = .ok g ∧
      g.contents.toList.splitOn '\n' = (g.listing.lines ++ [""]).map String.toList := by
  obtain ⟨g, generated, -⟩ := shapes_generate ⟨0, 0⟩
  have valid : ∀ f ∈ [shapes, support], f.validate = .ok () := by decide
  obtain ⟨lines, -, -, -, contained⟩ := output_contained valid List.mem_cons_self generated
  have fields : ∀ s ∈ shapes.flatten.structs, ∀ f ∈ s.fields, f.type.Written := by decide
  have targets : ∀ file ∈ [shapes, support], ∀ a ∈ file.flatten.aliases, a.target.Written := by
    decide
  have written : ∀ n, Recorded [shapes, support] shapes n → Name.isDotted n := by
    intro n recorded
    cases recorded with
    | used declared field node recorded =>
      cases recorded.symm.trans (fields _ declared _ field _ node)
    | target other declared node recorded =>
      cases recorded.symm.trans (targets _ other _ declared _ node)
  exact ⟨g, generated, (contained written).2.mpr (by decide)⟩

/-- A file that records a target of two lines. -/
def twoLines : SourceFile :=
  ⟨"Two.swift", [.struct ⟨"Two", [], [⟨"id", ⟨"Id", some "Int\nlet x = Int", []⟩⟩], []⟩]⟩

def brokenLine : String :=
  "    guard let id: Id = Int\nlet x = Int.decodeJson(id_field) else \x7b"

theorem recorded_target_breaks_line :
    twoLines.validate = .ok () ∧
    ∃ g, twoLines.generate (Registry.scan [twoLines]) ⟨0, 0⟩ = .ok g ∧
      brokenLine ∈ g.listing.lines ∧
      g.contents.toList.splitOn '\n' ≠ (g.listing.lines ++ [""]).map String.toList := by
  have valid : twoLines.validate = .ok () := by decide
  have unknown : (Registry.scan [twoLines]).aliases.target? "Id" = none := by rfl
  have resolved : twoLines.flatten.structs.mapM (Registry.scan [twoLines]).resolveStruct =
      .ok twoLines.flatten.structs := by
    have declared : twoLines.flatten.structs =
        [⟨"Two", [], [⟨"id", ⟨"Id", some "Int\nlet x = Int", []⟩⟩], []⟩] := rfl
    simp [declared, Registry.resolveStruct, Aliases.resolveIn_leaf, Aliases.follow_eq, unknown,
      Aliases.replace, bind, Except.bind, pure, Except.pure]
  have enums : (Registry.scan [twoLines]).knownEnums twoLines.flatten.enums = .ok [] := by rfl
  obtain ⟨rows, emitted, broken⟩ : ∃ rows,
      twoLines.flatten.structs.mapM (·.block (Registry.scan [twoLines]).codecs []) = .ok rows ∧
      brokenLine ∈ (rows.map fun row => row.1.written).flatten := ⟨_, rfl, by decide⟩
  have generated : twoLines.generate (Registry.scan [twoLines]) ⟨0, 0⟩ = .ok _ :=
    SourceFile.generate_eq_ok.mpr ⟨valid, _, _, rows, resolved, enums, emitted, rfl⟩
  have listed : brokenLine ∈
      (twoLines.assemble ⟨0, 0⟩ (Registry.scan [twoLines]).codecs rows).listing.lines := by
    rw [SourceFile.lines_assemble, List.flatten_append]
    exact List.mem_append_right _ (List.mem_append_right _ broken)
  refine ⟨valid, _, generated, listed, fun same => ?_⟩
  have unbroken := (splitOn_contents (List.ne_nil_of_mem listed)).mp same _ listed
  exact absurd unbroken (by decide)

end SwiftCodec
