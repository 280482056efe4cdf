import SwiftCodec.Proofs.Codec.Lines
import SwiftCodec.Proofs.Codec.Texts

/-!
The wire format of a struct. Its decoder, its encoder and the initializer call at the end of the
decoder are made by three traversals of the same fields; read back from the lines, they name the
same keys in the same order.
-/
namespace SwiftCodec

/-! ## Fields -/

theorem TypeExpr.optional_iff {t : TypeExpr} {shape : Shape} (shaped : t.shape = .ok shape) :
    t.base = "Optional" ↔ ∃ inner, shape = .optional inner := by
  unfold TypeExpr.shape at shaped
  split_ifs at shaped with optional array dictionary
  · simp only [optional, true_iff]
    split at shaped <;> cases shaped
    exact ⟨_, rfl⟩
  · simp only [optional, false_iff, not_exists]
    split at shaped <;> cases shaped
    simp
  · simp only [optional, false_iff, not_exists]
    split at shaped <;> cases shaped
    simp
  · simp only [optional, false_iff, not_exists]
    split at shaped <;> cases shaped <;> simp

namespace Field

variable {f : Field} {params : List String} {statements : List Statement}

theorem accesses_decode (decoded : f.decode params = .ok statements) :
    statements.flatMap Statement.accesses = [⟨f.name, false⟩] := by
  obtain ⟨shape, shaped, decoded⟩ := bind_eq_ok.mp decoded
  cases shape with
  | optional inner =>
    cases decoded
    rfl
  | plain | array | dictionary | generic =>
    cases decoded
    split <;> rfl

theorem accesses_store (f : Field) (params : List String) (key? : Option String) :
    (f.store params key?).flatMap Statement.accesses = [⟨f.name, true⟩] := by
  cases key? <;> rfl

/-- A field is reported as missing unless its type is optional. -/
theorem missing_decode (decoded : f.decode params = .ok statements) :
    statements.flatMap Statement.missing = if f.type.base = "Optional" then [] else [f.name] := by
  obtain ⟨shape, shaped, decoded⟩ := bind_eq_ok.mp decoded
  cases shape with
  | optional inner =>
    cases decoded
    rw [if_pos ((TypeExpr.optional_iff shaped).mpr ⟨inner, rfl⟩)]
    rfl
  | plain | array | dictionary | generic =>
    cases decoded
    rw [if_neg fun optional => by simpa using (TypeExpr.optional_iff shaped).mp optional]
    split <;> rfl

theorem failure_decode (decoded : f.decode params = .ok statements) :
    ∀ s ∈ statements, ∀ failure ∈ s.failure?, ∀ n ∈ failure.field?, n = f.name := by
  obtain ⟨shape, shaped, decoded⟩ := bind_eq_ok.mp decoded
  cases shape with
  | optional inner =>
    cases decoded
    simp [Statement.failure?]
  | plain | array | dictionary | generic =>
    cases decoded
    split <;> simp [Statement.failure?, DecodeFailure.field?]

end Field

/-! ## Functions -/

theorem composable_unquoted : Composable Unquoted where
  plain given := given.mono fun _ h => h.2.2
  append := .append
  closure inside := (Within.append (by decide) inside).append (by decide)

/-- A function whose last statement is a line ends in that line. -/
theorem Function.lines_last {f : Function} {before : List Statement} {st : Statement}
    {last : String} (body : f.body = before ++ [st]) (single : st.lines = [last]) :
    ∃ front, f.lines = front ++ [indent 4 last, "  \x7d"] := by
  have closing : indent 2 "\x7d" = "  \x7d" := by decide
  refine ⟨indent 2 (f.signature ++ " \x7b") :: (before.flatMap Statement.lines).map (indent 4), ?_⟩
  simp [lines, body, single, closing]

namespace StructDecl

variable {s : StructDecl} {d e : Function} {known : List EnumDecl} {ws : List Warning}

theorem accesses_decoder (covered : s.Over Unquoted) (decodes : s.decoder = .ok d) :
    d.lines.flatMap accesses = s.fieldNames.map (⟨·, false⟩) := by
  obtain ⟨signature, plain⟩ := composable_unquoted.decoder covered decodes
  rw [Function.accesses_lines signature plain]
  obtain ⟨parts, decoded, h⟩ := bind_eq_ok.mp decodes
  cases h
  have fields := flatMap_decoded (fun _ _ => Field.accesses_decode) (mapM_eq_ok.mp decoded)
  rw [← List.map_eq_flatMap] at fields
  simp only [List.flatMap_append, fields]
  simp [Statement.accesses, Source.accesses, fieldNames]

theorem accesses_encoder (covered : s.Over Unquoted) (encodes : s.encoder known = .ok (e, ws)) :
    e.lines.flatMap accesses = s.fieldNames.map (⟨·, true⟩) := by
  obtain ⟨signature, plain⟩ := composable_unquoted.encoder covered encodes
  rw [Function.accesses_lines signature plain]
  obtain ⟨marks, marked, rfl, -⟩ := encoder_eq_ok.mp encodes
  have fields := fields_eq_of_marked marked
  have stores : (s.stores marks).flatMap Statement.accesses = s.fieldNames.map (⟨·, true⟩) := by
    simp only [stores, List.flatMap_assoc, Field.accesses_store, ← List.map_eq_flatMap, fieldNames,
      fields, List.map_map]
    rfl
  simp only [encoderOf, List.flatMap_append, stores]
  simp [Statement.accesses]

theorem boundNames_decoder (words : ∀ n ∈ s.fieldNames, IsWord n) (decodes : s.decoder = .ok d) :
    d.lines.filterMap boundName? = "dict" :: locals s.fieldNames := by
  obtain ⟨parts, decoded, h⟩ := bind_eq_ok.mp decodes
  cases h
  have fields := introduced_fields (mapM_eq_ok.mp decoded)
  rw [Function.boundNames_lines]
  · simp only [List.flatMap_append, fields]
    simp [Statement.introduced, fieldNames]
  · simp [boundName?, unindented, Function.signature, List.dropPrefix?]
  · have made : ∀ n ∈ locals s.fieldNames, IsWord n := by
      intro n member
      obtain ⟨m, named, rfl | rfl⟩ := mem_locals.mp member
      · exact (words m named).append (by decide)
      · exact words n named
    intro st member n introduced
    simp only [List.mem_append, List.mem_cons, List.not_mem_nil, or_false] at member
    rcases member with ((rfl | rfl) | member) | rfl
    · rw [List.mem_singleton.mp introduced]
      decide
    · cases introduced
    · exact made n (fields ▸ List.mem_flatMap.mpr ⟨st, member, introduced⟩)
    · cases introduced

theorem missingExits_decoder (words : ∀ n ∈ s.fieldNames, IsWord n) (decodes : s.decoder = .ok d) :
    missingExits d.lines = (s.fields.filter (·.type.base ≠ "Optional")).map (·.name) := by
  obtain ⟨parts, decoded, h⟩ := bind_eq_ok.mp decodes
  cases h
  have required (fields : List Field) :
      (fields.flatMap fun f => if f.type.base = "Optional" then [] else [f.name]) =
        (fields.filter (·.type.base ≠ "Optional")).map (·.name) := by
    induction fields with
    | nil => rfl
    | cons f fields ih =>
      by_cases optional : f.type.base = "Optional" <;> simp [optional, ih]
  have fields := flatMap_decoded (fun _ _ => Field.missing_decode) (mapM_eq_ok.mp decoded)
  rw [Function.missingExits_lines]
  · simp only [List.flatMap_append, fields, required]
    simp [Statement.missing, Statement.failure?, DecodeFailure.missing?]
  · exact missingField?_of_head (by simp [unindented, Function.signature])
  · intro st member failure failed n about
    simp only [List.mem_append, List.mem_cons, List.not_mem_nil, or_false] at member
    rcases member with ((rfl | rfl) | member) | rfl
    · cases failed
      cases about
    · cases failed
    · obtain ⟨part, present, inside⟩ := List.mem_flatten.mp member
      obtain ⟨f, field, decoded⟩ := exists_of_forall₂ (mapM_eq_ok.mp decoded).flip present
      rw [Field.failure_decode decoded st inside failure failed n about]
      exact words f.name (List.mem_map_of_mem field)
    · cases failed

/-! ## The initializer call -/

theorem labelled_argument {label : String} (word : IsWord label) :
    labelled (label ++ ": " ++ label) = (label, label) := by
  have plain : ∀ c ∈ label.toList, decide (c ≠ ':') = true := by
    intro c member
    rw [decide_eq_true_eq]
    rintro rfl
    exact absurd (word _ member) (by decide)
  have chars : (label ++ ": " ++ label).toList = label.toList ++ ':' :: ' ' :: label.toList := by
    simp
  rw [labelled, chars, List.takeWhile_append_of_pos plain, List.dropWhile_append_of_pos plain,
    List.takeWhile_cons_of_neg (by decide), List.dropWhile_cons_of_neg (by decide)]
  simp

def constructLine (type : String) (labels : List String) : String :=
  "return " ++ type ++ "(" ++ String.intercalate ", " (labels.map fun l => l ++ ": " ++ l) ++ ")"

theorem returnedCall?_construct {type : String} {labels : List String}
    (path : Within (Call.isPath ·) type) (named : type ≠ "")
    (words : ∀ l ∈ labels, IsWord l ∧ l ≠ "") :
    returnedCall? (indent 4 (constructLine type labels)) =
      some ⟨type, labels.map fun l => l ++ ": " ++ l⟩ := by
  have path' {l : String} (label : l ∈ labels) : Within (Call.isPath ·) l :=
    (words l label).1.mono fun _ => Call.isPath_of_isTail
  have whole : ∀ p ∈ labels.map fun l => l ++ ": " ++ l, Call.Whole p := by
    intro p member
    obtain ⟨l, label, rfl⟩ := List.mem_map.mp member
    have own := Call.whole_of_path (path' label) (words l label).2
    exact ⟨(own.through.append (.of_inert (by decide))).append own.through,
      (own.begins.append _).append _⟩
  have inside : Call.Reads (String.intercalate ", " (labels.map fun l => l ++ ": " ++ l)) [] := by
    refine .plain (.intercalate (by decide) fun p member => ?_)
    obtain ⟨l, label, rfl⟩ := List.mem_map.mp member
    have plain := Call.unbracketed_of_path (path' label)
    exact (plain.append (by decide)).append plain
  have text := Call.Reads.inText (.call path named whole inside)
  have chars : (unindented (indent 4 (constructLine type labels))).dropPrefix? "return ".toList =
      some (type ++ "(" ++
        String.intercalate ", " (labels.map fun l => l ++ ": " ++ l) ++ ")").toList := by
    rw [unindented_indent]
    simp [constructLine, unindented, List.dropPrefix?]
  rw [returnedCall?, chars, Option.bind_some]
  exact congrArg List.head? text

end StructDecl

/-! ## Agreement -/

/-- The names of a struct are well formed, in the types of its fields too. -/
structure StructDecl.WellNamed (s : StructDecl) : Prop where
  name : Name.isDotted s.name
  parameters : ∀ p ∈ s.parameters, Name.isIdentifier p
  fields : ∀ f ∈ s.fields, Name.isIdentifier f.name ∧ f.type.Over (Name.isDotted ·)

namespace StructDecl.WellNamed

variable {s : StructDecl}

theorem word (named : s.WellNamed) : ∀ n ∈ s.fieldNames, IsWord n ∧ n ≠ "" := by
  intro n member
  obtain ⟨f, field, rfl⟩ := List.mem_map.mp member
  have identifier := (named.fields f field).1
  refine ⟨Name.isTail_of_isIdentifier identifier, ?_⟩
  intro void
  rw [void] at identifier
  exact absurd identifier (by decide)

theorem name_ne (named : s.WellNamed) : s.name ≠ "" := by
  intro void
  have dotted := named.name
  rw [void] at dotted
  exact absurd dotted (by decide)

theorem path_of_isDotted {n : String} (dotted : Name.isDotted n) : Within (Call.isPath ·) n := by
  intro c member
  rcases Name.dot_or_tail_of_isDottedFrom dotted c member with rfl | tail
  · decide
  · exact Call.isPath_of_isTail tail

theorem path_of_isIdentifier {n : String} (identifier : Name.isIdentifier n) :
    Within (Call.isPath ·) n :=
  fun c member => Call.isPath_of_isTail (Name.isTail_of_isIdentifier identifier c member)

theorem paths (named : s.WellNamed) : s.Over (Within (Call.isPath ·)) where
  name := path_of_isDotted named.name
  parameters p parameter := path_of_isIdentifier (named.parameters p parameter)
  fields f field := (named.fields f field).imp path_of_isIdentifier fun typed =>
    typed.mono fun _ => path_of_isDotted

end StructDecl.WellNamed

/-- What a decoder reads and what the encoder stores are the fields in their order, and so is what
the decoder builds a value from at its end, each name having been bound before. A field is reported
as missing exactly if its type is not optional. -/
theorem wire_format (s : StructDecl) (known : List EnumDecl) (named : s.WellNamed) (d e : Function)
    (ws : List Warning) (decodes : s.decoder = .ok d) (encodes : s.encoder known = .ok (e, ws)) :
    d.lines.flatMap accesses = s.fieldNames.map (⟨·, false⟩) ∧
    e.lines.flatMap accesses = s.fieldNames.map (⟨·, true⟩) ∧
    (∃ front last arguments, d.lines = front ++ [last, "  \x7d"] ∧
      returnedCall? last = some ⟨s.name, arguments⟩ ∧
      arguments.map labelled = s.fieldNames.map (fun n => (n, n)) ∧
      ∀ a ∈ arguments, (labelled a).2 ∈ front.filterMap boundName?) ∧
    missingExits d.lines = (s.fields.filter (·.type.base ≠ "Optional")).map (·.name) := by
  have covered : s.Over Unquoted :=
    named.paths.mono fun n path => path.mono fun c h => Call.ne_of_isPath h (by decide)
  have words (n : String) (member : n ∈ s.fieldNames) : IsWord n := (named.word n member).1
  refine ⟨StructDecl.accesses_decoder covered decodes, StructDecl.accesses_encoder covered encodes,
    ?_, StructDecl.missingExits_decoder words decodes⟩
  have bound := StructDecl.boundNames_decoder words decodes
  obtain ⟨front, lines⟩ : ∃ front,
      d.lines = front ++ [indent 4 (StructDecl.constructLine s.name s.fieldNames), "  \x7d"] := by
    obtain ⟨parts, -, h⟩ := bind_eq_ok.mp decodes
    cases h
    exact Function.lines_last rfl rfl
  have silent : boundName? (indent 4 (StructDecl.constructLine s.name s.fieldNames)) = none := by
    rw [← Function.comp_apply (f := boundName?), boundName?_indent]
    simp [boundName?, unindented, StructDecl.constructLine, List.dropPrefix?]
  have closing : boundName? "  \x7d" = none := by decide
  rw [lines, List.filterMap_append, List.filterMap_cons_none silent,
    List.filterMap_cons_none closing, List.filterMap_nil, List.append_nil] at bound
  refine ⟨front, _, _, lines,
    StructDecl.returnedCall?_construct named.paths.name named.name_ne named.word, ?_,
    fun a member => ?_⟩
  · rw [List.map_map]
    exact List.map_congr_left fun n member => StructDecl.labelled_argument (words n member)
  · obtain ⟨n, field, rfl⟩ := List.mem_map.mp member
    rw [StructDecl.labelled_argument (words n field), bound]
    exact List.mem_cons_of_mem _ (StructDecl.mem_locals.mpr ⟨n, field, .inr rfl⟩)

/-- A struct with a field for each way of decoding. -/
def trip : StructDecl where
  name := "Outer.Trip"
  parameters := ["T"]
  fields := [⟨"id", .named "Int"⟩, ⟨"note", .optional (.named "String")⟩,
    ⟨"extra", .named "AnyObject"⟩, ⟨"head", .named "JsonObject"⟩, ⟨"stops", .array (.named "T")⟩]

theorem wire_format_trip :
    trip.WellNamed ∧ ∃ d e, trip.decoder = .ok d ∧ trip.encoder [] = .ok (e, []) ∧
      d.lines.flatMap accesses =
        [⟨"id", false⟩, ⟨"note", false⟩, ⟨"extra", false⟩, ⟨"head", false⟩, ⟨"stops", false⟩] ∧
      e.lines.flatMap accesses =
        [⟨"id", true⟩, ⟨"note", true⟩, ⟨"extra", true⟩, ⟨"head", true⟩, ⟨"stops", true⟩] ∧
      missingExits d.lines = ["id", "extra", "head", "stops"] := by
  have named : trip.WellNamed := ⟨by decide, by decide, by decide⟩
  obtain ⟨d, decodes⟩ : ∃ d, trip.decoder = .ok d := ⟨_, rfl⟩
  obtain ⟨e, encodes⟩ : ∃ e, trip.encoder [] = .ok (e, []) := ⟨_, rfl⟩
  obtain ⟨reads, stores, -, missing⟩ := wire_format trip [] named d e [] decodes encodes
  exact ⟨named, d, e, decodes, encodes, reads, stores, missing⟩

end SwiftCodec
