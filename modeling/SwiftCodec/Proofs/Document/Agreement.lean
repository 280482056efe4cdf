import SwiftCodec.Proofs.Document.Settling
import SwiftCodec.Proofs.Json.Distinct
import SwiftCodec.Proofs.Json.Skipping

/-!
A source file read from a text as it comes, and one read from the value the text stands for, are
the same, and where one cannot be read neither can the other. What each reader of texts does at a
place is compared with what its counterpart does with the value that stands at that place.
-/
namespace SwiftCodec

namespace Document

/-- Both readings fail, or both have one result and the text is read up to a given place. -/
inductive Agree {α : Type} (d : Cursor) : Except TextFailure (α × Cursor) → Reading α → Prop where
  | both (a : α) : Agree d (.ok (a, d)) (.ok a)
  | neither (f : TextFailure) (g : Failure) : Agree d (.error f) (.error g)

namespace Agree

variable {α β : Type} {d e : Cursor} {t : Except TextFailure (α × Cursor)} {r : Reading α}

theorem bind {f : α × Cursor → Except TextFailure (β × Cursor)} {g : α → Reading β}
    (agree : Agree d t r) (next : ∀ a, Agree e (f (a, d)) (g a)) :
    Agree e (t >>= f) (r >>= g) := by
  cases agree with
  | both a => exact next a
  | neither f g => exact .neither f g

theorem textUnder (agree : Agree d t r) (step : PathStep) :
    Agree d (Document.textUnder step t) r := by
  cases agree with
  | both a => exact .both a
  | neither f g => exact .neither _ g

theorem atKey (agree : Agree d t r) (key : String) : Agree d t (Document.atKey key r) := by
  cases agree with
  | both a => exact .both a
  | neither f g => exact .neither f _

theorem atIndex (agree : Agree d t r) (i : Nat) : Agree d t (Document.atIndex i r) := by
  cases agree with
  | both a => exact .both a
  | neither f g => exact .neither f _

theorem eq_ok {a : α} (agree : Agree d t (.ok a)) : t = .ok (a, d) := by
  cases agree
  rfl

theorem toOption (agree : Agree d t r) : (t.map Prod.fst).toOption = r.toOption := by
  cases agree <;> rfl

end Agree

variable {c d : Cursor} {j : Json} {depth : Nat}

/-! ## Names and kinds -/

theorem textMismatch_fails {α : Type} (expected : Expectation) (c : Cursor) :
    ∃ f, (textMismatch expected c : Except TextFailure α) = .error f := by
  unfold textMismatch
  split
  · rename_i r _
    cases r <;> exact ⟨_, rfl⟩
  · split <;> exact ⟨_, rfl⟩

theorem begun_of_stands (stands : Json.Stands depth c j d) : begun c = .ok c.skipBlanks := by
  obtain ⟨x, xs, head⟩ := stands.begins
  simp [begun, head]

theorem textString_agree (stands : Json.Stands depth c j d) (expected : Expectation) :
    Agree d (textString expected c) (readString j) := by
  rw [textString, begun_of_stands stands]
  simp only [bind, Except.bind]
  split
  · rename_i xs head
    obtain ⟨s, rfl, read⟩ := stands.of_quote head
    rw [read]
    exact .both s
  · rename_i other
    obtain ⟨f, fails⟩ := textMismatch_fails (α := String × Cursor) expected c.skipBlanks
    rw [fails]
    cases stands with
    | word word =>
      cases word with
      | string head _ => exact absurd head (other _)
      | null | true | false | number => exact .neither f _
    | array | object => exact .neither f _

theorem textKind_agree (stands : Json.Stands depth c j d) :
    Agree d (textKind c) (readKind .outside j) := by
  have name := textString_agree stands .kind
  unfold textKind
  generalize textString .kind c = t at name
  cases j with
  | string s =>
    cases name.eq_ok
    have same : readKind .outside (.string s) = Kind.ofText s := rfl
    rw [same]
    simp only [bind, Except.bind]
    cases Kind.ofText s with
    | ok k => exact .both k
    | error f => exact .neither _ f
  | number n =>
    cases name
    cases n <;> exact .neither _ _
  | null | bool | array | object =>
    cases name
    exact .neither _ _

/-! ## Declarations -/

/-- The kind of an object, and its members but for that. -/
def partedMembers (seen : Option Kind) (members : List (String × Json)) :
    Reading (Kind × List (String × Json)) :=
  kindAmong .outside seen members >>= fun kind => .ok (kind, members.filter (·.1 ≠ "kind"))

theorem partedMembers_kind {seen : Option Kind} {rest : List (String × Json)} :
    partedMembers seen (("kind", j) :: rest) =
      once "kind" seen (readKind .outside j) >>= fun kind => partedMembers (some kind) rest := by
  unfold partedMembers
  rw [kindAmong, if_pos rfl, List.filter_cons_of_neg (by simp)]
  exact bind_assoc _ _ _

theorem partedMembers_other {seen : Option Kind} {key : String} {rest : List (String × Json)}
    (other : key ≠ "kind") :
    partedMembers seen ((key, j) :: rest) =
      partedMembers seen rest >>= fun (kind, members) => .ok (kind, (key, j) :: members) := by
  unfold partedMembers
  rw [kindAmong, if_neg other, List.filter_cons_of_pos (by simpa using other)]
  rw [bind_assoc]
  rfl

theorem textMembers_kind {n : Nat} {first : Bool} {e : Cursor}
    (steps : c.nextKey first = .ok (some "kind", d)) (colon : d.colon = .ok e) :
    textMembers depth none first (n + 1) c =
      textUnder (.key "kind") (textKind e) >>= fun (k, f) =>
        textMembers depth (some k) false n f := by
  rw [textMembers, steps]
  simp only [scanning, textUnder, colon, bind, Except.bind, Except.mapError]
  rfl

theorem textMembers_kind_again {n : Nat} {first : Bool} {kind : Kind}
    (steps : c.nextKey first = .ok (some "kind", d)) :
    textMembers depth (some kind) first (n + 1) c = failAt (objectEnd d) (.repeated "kind") := by
  rw [textMembers, steps]
  rfl

theorem textMembers_other {n : Nat} {seen : Option Kind} {first : Bool} {key : String}
    {e : Cursor} (other : key ≠ "kind") (steps : c.nextKey first = .ok (some key, d))
    (colon : d.colon = .ok e) :
    textMembers depth seen first (n + 1) c =
      textUnder (.key key) (scanning (e.value e.fuel depth)) >>= fun (j, f) =>
        textMembers depth seen false n f >>= fun ((k, ms), g) => .ok ((k, (key, j) :: ms), g) := by
  rw [textMembers]
  simp [steps, colon, bind, Except.bind, textUnder, scanning, Except.mapError]

theorem textMembers_agree {members : List (String × Json)} {first : Bool} {seen : Option Kind}
    (inside : Json.Members depth first c members d) (n : Nat)
    (enough : 2 * c.rest.length ≤ n + 2 * d.rest.length) :
    Agree d (textMembers depth seen first n c) (partedMembers seen members) := by
  induction members generalizing c first seen n with
  | nil =>
    cases inside with
    | done closes =>
      have shorter := Cursor.length_nextKey_none closes
      obtain _ | n := n
      · omega
      rw [textMembers, closes]
      cases seen with
      | none => exact .neither _ _
      | some kind => exact .both _
  | cons m rest ih =>
    cases inside with
    | @more _ _ _ _ e _ _ key _ _ steps colon head tail =>
      have name := Cursor.length_nextKey_some steps
      have behind := Cursor.length_colon colon
      have shorter := head.length
      have others := tail.length
      obtain _ | n := n
      · omega
      by_cases isKind : key = "kind"
      · subst isKind
        rw [partedMembers_kind]
        cases seen with
        | some kind =>
          rw [textMembers_kind_again steps]
          exact .neither _ _
        | none =>
          rw [textMembers_kind steps colon]
          exact (((textKind_agree head).textUnder _).atKey _).bind fun kind =>
            ih tail n (by omega)
      · have value := head.read e.fuel (by simp only [Cursor.fuel]; omega)
        rw [partedMembers_other isKind, textMembers_other isKind steps colon, value]
        exact (ih tail n (by omega)).bind fun _ => .both _

theorem readDeclaration_word {standing : Standing} (word : Json.Word c j d) :
    readDeclaration standing j = mismatch j .declaration := by
  cases word <;> rw [readDeclaration] <;> simp

theorem textDeclaration_brace {xs : List Char} (head : c.skipBlanks.rest = '\x7b' :: xs) :
    textDeclaration depth c =
      textMembers (depth - 1) none true c.skipBlanks.fuel c.skipBlanks.next >>= fun (m, e) =>
        .ok (settle m.1 m.2, e) := by
  have begins : begun c = .ok c.skipBlanks := by simp [begun, head]
  rw [textDeclaration, begins]
  simp only [bind, Except.bind, head]

theorem textDeclaration_bracket {xs : List Char} (head : c.skipBlanks.rest = '[' :: xs) :
    textDeclaration depth c =
      scanning (c.skipBlanks.next.nextItem true) >>= fun (more, e) =>
        if more then
          textUnder (.index 0) (textKind e) >>= fun (kind, e) =>
            scanning (e.items e.fuel (depth - 1) 1) >>= fun (items, e) =>
              .ok (settleItems kind items, e)
        else failAt e.position (.missing "kind") := by
  have begins : begun c = .ok c.skipBlanks := by simp [begun, head]
  rw [textDeclaration, begins]
  simp only [bind, Except.bind, head]

theorem textDeclaration_word (word : Json.Word c.skipBlanks j d) :
    ∃ f, textDeclaration depth c = .error f := by
  rw [textDeclaration, begun_of_stands (Json.Stands.word word : Json.Stands depth c j d)]
  simp only [bind, Except.bind]
  split
  · rename_i head
    exact absurd rfl (word.opening head).2
  · rename_i head
    exact absurd rfl (word.opening head).1
  · exact textMismatch_fails .declaration c.skipBlanks

/-- A declaration is read in two steps, the first of which is left to the text. -/
theorem textDeclaration_agree (stands : Json.Stands depth c j d) :
    ∃ r : Reading (Reading Declaration),
      Agree d (textDeclaration depth c) r ∧ (r >>= id) = readDeclaration .outside j := by
  cases stands with
  | word word =>
    obtain ⟨f, fails⟩ := textDeclaration_word word
    rw [fails, readDeclaration_word word]
    exact ⟨mismatch j .declaration, .neither f _, rfl⟩
  | @object _ _ _ _ members head inside =>
    -- The text gives the kind and the other members; the value is settled with all of them.
    have taken := Cursor.length_next head
    rw [textDeclaration_brace head]
    refine ⟨partedMembers none members >>= fun parted => .ok (settle parted.1 parted.2), ?_, ?_⟩
    · refine (textMembers_agree inside _ ?_).bind fun _ => .both _
      simp only [Cursor.fuel]
      omega
    · rw [readDeclaration_object]
      unfold partedMembers
      rw [bind_assoc, bind_assoc]
      refine congrArg _ (funext fun kind => ?_)
      exact settle_filter _
  | array head inside =>
    rw [textDeclaration_bracket head]
    cases inside with
    | done closes =>
      rw [closes]
      exact ⟨fail (.missing "kind"), .neither _ _, by rw [readDeclaration]; rfl⟩
    | @more _ _ _ _ e _ first rest steps head tail =>
      have items := tail.read e.fuel 1 rfl (by simp only [Cursor.fuel]; omega)
      refine ⟨atIndex 0 (readKind .outside first) >>= fun kind => .ok (settleItems kind rest),
        ?_, ?_⟩
      · rw [steps]
        refine (((textKind_agree head).textUnder _).atIndex 0).bind fun kind => ?_
        simp only [Nat.add_one_sub_one, items]
        exact .both _
      · rw [readDeclaration_array, bind_assoc]
        refine congrArg _ (funext fun kind => ?_)
        exact settleItems_eq rest

theorem textDeclarationItems_agree {items : List Json} {first : Bool} {index : Nat}
    (inside : Json.Items depth first c items d) (start : (index == 0) = first) (n : Nat)
    (enough : 2 * c.rest.length ≤ n + 2 * d.rest.length) :
    Agree d (textDeclarationItems depth index n c) (readDeclarationItems .outside index items) := by
  induction items generalizing c first index n with
  | nil =>
    cases inside with
    | done closes =>
      have shorter := Cursor.length_nextItem_false closes
      obtain _ | n := n
      · omega
      rw [textDeclarationItems, start, closes]
      exact .both []
  | cons j rest ih =>
    cases inside with
    | @more _ _ _ e f _ _ _ steps head tail =>
      have begins := (Cursor.nextItem_true steps).1.length
      have shorter := head.length
      have others := tail.length
      obtain _ | n := n
      · omega
      rw [textDeclarationItems, start, steps, readDeclarationItems]
      obtain ⟨r, agree, same⟩ := textDeclaration_agree head
      rw [← same]
      change Agree d (textUnder (.index index) (textDeclaration depth e) >>= _) _
      generalize textDeclaration depth e = t at agree
      cases agree with
      | neither f g => exact .neither _ _
      | both settled =>
        cases settled with
        | error f => exact .neither _ _
        | ok a => exact (ih tail rfl n (by omega)).bind fun _ => .both _

/-! ## Files -/

theorem textDeclarations_agree (stands : Json.Stands (nestingLimit - 1) c j d) :
    Agree d (textDeclarations c) (readDeclarations .outside j) := by
  rw [textDeclarations, begun_of_stands stands]
  simp only [bind, Except.bind]
  split
  · rename_i xs head
    obtain ⟨k, items, room, rfl, inside⟩ := stands.of_bracket head
    have level : nestingLimit - 2 = k + 1 := by omega
    have taken := Cursor.length_next head
    rw [level, readDeclarations]
    exact textDeclarationItems_agree inside rfl _ (by simp only [Cursor.fuel]; omega)
  · rename_i notBracket
    obtain ⟨f, fails⟩ := textMismatch_fails (α := List Declaration × Cursor) .sequence c.skipBlanks
    rw [fails]
    cases stands with
    | word word => cases word <;> exact .neither f _
    | array head _ => exact absurd head (notBracket _)
    | object _ _ => exact .neither f _

theorem textSourceMembers_filename {n : Nat} {draft : SourceDraft} {first : Bool} {e : Cursor}
    (fresh : draft.filename.isSome = false) (steps : c.nextKey first = .ok (some "filename", d))
    (colon : d.colon = .ok e) :
    textSourceMembers draft first (n + 1) c =
      textUnder (.key "filename") (textString .string e) >>= fun (s, f) =>
        textSourceMembers { draft with filename := some s } false n f := by
  rw [textSourceMembers, steps]
  simp only [scanning, textUnder, colon, bind, Except.bind, Except.mapError, fresh]
  rfl

theorem textSourceMembers_declarations {n : Nat} {draft : SourceDraft} {first : Bool} {e : Cursor}
    (fresh : draft.declarations.isSome = false)
    (steps : c.nextKey first = .ok (some "declarations", d)) (colon : d.colon = .ok e) :
    textSourceMembers draft first (n + 1) c =
      textUnder (.key "declarations") (textDeclarations e) >>= fun (ds, f) =>
        textSourceMembers { draft with declarations := some ds } false n f := by
  rw [textSourceMembers, steps]
  simp only [scanning, textUnder, colon, bind, Except.bind, Except.mapError, fresh]
  rfl

theorem textSourceMembers_other {n : Nat} {draft : SourceDraft} {first : Bool} {key : String}
    {e f : Cursor} (unknown : key ≠ "filename" ∧ key ≠ "declarations")
    (steps : c.nextKey first = .ok (some key, d)) (colon : d.colon = .ok e)
    (value : e.skip e.fuel = .ok f) :
    textSourceMembers draft first (n + 1) c = textSourceMembers draft false n f := by
  rw [textSourceMembers]
  simp [steps, colon, value, unknown, bind, Except.bind, textUnder, scanning, Except.mapError]

section

variable {n : Nat} {draft : SourceDraft} {first : Bool} {e f g : Cursor}
  {rest : List (String × Json)}

theorem filename_agree (steps : c.nextKey first = .ok (some "filename", e))
    (colon : e.colon = .ok f) (stands : Json.Stands (nestingLimit - 1) f j g)
    (next : ∀ s, Agree d (textSourceMembers { draft with filename := some s } false n g)
      (readSourceMembers { draft with filename := some s } rest)) :
    Agree d (textSourceMembers draft first (n + 1) c)
      (readSourceMembers draft (("filename", j) :: rest)) := by
  rw [readSourceMembers, if_pos rfl]
  cases given : draft.filename with
  | some s =>
    rw [textSourceMembers, steps]
    simp only [scanning, textUnder, bind, Except.bind, Except.mapError, given]
    exact .neither _ _
  | none =>
    rw [textSourceMembers_filename (by rw [given]; rfl) steps colon]
    exact (((textString_agree stands _).textUnder _).atKey _).bind next

theorem declarations_agree (steps : c.nextKey first = .ok (some "declarations", e))
    (colon : e.colon = .ok f) (stands : Json.Stands (nestingLimit - 1) f j g)
    (next : ∀ ds, Agree d (textSourceMembers { draft with declarations := some ds } false n g)
      (readSourceMembers { draft with declarations := some ds } rest)) :
    Agree d (textSourceMembers draft first (n + 1) c)
      (readSourceMembers draft (("declarations", j) :: rest)) := by
  rw [readSourceMembers, if_neg (by decide), if_pos rfl]
  cases given : draft.declarations with
  | some ds =>
    rw [textSourceMembers, steps]
    simp only [scanning, textUnder, bind, Except.bind, Except.mapError, given]
    exact .neither _ _
  | none =>
    rw [textSourceMembers_declarations (by rw [given]; rfl) steps colon]
    exact (((textDeclarations_agree stands).textUnder _).atKey _).bind next

end

theorem textSourceMembers_agree {members : List (String × Json)} {first : Bool}
    {draft : SourceDraft} (inside : Json.Members (nestingLimit - 1) first c members d) (n : Nat)
    (enough : 2 * c.rest.length ≤ n + 2 * d.rest.length) :
    Agree d (textSourceMembers draft first n c) (readSourceMembers draft members) := by
  induction members generalizing c first draft n with
  | nil =>
    cases inside with
    | done closes =>
      have shorter := Cursor.length_nextKey_none closes
      obtain _ | n := n
      · omega
      rw [textSourceMembers, closes, readSourceMembers]
      simp only [bind, Except.bind, textUnder, scanning, Except.mapError]
      cases draft.finish with
      | ok file => exact .both file
      | error f => exact .neither _ f
  | cons m rest ih =>
    cases inside with
    | @more _ _ _ _ e _ _ key _ _ steps colon head tail =>
      have name := Cursor.length_nextKey_some steps
      have behind := Cursor.length_colon colon
      have shorter := head.length
      have others := tail.length
      obtain _ | n := n
      · omega
      by_cases isFilename : key = "filename"
      · subst isFilename
        exact filename_agree steps colon head fun s => ih tail n (by omega)
      by_cases isDeclarations : key = "declarations"
      · subst isDeclarations
        exact declarations_agree steps colon head fun ds => ih tail n (by omega)
      -- What no key of a file announces is stepped over, and no value is made of it.
      have value := head.skip e.fuel e rfl (by simp only [Cursor.fuel]; omega)
      rw [textSourceMembers_other ⟨isFilename, isDeclarations⟩ steps colon value,
        readSourceMembers, if_neg isFilename, if_neg isDeclarations]
      exact ih tail n (by omega)

theorem closeArray_of_done (closes : c.nextItem false = .ok (false, d)) :
    closeArray c = .ok d := by
  obtain ⟨xs, head, rfl⟩ := Cursor.nextItem_false closes
  simp only [closeArray, head]

theorem closeArray_of_more (goes : c.nextItem false = .ok (true, d)) :
    ∃ f, closeArray c = .error f := by
  obtain ⟨entry, x, xs, begins, other⟩ := Cursor.nextItem_true goes
  cases entry with
  | later comma =>
    simp only [closeArray, comma]
    split <;> exact ⟨_, rfl⟩

theorem expectItem_of_more (record : Record) (index : Nat)
    (goes : c.nextItem (index == 0) = .ok (true, d)) : expectItem record index c = .ok d := by
  rw [expectItem, goes]
  rfl

theorem expectItem_of_done (record : Record) (index : Nat)
    (closes : c.nextItem (index == 0) = .ok (false, d)) :
    ∃ f, expectItem record index c = .error f := by
  rw [expectItem, closes]
  exact ⟨_, rfl⟩

theorem textSourceItems_agree {items : List Json}
    (inside : Json.Items (nestingLimit - 1) true c items d) :
    Agree d (textSourceItems c) (readSource (.array items)) := by
  unfold textSourceItems
  cases inside with
  | done closes =>
    obtain ⟨f, fails⟩ := expectItem_of_done .sourceFile 0 closes
    rw [fails]
    exact .neither _ _
  | @more _ _ _ _ f _ _ _ steps head tail =>
    rw [expectItem_of_more .sourceFile 0 steps]
    have filename := ((textString_agree head .string).textUnder (.index 0)).atIndex 0
    cases tail with
    | done closes =>
      refine filename.bind fun s => ?_
      change Agree d (scanning (f.nextItem false) >>= _) _
      rw [closes]
      exact .both _
    | @more _ _ _ _ g _ _ others steps' head' tail' =>
      refine filename.bind fun s => ?_
      change Agree d (scanning (f.nextItem false) >>= _) _
      rw [steps']
      have declarations := ((textDeclarations_agree head').textUnder (.index 1)).atIndex 1
      refine declarations.bind fun ds => ?_
      change Agree d (scanning (closeArray g) >>= _) _
      cases tail' with
      | done closes =>
        rw [closeArray_of_done closes]
        exact .both _
      | more goes _ _ =>
        obtain ⟨fault, fails⟩ := closeArray_of_more goes
        rw [fails]
        exact .neither _ _

theorem textSource_agree (stands : Json.Stands nestingLimit c j d) :
    Agree d (textSource c) (readSource j) := by
  rw [textSource, begun_of_stands stands]
  simp only [bind, Except.bind]
  split
  · rename_i xs head
    obtain ⟨k, members, room, rfl, inside⟩ := stands.of_brace head
    have level : k + 1 = nestingLimit - 1 := by omega
    have taken := Cursor.length_next head
    exact textSourceMembers_agree (level ▸ inside) _ (by simp only [Cursor.fuel]; omega)
  · rename_i xs head
    obtain ⟨k, items, room, rfl, inside⟩ := stands.of_bracket head
    have level : k + 1 = nestingLimit - 1 := by omega
    exact textSourceItems_agree (level ▸ inside)
  · rename_i notBrace notBracket
    obtain ⟨f, fails⟩ := textMismatch_fails (α := SourceFile × Cursor) (.record .sourceFile)
      c.skipBlanks
    rw [fails]
    cases stands with
    | word word => cases word <;> exact .neither f _
    | array head _ => exact absurd head (notBracket _)
    | object head _ => exact absurd head (notBrace _)

end Document

/-- What stands at the beginning of a text decides what is read of it. -/
theorem SourceFile.ofText_of_stands {text : String} {j : Json} {d : Cursor}
    (stands : Json.Stands nestingLimit (.ofString text) j d) (distinct : j.Distinct) :
    (SourceFile.ofText text).toOption = (SourceFile.ofJson j).toOption := by
  unfold SourceFile.ofText SourceFile.ofJson
  rw [Json.unrepeated_of_distinct j distinct]
  exact (Document.textSource_agree stands).toOption

/-- A text that is one value without repeated keys, and the value, are read as the same file, or
neither is read as one. -/
theorem text_read_as_value {text : String} {j : Json} (parsed : Json.parse text = .ok j)
    (distinct : j.Distinct) :
    (SourceFile.ofText text).toOption = (SourceFile.ofJson j).toOption := by
  obtain ⟨d, stands⟩ := Json.stands_of_parse parsed
  exact SourceFile.ofText_of_stands stands distinct

/-- An unknown key, a kind that is not in front, and a type written as an array. -/
def shuffledText : String :=
  " \x7b\"x\":[1],\"declarations\":" ++
    "[\x7b\"name\":\"Id\",\"kind\":\"typealias\",\"type\":[\"Int\"]\x7d],
    \"filename\":\"A.swift\"\x7d "

def shuffledValue : Json :=
  .object [("x", .array [.number (.natural 1)]),
    ("declarations", .array [
      .object [("name", .string "Id"), ("kind", .string "typealias"),
        ("type", .array [.string "Int"])]]),
    ("filename", .string "A.swift")]

set_option maxRecDepth 1024 in
theorem text_read_as_value_shuffled :
    Json.parse shuffledText = .ok shuffledValue ∧ shuffledValue.Distinct ∧
      (SourceFile.ofText shuffledText).toOption = (SourceFile.ofJson shuffledValue).toOption := by
  have parsed : Json.parse shuffledText = .ok shuffledValue := by rfl
  have distinct : shuffledValue.Distinct := by
    simp [shuffledValue, Json.Distinct, Json.DistinctItems, Json.DistinctMembers]
  exact ⟨parsed, distinct, text_read_as_value parsed distinct⟩

end SwiftCodec
