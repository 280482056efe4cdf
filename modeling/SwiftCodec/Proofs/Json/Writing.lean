import SwiftCodec.Json.Writer
import SwiftCodec.Proofs.Json.Depth

/-!
Reading what was written. The compact text of a value made of strings, arrays and objects has that
value standing in it, whatever follows the text, and at every limit that leaves room for it.
-/
namespace SwiftCodec

namespace Json

/-! ## Strings -/

theorem hexValue?_hexDigit {n : Nat} (small : n < 16) : Cursor.hexValue? (hexDigit n) = some n := by
  have all : ∀ n < 16, Cursor.hexValue? (hexDigit n) = some n := by decide
  exact all n small

theorem fourDigits_of_hex {c : Cursor} {n : Nat} (hex : Cursor.fourHex? (c.rest.take 4) = some n) :
    c.fourDigits = .ok (n, ⟨c.rest.drop 4, c.position.afterBytes 4 c.rest⟩) := by
  simp only [Cursor.fourDigits, hex]

theorem unicodeEscape_of_fourDigits {c d : Cursor} {n : Nat} (four : c.fourDigits = .ok (n, d))
    (low : n < 0xD800) : c.unicodeEscape = .ok (Char.ofNat n, d) := by
  unfold Cursor.unicodeEscape
  rw [four]
  change (if _ then _ else if _ then _ else _) = _
  rw [if_neg (by omega), if_pos (by omega)]

/-- A control character is written as the digits of its number. -/
theorem unicodeEscape_control {x : Char} (control : x.toNat < 32) (rest : List Char)
    (p : Position) :
    ∃ q, Cursor.unicodeEscape
      ⟨'0' :: '0' :: hexDigit (x.toNat / 16) :: hexDigit (x.toNat % 16) :: rest, p⟩ =
        .ok (x, ⟨rest, q⟩) := by
  have high := hexValue?_hexDigit (n := x.toNat / 16) (by omega)
  have low := hexValue?_hexDigit (n := x.toNat % 16) (by omega)
  have zero : Cursor.hexValue? '0' = some 0 := by decide
  have value : 4096 * 0 + 256 * 0 + 16 * (x.toNat / 16) + x.toNat % 16 = x.toNat := by omega
  have digits : Cursor.fourHex? ['0', '0', hexDigit (x.toNat / 16), hexDigit (x.toNat % 16)] =
      some x.toNat := by
    simp only [Cursor.fourHex?, high, low, zero, Option.bind_eq_bind, Option.bind_some, value]
    rfl
  let c : Cursor := ⟨'0' :: '0' :: hexDigit (x.toNat / 16) :: hexDigit (x.toNat % 16) :: rest, p⟩
  have read := unicodeEscape_of_fourDigits (fourDigits_of_hex (c := c) digits) (by omega)
  rw [Char.ofNat_toNat] at read
  exact ⟨_, read⟩

/-- A character stands for itself, or is named behind a backslash. -/
theorem escapeChar_cases (x : Char) :
    (escapeChar x = [x] ∧ x ≠ '\x22' ∧ x ≠ '\\' ∧ ¬ x.toNat < 32) ∨
      ∃ tail, escapeChar x = '\\' :: tail ∧
        ∀ rest p, ∃ q, Cursor.escape ⟨tail ++ rest, p⟩ = .ok (x, ⟨rest, q⟩) := by
  unfold escapeChar
  split
  · exact .inr ⟨_, rfl, fun rest p => ⟨_, rfl⟩⟩
  · exact .inr ⟨_, rfl, fun rest p => ⟨_, rfl⟩⟩
  · exact .inr ⟨_, rfl, fun rest p => ⟨_, rfl⟩⟩
  · exact .inr ⟨_, rfl, fun rest p => ⟨_, rfl⟩⟩
  · exact .inr ⟨_, rfl, fun rest p => ⟨_, rfl⟩⟩
  · exact .inr ⟨_, rfl, fun rest p => ⟨_, rfl⟩⟩
  · exact .inr ⟨_, rfl, fun rest p => ⟨_, rfl⟩⟩
  · rename_i quote backslash _ _ _ _ _
    split
    · rename_i control
      exact .inr ⟨_, rfl, fun rest p => unicodeEscape_control control rest _⟩
    · rename_i visible
      exact .inl ⟨rfl, quote, backslash, visible⟩

theorem stringBody_escaped (xs rest : List Char) (p : Position) (n : Nat)
    (enough : (xs.flatMap escapeChar).length < n) :
    ∃ q, Cursor.stringBody n ⟨xs.flatMap escapeChar ++ '\x22' :: rest, p⟩ =
      .ok (xs, ⟨rest, q⟩) := by
  induction xs generalizing p n with
  | nil =>
    obtain _ | n := n
    · omega
    exact ⟨_, rfl⟩
  | cons x xs ih =>
    rw [List.flatMap_cons, List.length_append] at enough
    rw [List.flatMap_cons, List.append_assoc]
    obtain _ | n := n
    · omega
    rcases escapeChar_cases x with ⟨plain, quote, backslash, visible⟩ | ⟨tail, escaped, named⟩
    · rw [plain, List.length_singleton] at enough
      obtain ⟨q, body⟩ := ih (p.after x) n (by omega)
      refine ⟨q, ?_⟩
      rw [plain, List.singleton_append, Cursor.stringBody_plain rfl quote backslash visible]
      exact bind_eq_ok.mpr ⟨_, body, rfl⟩
    · rw [escaped, List.length_cons] at enough
      obtain ⟨q, escape⟩ := named (xs.flatMap escapeChar ++ '\x22' :: rest) (p.after '\\')
      obtain ⟨r, body⟩ := ih q n (by omega)
      refine ⟨r, ?_⟩
      rw [escaped, List.cons_append, Cursor.stringBody_backslash rfl]
      exact bind_eq_ok.mpr ⟨_, escape, bind_eq_ok.mpr ⟨_, body, rfl⟩⟩

theorem toList_quote (s : String) :
    (quote s).toList = '\x22' :: (s.toList.flatMap escapeChar ++ ['\x22']) := by
  rw [quote, String.toList_ofList, List.cons_append]

theorem stringRest_quoted (s : String) (rest : List Char) (p : Position) :
    ∃ q, Cursor.stringRest ⟨s.toList.flatMap escapeChar ++ '\x22' :: rest, p⟩ =
      .ok (s, ⟨rest, q⟩) := by
  obtain ⟨q, body⟩ := stringBody_escaped s.toList rest p
    ((s.toList.flatMap escapeChar ++ '\x22' :: rest).length + 1)
    (by rw [List.length_append]; omega)
  refine ⟨q, bind_eq_ok.mpr ⟨_, body, ?_⟩⟩
  change Except.ok (String.ofList s.toList, _) = _
  rw [String.ofList_toList]

/-! ## Punctuation without blanks -/

variable {c d : Cursor} {first : Bool} {x : Char} {xs : List Char}

theorem nextItem_close (head : c.rest = ']' :: xs) : c.nextItem first = .ok (false, c.next) := by
  have solid := Cursor.skipBlanks_of_head head (by decide)
  simp only [Cursor.nextItem, solid, head]

theorem nextItem_first (head : c.rest = x :: xs) (solid : ¬ Cursor.isBlank x) (other : x ≠ ']') :
    c.nextItem true = .ok (true, c) := by
  simp [Cursor.nextItem, Cursor.skipBlanks_of_head head solid, head]

theorem nextItem_comma (head : c.rest = ',' :: x :: xs) (solid : ¬ Cursor.isBlank x)
    (other : x ≠ ']') : c.nextItem false = .ok (true, c.next) := by
  have behind : c.next.rest = x :: xs := by rw [Cursor.rest_next, head, List.tail_cons]
  simp [Cursor.nextItem, Cursor.skipBlanks_of_head head (by decide), head,
    Cursor.skipBlanks_of_head behind solid, behind, other]

theorem nextKey_close (head : c.rest = '\x7d' :: xs) : c.nextKey first = .ok (none, c.next) := by
  have solid := Cursor.skipBlanks_of_head head (by decide)
  simp only [Cursor.nextKey, solid, head]

theorem nextKey_first {key : String} (head : c.rest = '\x22' :: xs)
    (name : c.next.stringRest = .ok (key, d)) : c.nextKey true = .ok (some key, d) := by
  simp [Cursor.nextKey, Cursor.skipBlanks_of_head head (by decide), head, name, bind, Except.bind]

theorem nextKey_comma {key : String} (head : c.rest = ',' :: '\x22' :: xs)
    (name : c.next.next.stringRest = .ok (key, d)) : c.nextKey false = .ok (some key, d) := by
  have behind : c.next.rest = '\x22' :: xs := by rw [Cursor.rest_next, head, List.tail_cons]
  simp [Cursor.nextKey, Cursor.skipBlanks_of_head head (by decide), head,
    Cursor.skipBlanks_of_head behind (by decide), behind, name, bind, Except.bind]

theorem colon_head (head : c.rest = ':' :: xs) : c.colon = .ok c.next := by
  simp only [Cursor.colon, Cursor.skipBlanks_of_head head (by decide), head]

/-! ## Values -/

mutual
/-- A value made of strings, arrays and objects. -/
def Textual : Json → Prop
  | .string _ => True
  | .array items => TextualItems items
  | .object members => TextualMembers members
  | _ => False
termination_by structural j => j
def TextualItems : List Json → Prop
  | [] => True
  | j :: rest => Textual j ∧ TextualItems rest
termination_by structural js => js
def TextualMembers : List (String × Json) → Prop
  | [] => True
  | (_, j) :: rest => Textual j ∧ TextualMembers rest
termination_by structural ms => ms
end

theorem textualItems_iff {items : List Json} : TextualItems items ↔ ∀ j ∈ items, j.Textual := by
  induction items with
  | nil => simp [TextualItems]
  | cons j rest ih => rw [TextualItems, ih, List.forall_mem_cons]

theorem textualMembers_iff {members : List (String × Json)} :
    TextualMembers members ↔ ∀ m ∈ members, m.2.Textual := by
  induction members with
  | nil => simp [TextualMembers]
  | cons m rest ih => rw [TextualMembers, ih, List.forall_mem_cons]

theorem toList_compact_string (s : String) :
    (compact (.string s)).toList = '\x22' :: (s.toList.flatMap escapeChar ++ ['\x22']) := by
  rw [compact, toList_quote]

theorem toList_compact_array (j : Json) (rest : List Json) :
    (compact (.array (j :: rest))).toList =
      '[' :: (j.compact.toList ++ ((compactItems rest).toList ++ [']'])) := by
  simp [compact, List.append_assoc]

theorem toList_compactItems (j : Json) (rest : List Json) :
    (compactItems (j :: rest)).toList =
      ',' :: (j.compact.toList ++ (compactItems rest).toList) := by
  simp [compactItems]

theorem toList_compact_object (k : String) (j : Json) (rest : List (String × Json)) :
    (compact (.object ((k, j) :: rest))).toList =
      '\x7b' :: ((quote k).toList ++
        ':' :: (j.compact.toList ++ ((compactMembers rest).toList ++ ['\x7d']))) := by
  simp [compact, List.append_assoc]

theorem toList_compactMembers (k : String) (j : Json) (rest : List (String × Json)) :
    (compactMembers ((k, j) :: rest)).toList =
      ',' :: ((quote k).toList ++ ':' :: (j.compact.toList ++ (compactMembers rest).toList)) := by
  simp [compactMembers, List.append_assoc]

theorem compact_opens {j : Json} (textual : j.Textual) (rest : List Char) :
    ∃ x xs, j.compact.toList ++ rest = x :: xs ∧ ¬ Cursor.isBlank x ∧ x ≠ ']' := by
  cases j with
  | string s =>
    rw [toList_compact_string]
    exact ⟨_, _, rfl, by decide, by decide⟩
  | array items =>
    cases items with
    | nil => exact ⟨'[', ']' :: rest, rfl, by decide, by decide⟩
    | cons j items =>
      rw [toList_compact_array]
      exact ⟨_, _, rfl, by decide, by decide⟩
  | object members =>
    cases members with
    | nil => exact ⟨'\x7b', '\x7d' :: rest, rfl, by decide, by decide⟩
    | cons m members =>
      rw [toList_compact_object]
      exact ⟨_, _, rfl, by decide, by decide⟩
  | null | bool | number => exact textual.elim

theorem stands_array {limit : Nat} {items : List Json} {p : Position}
    (inside : Items (limit + 1) true ⟨xs, p.after '['⟩ items d) :
    Stands (limit + 2) ⟨'[' :: xs, p⟩ (.array items) d := by
  have solid := Cursor.skipBlanks_of_head (c := ⟨'[' :: xs, p⟩) rfl (by decide)
  refine .array (show _ = '[' :: xs by rw [solid]) ?_
  rw [solid]
  exact inside

theorem stands_object {limit : Nat} {members : List (String × Json)} {p : Position}
    (inside : Members (limit + 1) true ⟨xs, p.after '\x7b'⟩ members d) :
    Stands (limit + 2) ⟨'\x7b' :: xs, p⟩ (.object members) d := by
  have solid := Cursor.skipBlanks_of_head (c := ⟨'\x7b' :: xs, p⟩) rfl (by decide)
  refine .object (show _ = '\x7b' :: xs by rw [solid]) ?_
  rw [solid]
  exact inside

/-- A key in quotes and the colon behind it lead to the value. -/
theorem key_written (k : String) (text : List Char) (p : Position) :
    ∃ ys e q, (quote k).toList ++ ':' :: text = '\x22' :: ys ∧
      Cursor.stringRest ⟨ys, p⟩ = .ok (k, e) ∧ e.colon = .ok ⟨text, q⟩ := by
  obtain ⟨q, read⟩ := stringRest_quoted k (':' :: text) p
  refine ⟨_, _, _, ?_, read, colon_head rfl⟩
  rw [toList_quote, List.cons_append, List.append_assoc]
  rfl

mutual
/-- The compact text of a value has that value standing in it, whatever follows. -/
theorem stands_compact : ∀ (j : Json), j.Textual → ∀ limit, j.depth < limit → ∀ rest p,
    ∃ q, Stands limit ⟨j.compact.toList ++ rest, p⟩ j ⟨rest, q⟩
  | .string s, _, limit, _, rest, p => by
    obtain ⟨q, read⟩ := stringRest_quoted s rest (p.after '\x22')
    refine ⟨q, .word ?_⟩
    rw [toList_compact_string, List.cons_append, List.append_assoc,
      Cursor.skipBlanks_of_head rfl (by decide)]
    exact .string rfl read
  | .array [], _, limit, room, rest, p => by
    obtain ⟨k, rfl⟩ : ∃ k, limit = k + 2 := ⟨limit - 2, by rw [depth] at room; omega⟩
    exact ⟨_, stands_array (.done (nextItem_close rfl))⟩
  | .array (j :: items), textual, limit, room, rest, p => by
    rw [depth, depthItems] at room
    obtain ⟨k, rfl⟩ : ∃ k, limit = k + 2 := ⟨limit - 2, by omega⟩
    obtain ⟨x, xs, opens, solid, other⟩ := compact_opens textual.1
      ((compactItems items).toList ++ ']' :: rest)
    obtain ⟨q, head⟩ := stands_compact j textual.1 (k + 1) (by omega)
      ((compactItems items).toList ++ ']' :: rest) (p.after '[')
    obtain ⟨r, tail⟩ := items_compact items textual.2 (k + 1) (by omega) rest q
    refine ⟨r, ?_⟩
    rw [toList_compact_array, List.cons_append, List.append_assoc, List.append_assoc]
    exact stands_array (.more (nextItem_first opens solid other) head tail)
  | .object [], _, limit, room, rest, p => by
    obtain ⟨k, rfl⟩ : ∃ k, limit = k + 2 := ⟨limit - 2, by rw [depth] at room; omega⟩
    exact ⟨_, stands_object (.done (nextKey_close rfl))⟩
  | .object ((key, j) :: members), textual, limit, room, rest, p => by
    rw [depth, depthMembers] at room
    obtain ⟨k, rfl⟩ : ∃ k, limit = k + 2 := ⟨limit - 2, by omega⟩
    obtain ⟨ys, e, q, opens, name, colon⟩ := key_written key
      (j.compact.toList ++ ((compactMembers members).toList ++ '\x7d' :: rest))
      ((p.after '\x7b').after '\x22')
    obtain ⟨r, head⟩ := stands_compact j textual.1 (k + 1) (by omega)
      ((compactMembers members).toList ++ '\x7d' :: rest) q
    obtain ⟨s, tail⟩ := members_compact members textual.2 (k + 1) (by omega) rest r
    refine ⟨s, ?_⟩
    have text : (compact (.object ((key, j) :: members))).toList ++ rest =
        '\x7b' :: '\x22' :: ys := by
      rw [toList_compact_object, ← opens]
      simp
    rw [text]
    exact stands_object (.more (nextKey_first rfl name) colon head tail)
theorem items_compact : ∀ (js : List Json), TextualItems js → ∀ limit, depthItems js < limit →
    ∀ rest p, ∃ q, Items limit false ⟨(compactItems js).toList ++ ']' :: rest, p⟩ js ⟨rest, q⟩
  | [], _, _, _, rest, p => ⟨_, .done (nextItem_close rfl)⟩
  | j :: items, textual, limit, room, rest, p => by
    rw [depthItems] at room
    obtain ⟨x, xs, opens, solid, other⟩ := compact_opens textual.1
      ((compactItems items).toList ++ ']' :: rest)
    obtain ⟨q, head⟩ := stands_compact j textual.1 limit (by omega)
      ((compactItems items).toList ++ ']' :: rest) (p.after ',')
    obtain ⟨r, tail⟩ := items_compact items textual.2 limit (by omega) rest q
    refine ⟨r, ?_⟩
    rw [toList_compactItems, List.cons_append, List.append_assoc]
    exact .more (nextItem_comma (congrArg (',' :: ·) opens) solid other) head tail
theorem members_compact : ∀ (ms : List (String × Json)), TextualMembers ms → ∀ limit,
    depthMembers ms < limit → ∀ rest p, ∃ q,
      Members limit false ⟨(compactMembers ms).toList ++ '\x7d' :: rest, p⟩ ms ⟨rest, q⟩
  | [], _, _, _, rest, p => ⟨_, .done (nextKey_close rfl)⟩
  | (key, j) :: members, textual, limit, room, rest, p => by
    rw [depthMembers] at room
    obtain ⟨ys, e, q, opens, name, colon⟩ := key_written key
      (j.compact.toList ++ ((compactMembers members).toList ++ '\x7d' :: rest))
      ((p.after ',').after '\x22')
    obtain ⟨r, head⟩ := stands_compact j textual.1 limit (by omega)
      ((compactMembers members).toList ++ '\x7d' :: rest) q
    obtain ⟨s, tail⟩ := members_compact members textual.2 limit (by omega) rest r
    refine ⟨s, ?_⟩
    have text : (compactMembers ((key, j) :: members)).toList ++ '\x7d' :: rest =
        ',' :: '\x22' :: ys := by
      rw [toList_compactMembers, ← opens]
      simp
    rw [text]
    exact .more (nextKey_comma rfl name) colon head tail
end

end Json

end SwiftCodec
