import SwiftCodec.Proofs.Json.Grammar

/-!
Stepping over a value. A value that stands in a text is stepped over, and the cursor is left where
reading the value would have left it; what is stepped over begins behind blanks just the same.
-/
namespace SwiftCodec

namespace Json

variable {b c d e : Cursor} {j : Json} {depth : Nat} {first : Bool}

theorem Word.skip (word : Word b.skipBlanks j d) (n : Nat) : b.skip (n + 1) = .ok d := by
  cases word with
  | null head read => simp only [Cursor.skip, head, read]
  | true head read => simp only [Cursor.skip, head, read]
  | false head read => simp only [Cursor.skip, head, read]
  | string head read => simp only [Cursor.skip, head, Cursor.skipString_of_stringRest read]
  | @number x xs n d head starts read =>
    obtain ⟨-, m, numeral⟩ := Cursor.number_eq_ok read
    have notN : x ≠ 'n' := by rintro rfl; revert starts; decide
    have notT : x ≠ 't' := by rintro rfl; revert starts; decide
    have notF : x ≠ 'f' := by rintro rfl; revert starts; decide
    have notQ : x ≠ '\x22' := by rintro rfl; revert starts; decide
    have notBracket : x ≠ '[' := by rintro rfl; revert starts; decide
    have notBrace : x ≠ '\x7b' := by rintro rfl; revert starts; decide
    simp [Cursor.skip, head, starts, numeral, Except.map]

/-- An array ends or goes on; so does an object. -/
theorem Items.steps {js : List Json} (items : Items depth first c js d) :
    js = [] ∧ c.nextItem first = .ok (false, d) ∨ ∃ e, c.nextItem first = .ok (true, e) := by
  cases items with
  | done closes => exact .inl ⟨rfl, closes⟩
  | more steps _ _ => exact .inr ⟨_, steps⟩

theorem Members.steps {ms : List (String × Json)} (members : Members depth first c ms d) :
    ms = [] ∧ c.nextKey first = .ok (none, d) ∨ ∃ k e, c.nextKey first = .ok (some k, e) := by
  cases members with
  | done closes => exact .inl ⟨rfl, closes⟩
  | more steps _ _ _ => exact .inr ⟨_, _, steps⟩

/-! ## Brackets and braces -/

theorem skip_array_done {n : Nat} {xs ys : List Char} (head : b.skipBlanks.rest = '[' :: xs)
    (closes : b.skipBlanks.next.skipBlanks.rest = ']' :: ys) :
    b.skip (n + 1) = .ok b.skipBlanks.next.skipBlanks.next := by
  simp only [Cursor.skip, head, closes]

theorem skip_array_more {n : Nat} {x : Char} {xs ys : List Char}
    (head : b.skipBlanks.rest = '[' :: xs)
    (goes : b.skipBlanks.next.skipBlanks.rest = x :: ys) (other : x ≠ ']') :
    b.skip (n + 1) = b.skipBlanks.next.skipBlanks.skipItems n := by
  simp only [Cursor.skip, head, goes]
  split
  · contradiction
  · rename_i same
    exact absurd (List.cons.inj same).1 other
  · rfl

theorem skip_object_done {n : Nat} {xs ys : List Char} (head : b.skipBlanks.rest = '\x7b' :: xs)
    (closes : b.skipBlanks.next.skipBlanks.rest = '\x7d' :: ys) :
    b.skip (n + 1) = .ok b.skipBlanks.next.skipBlanks.next := by
  simp only [Cursor.skip, head, closes]

theorem skip_object_more {n : Nat} {xs ys : List Char} (head : b.skipBlanks.rest = '\x7b' :: xs)
    (goes : b.skipBlanks.next.skipBlanks.rest = '\x22' :: ys) :
    b.skip (n + 1) = b.skipBlanks.next.skipBlanks.skipMembers n := by
  simp [Cursor.skip, head, goes]

theorem skipItems_close {n : Nat} {xs : List Char} (item : b.skip n = .ok e)
    (closes : e.skipBlanks.rest = ']' :: xs) : b.skipItems (n + 1) = .ok e.skipBlanks.next := by
  simp only [Cursor.skipItems, item, bind, Except.bind, closes]

theorem skipItems_comma {n : Nat} {xs : List Char} (item : b.skip n = .ok e)
    (comma : e.skipBlanks.rest = ',' :: xs) :
    b.skipItems (n + 1) = e.skipBlanks.next.skipItems n := by
  simp only [Cursor.skipItems, item, bind, Except.bind, comma]

section

variable {n : Nat} {xs ys : List Char} {key : String} {f : Cursor}

theorem skipMembers_close (quote : b.skipBlanks.rest = '\x22' :: xs)
    (name : b.skipBlanks.next.stringRest = .ok (key, c)) (colon : c.colon = .ok d)
    (value : d.skip n = .ok f) (closes : f.skipBlanks.rest = '\x7d' :: ys) :
    b.skipMembers (n + 1) = .ok f.skipBlanks.next := by
  have skipped := Cursor.skipString_of_stringRest name
  simp only [Cursor.skipMembers, quote, skipped, colon, value, bind, Except.bind, closes]

theorem skipMembers_comma (quote : b.skipBlanks.rest = '\x22' :: xs)
    (name : b.skipBlanks.next.stringRest = .ok (key, c)) (colon : c.colon = .ok d)
    (value : d.skip n = .ok f) (comma : f.skipBlanks.rest = ',' :: ys) :
    b.skipMembers (n + 1) = f.skipBlanks.next.skipMembers n := by
  have skipped := Cursor.skipString_of_stringRest name
  simp only [Cursor.skipMembers, quote, skipped, colon, value, bind, Except.bind, comma]

end

/-! ## Values -/

mutual
/-- A value that stands in a text is stepped over, by as many steps as there are half characters. -/
theorem Stands.skip {depth : Nat} {c d : Cursor} {j : Json} :
    Stands depth c j d → ∀ (n : Nat) (b : Cursor), b.skipBlanks = c.skipBlanks →
      2 * c.rest.length ≤ n + 2 * d.rest.length → b.skip n = .ok d
  | .word word, n, b, same, enough => by
    have shorter := Stands.length_word word
    obtain _ | n := n
    · omega
    · exact Word.skip (same ▸ word) n
  | .array head inside, n, b, same, enough => by
    have behind := Cursor.length_behind head
    have blanks := Cursor.length_skipBlanks (c := c.skipBlanks.next)
    have shorter := Items.length inside
    obtain _ | n := n
    · omega
    rcases inside.steps with ⟨-, closes⟩ | ⟨e, steps⟩
    · obtain ⟨xs, bracket, rfl⟩ := Cursor.nextItem_false closes
      rw [skip_array_done (same ▸ head) (same ▸ bracket), same]
    · obtain ⟨entry, x, xs, begins, other⟩ := Cursor.nextItem_true steps
      cases entry
      rw [skip_array_more (same ▸ head) (same ▸ begins) other, same]
      exact Items.skip inside _ steps n _ (Cursor.skipBlanks_skipBlanks _) (by omega)
  | .object head inside, n, b, same, enough => by
    have behind := Cursor.length_behind head
    have blanks := Cursor.length_skipBlanks (c := c.skipBlanks.next)
    have shorter := Members.length inside
    obtain _ | n := n
    · omega
    rcases inside.steps with ⟨-, closes⟩ | ⟨k, e, steps⟩
    · obtain ⟨xs, brace, rfl⟩ := Cursor.nextKey_none closes
      rw [skip_object_done (same ▸ head) (same ▸ brace), same]
    · obtain ⟨e', xs, entry, quote, -⟩ := Cursor.nextKey_some steps
      cases entry
      rw [skip_object_more (same ▸ head) (same ▸ quote), same]
      refine Members.skip inside k e steps n _ ?_ (by omega)
      rw [Cursor.skipBlanks_skipBlanks]
      exact .first
theorem Items.skip {depth : Nat} {first : Bool} {c d : Cursor} {js : List Json} :
    Items depth first c js d → ∀ e, c.nextItem first = .ok (true, e) →
      ∀ (n : Nat) (b : Cursor), b.skipBlanks = e →
        2 * b.rest.length + 1 ≤ n + 2 * d.rest.length → b.skipItems n = .ok d
  | .done closes, e, steps, n, b, same, enough => by
    rw [closes] at steps
    cases steps
  | .more steps' head tail, e, steps, n, b, same, enough => by
    rw [steps'] at steps
    cases steps
    subst same
    have blanks := Cursor.length_skipBlanks (c := b)
    have shorter := Stands.length head
    have rest := Items.length tail
    obtain _ | n := n
    · omega
    have value := Stands.skip head n b (Cursor.skipBlanks_skipBlanks b).symm (by omega)
    rcases tail.steps with ⟨-, closes⟩ | ⟨f, goes⟩
    · obtain ⟨xs, bracket, rfl⟩ := Cursor.nextItem_false closes
      exact skipItems_close value bracket
    · obtain ⟨entry, -⟩ := Cursor.nextItem_true goes
      cases entry with
      | later comma =>
        -- The comma is taken here; the blanks behind it are left to the next item.
        rw [skipItems_comma value comma]
        have behind := Cursor.length_behind comma
        exact Items.skip tail _ goes n _ rfl (by omega)
theorem Members.skip {depth : Nat} {first : Bool} {c d : Cursor} {ms : List (String × Json)} :
    Members depth first c ms d → ∀ k e, c.nextKey first = .ok (some k, e) →
      ∀ (n : Nat) (b : Cursor), Cursor.Entry c first b.skipBlanks →
        2 * b.rest.length + 1 ≤ n + 2 * d.rest.length → b.skipMembers n = .ok d
  | .done closes, k, e, steps, n, b, entry, enough => by
    rw [closes] at steps
    cases steps
  | .more steps' colon head tail, k, e, steps, n, b, entry, enough => by
    obtain ⟨e', xs, entry', quote, name⟩ := Cursor.nextKey_some steps'
    obtain rfl := entry'.unique entry
    have blanks := Cursor.length_skipBlanks (c := b)
    have taken := Cursor.length_next quote
    have key := Cursor.length_stringRest name
    have behind := Cursor.length_colon colon
    have shorter := Stands.length head
    have rest := Members.length tail
    obtain _ | n := n
    · omega
    have value := Stands.skip head n _ rfl (by omega)
    rcases tail.steps with ⟨-, closes⟩ | ⟨k', f, goes⟩
    · obtain ⟨xs, brace, rfl⟩ := Cursor.nextKey_none closes
      exact skipMembers_close quote name colon value brace
    · obtain ⟨f', xs, next, -, -⟩ := Cursor.nextKey_some goes
      cases next with
      | later comma =>
        rw [skipMembers_comma quote name colon value comma]
        have behind := Cursor.length_behind comma
        exact Members.skip tail _ _ goes n _ (.later comma) (by omega)
end

end Json

end SwiftCodec
