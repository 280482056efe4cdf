import SwiftCodec.Json.Parser
import SwiftCodec.Proofs.Defect.Traversal

/-!
What the readers of words take off a text. A word that is read is not empty, and the readers that
only step over words stop where the others do.
-/
namespace SwiftCodec

namespace Cursor

variable {c d : Cursor}

theorem rest_next : c.next.rest = c.rest.tail := by
  unfold next
  split <;> rename_i h <;> simp [h]

theorem length_next {x : Char} {xs : List Char} (head : c.rest = x :: xs) :
    c.next.rest.length + 1 = c.rest.length := by
  simp [rest_next, head]

/-! ## Blanks -/

theorem rest_skipBlanks : c.skipBlanks.rest = c.rest.dropWhile isBlank := by
  unfold skipBlanks
  generalize c.rest = xs
  generalize c.position = p
  induction xs generalizing p with
  | nil => rfl
  | cons x xs ih =>
    unfold skipBlanksFrom
    by_cases blank : isBlank x
    · simp [blank, ih]
    · simp [blank]

theorem length_skipBlanks : c.skipBlanks.rest.length ≤ c.rest.length := by
  rw [rest_skipBlanks]
  exact (List.dropWhile_sublist _).length_le

theorem length_behind {x : Char} {xs : List Char} (head : c.skipBlanks.rest = x :: xs) :
    c.skipBlanks.next.rest.length < c.rest.length := by
  have blanks := length_skipBlanks (c := c)
  have taken := length_next head
  omega

theorem skipBlanks_of_head {x : Char} {xs : List Char} (head : c.rest = x :: xs)
    (solid : ¬ isBlank x) : c.skipBlanks = c := by
  obtain ⟨rest, p⟩ := c
  obtain rfl : rest = x :: xs := head
  simp [skipBlanks, skipBlanksFrom, solid]

theorem skipBlanks_skipBlanks (c : Cursor) : c.skipBlanks.skipBlanks = c.skipBlanks := by
  cases h : c.skipBlanks.rest with
  | nil =>
    generalize c.skipBlanks = d at h
    obtain ⟨rest, p⟩ := d
    obtain rfl : rest = [] := h
    rfl
  | cons x xs =>
    have solid : ¬ isBlank x := by
      have dropped : c.rest.dropWhile isBlank = x :: xs := rest_skipBlanks.symm.trans h
      have first := List.head?_dropWhile_not isBlank c.rest
      rw [dropped] at first
      simpa using first
    exact skipBlanks_of_head h solid

/-! ## Literals -/

theorem length_literal {ws : List Char} (read : literal ws c = .ok d) :
    d.rest.length + ws.length = c.rest.length := by
  induction ws generalizing c with
  | nil =>
    cases read
    rfl
  | cons w ws ih =>
    unfold literal at read
    split at read
    · cases read
    · rename_i x xs head
      split at read
      · have shorter := ih read
        have taken := length_next head
        rw [List.length_cons]
        omega
      · cases read

/-! ## Strings -/

theorem length_of_fourHex {cs : List Char} {n : Nat} (h : fourHex? cs = some n) :
    cs.length = 4 := by
  unfold fourHex? at h
  split at h
  · rfl
  · cases h

theorem length_fourDigits {n : Nat} (read : c.fourDigits = .ok (n, d)) :
    d.rest.length + 4 = c.rest.length := by
  unfold fourDigits at read
  split at read
  · rename_i m found
    cases read
    have four := length_of_fourHex found
    rw [List.length_take] at four
    simp only [List.length_drop]
    omega
  · split at read <;> cases read

theorem expectSurrogate_eq_ok {x : Char} (read : c.expectSurrogate x = .ok d) :
    ∃ xs, c.rest = x :: xs ∧ d = c.next := by
  unfold expectSurrogate at read
  split at read
  · cases read
  · rename_i y ys head
    split at read
    · rename_i same
      cases read
      exact ⟨ys, same ▸ head, rfl⟩
    · cases read

/-- Four digits, or two times four of them for a pair of surrogates. -/
theorem unicodeEscape_digits {x : Char} (read : c.unicodeEscape = .ok (x, d)) :
    (∃ n, c.fourDigits = .ok (n, d)) ∨
      ∃ n m e xs, c.fourDigits = .ok (n, e) ∧ e.rest = '\\' :: 'u' :: xs ∧
        e.next.next.fourDigits = .ok (m, d) := by
  unfold unicodeEscape at read
  obtain ⟨⟨n, e⟩, four, value⟩ := bind_eq_ok.mp read
  dsimp only at value
  split at value
  · cases value
  split at value
  · cases value
    exact .inl ⟨n, four⟩
  · obtain ⟨e', backslash, pair⟩ := bind_eq_ok.mp value
    obtain ⟨e'', letter, low⟩ := bind_eq_ok.mp pair
    obtain ⟨⟨m, d'⟩, four', last⟩ := bind_eq_ok.mp low
    have behind : d' = d := by
      dsimp only at last
      split at last
      · cases last
      · simp only [Except.ok.injEq, Prod.mk.injEq] at last
        exact last.2
    obtain ⟨xs, head, rfl⟩ := expectSurrogate_eq_ok backslash
    obtain ⟨ys, head', rfl⟩ := expectSurrogate_eq_ok letter
    rw [rest_next, head, List.tail_cons] at head'
    exact .inr ⟨n, m, e, ys, four, head' ▸ head, behind ▸ four'⟩

theorem length_skipEscape (skipped : c.skipEscape = .ok d) : d.rest.length < c.rest.length := by
  unfold skipEscape at skipped
  split at skipped
  · cases skipped
  · rename_i xs head
    obtain ⟨⟨n, _⟩, four, rfl⟩ := map_eq_ok.mp skipped
    have taken := length_next head
    have digits := length_fourDigits four
    dsimp only
    omega
  · rename_i x xs _ head
    split at skipped
    · cases skipped
      have taken := length_next head
      omega
    · cases skipped

/-- What names one character is stepped over in one go, or in two around a backslash. -/
theorem skipEscape_of_escape {x : Char} (read : c.escape = .ok (x, d)) :
    c.skipEscape = .ok d ∨
      ∃ e xs, c.skipEscape = .ok e ∧ e.rest = '\\' :: xs ∧ e.next.skipEscape = .ok d := by
  unfold escape at read
  split at read
  · cases read
  · rename_i xs head
    rcases unicodeEscape_digits read with ⟨n, four⟩ | ⟨n, m, e, ys, four, pair, four'⟩
    · left
      simp only [skipEscape, head]
      exact map_eq_ok.mpr ⟨_, four, rfl⟩
    · right
      have letter : e.next.rest = 'u' :: ys := by rw [rest_next, pair, List.tail_cons]
      refine ⟨e, 'u' :: ys, ?_, pair, ?_⟩
      · simp only [skipEscape, head]
        exact map_eq_ok.mpr ⟨_, four, rfl⟩
      · simp only [skipEscape, letter]
        exact map_eq_ok.mpr ⟨_, four', rfl⟩
  · rename_i y ys _ head
    split at read
    · rename_i z named
      cases read
      left
      simp [skipEscape, head, named]
    · cases read

theorem stringBody_quote {n : Nat} {xs : List Char} (head : c.rest = '\x22' :: xs) :
    c.stringBody (n + 1) = .ok ([], c.next) := by
  simp [stringBody, head]

theorem stringBody_backslash {n : Nat} {xs : List Char} (head : c.rest = '\\' :: xs) :
    c.stringBody (n + 1) =
      c.next.escape >>= fun (x, d) => d.stringBody n >>= fun (xs, d) => .ok (x :: xs, d) := by
  simp [stringBody, head]

theorem stringBody_plain {n : Nat} {x : Char} {xs : List Char} (head : c.rest = x :: xs)
    (unquoted : x ≠ '\x22') (unescaped : x ≠ '\\') (visible : ¬ x.toNat < 32) :
    c.stringBody (n + 1) = c.next.stringBody n >>= fun (xs, d) => .ok (x :: xs, d) := by
  simp [stringBody, head, visible]

theorem skipStringBody_quote {n : Nat} {xs : List Char} (head : c.rest = '\x22' :: xs) :
    c.skipStringBody (n + 1) = .ok c.next := by
  simp [skipStringBody, head]

theorem skipStringBody_backslash {n : Nat} {xs : List Char} (head : c.rest = '\\' :: xs) :
    c.skipStringBody (n + 1) = c.next.skipEscape >>= skipStringBody n := by
  simp [skipStringBody, head]

theorem skipStringBody_plain {n : Nat} {x : Char} {xs : List Char} (head : c.rest = x :: xs)
    (unquoted : x ≠ '\x22') (unescaped : x ≠ '\\') (visible : ¬ x.toNat < 32) :
    c.skipStringBody (n + 1) = c.next.skipStringBody n := by
  simp [skipStringBody, head, visible]

/-- Stepping over what is left of a string at `c` comes down to doing so at `e`, for at most one
step a character. -/
def StepsTo (c e : Cursor) : Prop :=
  ∃ k, 0 < k ∧ e.rest.length + k ≤ c.rest.length ∧
    ∀ m, c.skipStringBody (m + k) = e.skipStringBody m

theorem StepsTo.trans {e : Cursor} (one : StepsTo c d) (two : StepsTo d e) : StepsTo c e := by
  obtain ⟨k, _, taken, step⟩ := one
  obtain ⟨l, _, taken', step'⟩ := two
  refine ⟨l + k, by omega, by omega, fun m => ?_⟩
  rw [← Nat.add_assoc, step, step']

theorem stepsTo_backslash {e : Cursor} {xs : List Char} (head : c.rest = '\\' :: xs)
    (skipped : c.next.skipEscape = .ok e) : StepsTo c e := by
  have taken := length_next head
  have shorter := length_skipEscape skipped
  refine ⟨1, by decide, by omega, fun m => ?_⟩
  rw [skipStringBody_backslash head, skipped]
  rfl

theorem stepsTo_escape {e : Cursor} {x : Char} {xs : List Char} (head : c.rest = '\\' :: xs)
    (named : c.next.escape = .ok (x, e)) : StepsTo c e := by
  rcases skipEscape_of_escape named with once | ⟨d, ys, first, head', second⟩
  · exact stepsTo_backslash head once
  · -- The second half of a surrogate pair is stepped over as an escape of its own.
    exact (stepsTo_backslash head first).trans (stepsTo_backslash head' second)

theorem stepsTo_plain {x : Char} {xs : List Char} (head : c.rest = x :: xs)
    (unquoted : x ≠ '\x22') (unescaped : x ≠ '\\') (visible : ¬ x.toNat < 32) :
    StepsTo c c.next := by
  have taken := length_next head
  exact ⟨1, by decide, by omega, fun m => skipStringBody_plain head unquoted unescaped visible⟩

/-- A string ends at once, or its first character is stepped over. -/
theorem stringBody_cases {n : Nat} {xs : List Char} (read : c.stringBody (n + 1) = .ok (xs, d)) :
    (∃ ys, c.rest = '\x22' :: ys ∧ d = c.next) ∨
      ∃ e ys, StepsTo c e ∧ e.stringBody n = .ok (ys, d) := by
  cases head : c.rest with
  | nil =>
    rw [stringBody, head] at read
    cases read
  | cons x rest =>
    by_cases quoted : x = '\x22'
    · subst quoted
      rw [stringBody_quote head] at read
      cases read
      exact .inl ⟨rest, rfl, rfl⟩
    by_cases escaped : x = '\\'
    · subst escaped
      rw [stringBody_backslash head] at read
      obtain ⟨⟨y, e⟩, named, read⟩ := bind_eq_ok.mp read
      obtain ⟨⟨ys, _⟩, body, read⟩ := bind_eq_ok.mp read
      cases read
      exact .inr ⟨e, ys, stepsTo_escape head named, body⟩
    · by_cases control : x.toNat < 32
      · simp [stringBody, head, control] at read
      rw [stringBody_plain head quoted escaped control] at read
      obtain ⟨⟨ys, _⟩, body, read⟩ := bind_eq_ok.mp read
      cases read
      exact .inr ⟨c.next, ys, stepsTo_plain head quoted escaped control, body⟩

/-- A string that is read is stepped over, given a bound for each character on the way. -/
theorem skipStringBody_of_stringBody {n : Nat} {xs : List Char}
    (read : c.stringBody n = .ok (xs, d)) :
    d.rest.length < c.rest.length ∧
      ∀ m, c.rest.length ≤ m + d.rest.length → c.skipStringBody m = .ok d := by
  induction n generalizing c xs with
  | zero => cases read
  | succ n ih =>
    rcases stringBody_cases read with ⟨ys, head, rfl⟩ | ⟨e, ys, ⟨k, some, taken, step⟩, body⟩
    · have taken := length_next head
      refine ⟨by omega, fun m enough => ?_⟩
      obtain _ | m := m
      · omega
      · exact skipStringBody_quote head
    · obtain ⟨shorter, skipped⟩ := ih body
      refine ⟨by omega, fun m enough => ?_⟩
      obtain ⟨m, rfl⟩ : ∃ m', m = m' + k := ⟨m - k, by omega⟩
      rw [step]
      exact skipped m (by omega)

theorem length_stringRest {s : String} (read : c.stringRest = .ok (s, d)) :
    d.rest.length < c.rest.length := by
  obtain ⟨⟨xs, _⟩, body, read⟩ := bind_eq_ok.mp read
  cases read
  exact (skipStringBody_of_stringBody body).1

theorem skipString_of_stringRest {s : String} (read : c.stringRest = .ok (s, d)) :
    c.skipString = .ok d := by
  obtain ⟨⟨xs, _⟩, body, read⟩ := bind_eq_ok.mp read
  cases read
  exact (skipStringBody_of_stringBody body).2 _ (by omega)

/-! ## Numbers -/

/-- The reason given at an end that is not there does not matter. -/
theorem someDigits_eq_ok {atEnd : Malformed} {ds : List Nat}
    (read : c.someDigits atEnd = .ok (ds, d)) :
    d.rest.length < c.rest.length ∧ ∀ atEnd', c.someDigits atEnd' = .ok (ds, d) := by
  unfold someDigits at read ⊢
  split at read
  · cases read
  · rename_i x xs head
    split at read
    · rename_i digit
      cases read
      have shorter : c.digits.2.rest.length < c.rest.length := by
        have rest : c.digits.2.rest = xs.dropWhile isDigit := by
          simp [digits, head, digit]
        have fewer := (List.dropWhile_sublist isDigit (l := xs)).length_le
        rw [rest, head, List.length_cons]
        omega
      exact ⟨shorter, fun _ => if_pos digit⟩
    · cases read

theorem wholePart_eq_ok {atEnd : Malformed} {ds : List Nat}
    (read : c.wholePart atEnd = .ok (ds, d)) :
    d.rest.length < c.rest.length ∧ ∀ atEnd', c.wholePart atEnd' = .ok (ds, d) := by
  unfold wholePart at read ⊢
  split at read
  · rename_i x xs head
    split at read
    · cases read
    · rename_i other
      cases read
      have taken := length_next head
      exact ⟨by omega, fun _ => if_neg other⟩
  · rename_i head
    cases read
    have taken := length_next head
    exact ⟨by omega, fun _ => rfl⟩
  · exact someDigits_eq_ok read

theorem fractionPart_eq_ok {atEnd : Malformed} {ds? : Option (List Nat)}
    (read : c.fractionPart atEnd = .ok (ds?, d)) :
    d.rest.length ≤ c.rest.length ∧ ∀ atEnd', c.fractionPart atEnd' = .ok (ds?, d) := by
  unfold fractionPart at read ⊢
  split at read
  · rename_i xs head
    obtain ⟨⟨ds, _⟩, digits, h⟩ := map_eq_ok.mp read
    cases h
    obtain ⟨shorter, same⟩ := someDigits_eq_ok digits
    have taken := length_next head
    exact ⟨by omega, fun atEnd' => map_eq_ok.mpr ⟨_, same atEnd', rfl⟩⟩
  · cases read
    exact ⟨Nat.le_refl _, fun _ => rfl⟩

theorem exponentPart_eq_ok {atEnd : Malformed} {e? : Option (Bool × List Nat)}
    (read : c.exponentPart atEnd = .ok (e?, d)) :
    d.rest.length ≤ c.rest.length ∧ ∀ atEnd', c.exponentPart atEnd' = .ok (e?, d) := by
  unfold exponentPart at read ⊢
  split at read
  · rename_i x xs head
    split at read
    · rename_i letter
      obtain ⟨⟨ds, _⟩, digits, h⟩ := map_eq_ok.mp read
      cases h
      obtain ⟨shorter, same⟩ := someDigits_eq_ok digits
      have taken := length_next head
      have signed : (if c.next.rest.head? = some '-' ∨ c.next.rest.head? = some '+' then
          c.next.next else c.next).rest.length ≤ c.next.rest.length := by
        split
        · rw [rest_next (c := c.next)]
          exact (List.tail_sublist _).length_le
        · exact Nat.le_refl _
      refine ⟨by omega, fun atEnd' => ?_⟩
      rw [if_pos letter]
      exact map_eq_ok.mpr ⟨_, same atEnd', rfl⟩
    · rename_i other
      cases read
      exact ⟨Nat.le_refl _, fun _ => if_neg other⟩
  · cases read
    exact ⟨Nat.le_refl _, fun _ => rfl⟩

theorem numeral_eq_ok {atEnd : Malformed} {n : Numeral} (read : c.numeral atEnd = .ok (n, d)) :
    d.rest.length < c.rest.length ∧ ∀ atEnd', c.numeral atEnd' = .ok (n, d) := by
  unfold numeral at read ⊢
  obtain ⟨⟨whole, d₁⟩, whole_read, read⟩ := bind_eq_ok.mp read
  obtain ⟨⟨fraction, d₂⟩, fraction_read, read⟩ := bind_eq_ok.mp read
  obtain ⟨⟨exponent, d₃⟩, exponent_read, read⟩ := bind_eq_ok.mp read
  cases read
  obtain ⟨shorter, whole_same⟩ := wholePart_eq_ok whole_read
  obtain ⟨fraction_short, fraction_same⟩ := fractionPart_eq_ok fraction_read
  obtain ⟨exponent_short, exponent_same⟩ := exponentPart_eq_ok exponent_read
  have signed : (if c.rest.head? = some '-' then c.next else c).rest.length ≤ c.rest.length := by
    split
    · rw [rest_next]
      exact (List.tail_sublist _).length_le
    · exact Nat.le_refl _
  refine ⟨by omega, fun atEnd' => ?_⟩
  refine bind_eq_ok.mpr ⟨_, whole_same atEnd', ?_⟩
  refine bind_eq_ok.mpr ⟨_, fraction_same atEnd', ?_⟩
  exact bind_eq_ok.mpr ⟨_, exponent_same atEnd', rfl⟩

theorem number_eq_ok {v : Number} (read : c.number = .ok (v, d)) :
    d.rest.length < c.rest.length ∧ ∃ n, ∀ atEnd, c.numeral atEnd = .ok (n, d) := by
  unfold number at read
  obtain ⟨⟨n, d'⟩, numeral, read⟩ := bind_eq_ok.mp read
  obtain ⟨shorter, same⟩ := numeral_eq_ok numeral
  dsimp only at read
  split at read
  · cases read
    exact ⟨shorter, n, same⟩
  · cases read

end Cursor

end SwiftCodec
