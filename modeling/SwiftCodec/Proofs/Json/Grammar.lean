import SwiftCodec.Proofs.Json.Lexeme

/-!
What a text says, apart from any bound on the work of reading it: a value stands at one cursor and
ends at another. The reader of values finds exactly the values that stand there, and stepping over
one ends where it ends.
-/
namespace SwiftCodec

/-- A word at a cursor that is a value by itself. -/
inductive Json.Word (c : Cursor) : Json → Cursor → Prop where
  | null {xs : List Char} {d : Cursor} (head : c.rest = 'n' :: xs)
      (read : Cursor.literal "null".toList c = .ok d) : Word c .null d
  | true {xs : List Char} {d : Cursor} (head : c.rest = 't' :: xs)
      (read : Cursor.literal "true".toList c = .ok d) : Word c (.bool true) d
  | false {xs : List Char} {d : Cursor} (head : c.rest = 'f' :: xs)
      (read : Cursor.literal "false".toList c = .ok d) : Word c (.bool false) d
  | string {xs : List Char} {s : String} {d : Cursor} (head : c.rest = '\x22' :: xs)
      (read : c.next.stringRest = .ok (s, d)) : Word c (.string s) d
  | number {x : Char} {xs : List Char} {n : Number} {d : Cursor} (head : c.rest = x :: xs)
      (starts : x = '-' ∨ Cursor.isDigit x) (read : c.number = .ok (n, d)) : Word c (.number n) d

mutual
/-- A value at a cursor, behind blanks, where fewer than `depth` containers may be opened. -/
inductive Json.Stands : Nat → Cursor → Json → Cursor → Prop where
  | word {depth : Nat} {c d : Cursor} {j : Json} (word : Json.Word c.skipBlanks j d) :
      Json.Stands depth c j d
  | array {depth : Nat} {c d : Cursor} {xs : List Char} {items : List Json}
      (head : c.skipBlanks.rest = '[' :: xs)
      (inside : Json.Items (depth + 1) true c.skipBlanks.next items d) :
      Json.Stands (depth + 2) c (.array items) d
  | object {depth : Nat} {c d : Cursor} {xs : List Char} {members : List (String × Json)}
      (head : c.skipBlanks.rest = '\x7b' :: xs)
      (inside : Json.Members (depth + 1) true c.skipBlanks.next members d) :
      Json.Stands (depth + 2) c (.object members) d
inductive Json.Items : Nat → Bool → Cursor → List Json → Cursor → Prop where
  | done {depth : Nat} {first : Bool} {c d : Cursor} (closes : c.nextItem first = .ok (false, d)) :
      Json.Items depth first c [] d
  | more {depth : Nat} {first : Bool} {c d e f : Cursor} {j : Json} {js : List Json}
      (steps : c.nextItem first = .ok (true, d)) (head : Json.Stands depth d j e)
      (tail : Json.Items depth false e js f) : Json.Items depth first c (j :: js) f
inductive Json.Members : Nat → Bool → Cursor → List (String × Json) → Cursor → Prop where
  | done {depth : Nat} {first : Bool} {c d : Cursor} (closes : c.nextKey first = .ok (none, d)) :
      Json.Members depth first c [] d
  | more {depth : Nat} {first : Bool} {c d e f g : Cursor} {key : String} {j : Json}
      {ms : List (String × Json)} (steps : c.nextKey first = .ok (some key, d))
      (colon : d.colon = .ok e) (head : Json.Stands depth e j f)
      (tail : Json.Members depth false f ms g) : Json.Members depth first c ((key, j) :: ms) g
end

namespace Json

variable {c d : Cursor} {j : Json}

/-! ## Words -/

theorem scalar?_of_word (word : Word c j d) : c.scalar? = some (.ok (j, d)) := by
  cases word with
  | null head read => simp only [Cursor.scalar?, head, read, Except.map]
  | true head read => simp only [Cursor.scalar?, head, read, Except.map]
  | false head read => simp only [Cursor.scalar?, head, read, Except.map]
  | string head read => simp only [Cursor.scalar?, head, read, Except.map]
  | @number x xs n d head starts read =>
    have notN : x ≠ 'n' := by rintro rfl; revert starts; decide
    have notT : x ≠ 't' := by rintro rfl; revert starts; decide
    have notF : x ≠ 'f' := by rintro rfl; revert starts; decide
    have notQ : x ≠ '\x22' := by rintro rfl; revert starts; decide
    simp [Cursor.scalar?, head, starts, read, Except.map]

theorem word_of_scalar? (h : c.scalar? = some (.ok (j, d))) : Word c j d := by
  unfold Cursor.scalar? at h
  split at h
  · rename_i xs head
    obtain ⟨_, read, same⟩ := map_eq_ok.mp (Option.some.inj h)
    cases same
    exact .null head read
  · rename_i xs head
    obtain ⟨_, read, same⟩ := map_eq_ok.mp (Option.some.inj h)
    cases same
    exact .true head read
  · rename_i xs head
    obtain ⟨_, read, same⟩ := map_eq_ok.mp (Option.some.inj h)
    cases same
    exact .false head read
  · rename_i xs head
    obtain ⟨_, read, same⟩ := map_eq_ok.mp (Option.some.inj h)
    cases same
    exact .string head read
  · rename_i x xs _ _ _ _ head
    split at h
    · rename_i starts
      obtain ⟨_, read, same⟩ := map_eq_ok.mp (Option.some.inj h)
      cases same
      exact .number head (by simpa using starts) read
    · cases h
  · cases h

theorem scalar?_bracket {xs : List Char} (head : c.rest = '[' :: xs) : c.scalar? = none := by
  have notDigit : Cursor.isDigit '[' = false := by decide
  simp [Cursor.scalar?, head, notDigit]

theorem scalar?_brace {xs : List Char} (head : c.rest = '\x7b' :: xs) : c.scalar? = none := by
  have notDigit : Cursor.isDigit '\x7b' = false := by decide
  simp [Cursor.scalar?, head, notDigit]

theorem Word.length (word : Word c j d) : d.rest.length < c.rest.length := by
  cases word with
  | null _ read =>
    have taken := Cursor.length_literal read
    have long : "null".toList.length = 4 := by decide
    omega
  | true _ read =>
    have taken := Cursor.length_literal read
    have long : "true".toList.length = 4 := by decide
    omega
  | false _ read =>
    have taken := Cursor.length_literal read
    have long : "false".toList.length = 5 := by decide
    omega
  | string head read =>
    have taken := Cursor.length_next head
    have shorter := Cursor.length_stringRest read
    omega
  | number _ _ read => exact (Cursor.number_eq_ok read).1

end Json

namespace Cursor

variable {c d : Cursor} {first : Bool}

/-! ## Punctuation -/

/-- Where an entry of a container begins: behind a comma unless it is the first. -/
inductive Entry (c : Cursor) : Bool → Cursor → Prop where
  | first : Entry c true c.skipBlanks
  | later {xs : List Char} (head : c.skipBlanks.rest = ',' :: xs) :
      Entry c false c.skipBlanks.next.skipBlanks

theorem Entry.length (entry : Entry c first d) : d.rest.length ≤ c.rest.length := by
  cases entry with
  | first => exact length_skipBlanks
  | later head =>
    have behind := length_behind head
    have blanks := length_skipBlanks (c := c.skipBlanks.next)
    omega

theorem Entry.unique {e : Cursor} (one : Entry c first d) (other : Entry c first e) : d = e := by
  cases one <;> cases other <;> rfl

theorem colon_eq_ok (read : c.colon = .ok d) :
    ∃ xs, c.skipBlanks.rest = ':' :: xs ∧ d = c.skipBlanks.next := by
  unfold colon at read
  dsimp only at read
  split at read
  · rename_i xs head
    cases read
    exact ⟨xs, head, rfl⟩
  · cases read
  · cases read

theorem nextItem_false (read : c.nextItem first = .ok (false, d)) :
    ∃ xs, c.skipBlanks.rest = ']' :: xs ∧ d = c.skipBlanks.next := by
  unfold nextItem at read
  dsimp only at read
  split at read
  · cases read
  · rename_i xs head
    cases read
    exact ⟨xs, head, rfl⟩
  · split at read
    · cases read
    split at read
    · split at read <;> cases read
    · cases read

theorem nextItem_true (read : c.nextItem first = .ok (true, d)) :
    Entry c first d ∧ ∃ x xs, d.rest = x :: xs ∧ x ≠ ']' := by
  unfold nextItem at read
  dsimp only at read
  split at read
  · cases read
  · cases read
  · rename_i x xs other head
    split at read
    · rename_i isFirst
      cases read
      subst isFirst
      exact ⟨.first, x, xs, head, fun same => other (same ▸ rfl)⟩
    rename_i later
    obtain rfl := Bool.eq_false_iff.mpr later
    split at read
    · rename_i comma
      subst comma
      split at read
      · cases read
      · cases read
      · rename_i nonempty other'
        cases read
        refine ⟨.later head, ?_⟩
        cases rest : c.skipBlanks.next.skipBlanks.rest with
        | nil => exact absurd rest nonempty
        | cons y ys => exact ⟨y, ys, rfl, fun same => other' ys (same ▸ rest)⟩
    · cases read

theorem nextKey_none (read : c.nextKey first = .ok (none, d)) :
    ∃ xs, c.skipBlanks.rest = '\x7d' :: xs ∧ d = c.skipBlanks.next := by
  have noKey (e : Cursor) : (e.next.stringRest >>= fun r => Except.ok (some r.1, r.2)) ≠
      .ok (none, d) := by
    intro h
    obtain ⟨_, _, same⟩ := bind_eq_ok.mp h
    cases same
  unfold nextKey at read
  dsimp only at read
  split at read
  · cases read
  · rename_i xs head
    cases read
    exact ⟨xs, head, rfl⟩
  · split at read
    · split at read
      · exact absurd read (noKey _)
      · cases read
    split at read
    · split at read
      · cases read
      · exact absurd read (noKey _)
      · cases read
      · cases read
    · cases read

theorem nextKey_some {key : String} (read : c.nextKey first = .ok (some key, d)) :
    ∃ e xs, Entry c first e ∧ e.rest = '\x22' :: xs ∧ e.next.stringRest = .ok (key, d) := by
  have isKey {e : Cursor} (h : (e.next.stringRest >>= fun r => Except.ok (some r.1, r.2)) =
      .ok (some key, d)) : e.next.stringRest = .ok (key, d) := by
    obtain ⟨_, rest, same⟩ := bind_eq_ok.mp h
    cases same
    exact rest
  unfold nextKey at read
  dsimp only at read
  split at read
  · cases read
  · cases read
  · rename_i x xs _ head
    split at read
    · rename_i isFirst
      subst isFirst
      split at read
      · rename_i quote
        exact ⟨_, xs, .first, quote ▸ head, isKey read⟩
      · cases read
    rename_i later
    obtain rfl := Bool.eq_false_iff.mpr later
    split at read
    · rename_i comma
      subst comma
      split at read
      · cases read
      · rename_i ys head'
        exact ⟨_, ys, .later head, head', isKey read⟩
      · cases read
      · cases read
    · cases read

/-- A container ends, or goes on with an entry, behind at least one character. -/
theorem length_nextItem_false (read : c.nextItem first = .ok (false, d)) :
    d.rest.length < c.rest.length := by
  obtain ⟨xs, head, rfl⟩ := nextItem_false read
  exact length_behind head

theorem length_nextKey_none (read : c.nextKey first = .ok (none, d)) :
    d.rest.length < c.rest.length := by
  obtain ⟨xs, head, rfl⟩ := nextKey_none read
  exact length_behind head

theorem length_nextKey_some {key : String} (read : c.nextKey first = .ok (some key, d)) :
    d.rest.length < c.rest.length := by
  obtain ⟨e, xs, entry, head, rest⟩ := nextKey_some read
  have begins := entry.length
  have taken := length_next head
  have shorter := length_stringRest rest
  omega

theorem length_colon (read : c.colon = .ok d) : d.rest.length < c.rest.length := by
  obtain ⟨xs, head, rfl⟩ := colon_eq_ok read
  exact length_behind head

end Cursor

namespace Json

variable {c d : Cursor} {j : Json} {depth : Nat} {first : Bool}

theorem underStep_eq_ok {α : Type} {step : PathStep} {r : Except Fault α} {a : α} :
    underStep step r = .ok a ↔ r = .ok a := mapError_eq_ok

/-! ## The reader of values -/

theorem exists_two_more {depth : Nat} (room : ¬ depth ≤ 1) : ∃ k, depth = k + 2 :=
  ⟨depth - 2, by omega⟩

section

variable {n : Nat}
  (values : ∀ depth c j d, c.value n depth = .ok (j, d) → Stands depth c j d)
  (items : ∀ depth index c js d, c.items n depth index = .ok (js, d) →
    Items depth (index == 0) c js d)
  (members : ∀ depth first c ms d, c.members n depth first = .ok (ms, d) →
    Members depth first c ms d)

include items members in
theorem stands_of_value (read : c.value (n + 1) depth = .ok (j, d)) : Stands depth c j d := by
  unfold Cursor.value at read
  dsimp only at read
  split at read
  · rename_i r scalar
    exact .word (word_of_scalar? (read ▸ scalar))
  · split at read
    · cases read
    · rename_i xs head
      split at read
      · cases read
      · rename_i room
        obtain ⟨k, rfl⟩ := exists_two_more room
        obtain ⟨⟨js, e⟩, inside, read⟩ := bind_eq_ok.mp read
        cases read
        exact .array head (items _ _ _ _ _ inside)
    · rename_i xs head
      split at read
      · cases read
      · rename_i room
        obtain ⟨k, rfl⟩ := exists_two_more room
        obtain ⟨⟨ms, e⟩, inside, read⟩ := bind_eq_ok.mp read
        cases read
        exact .object head (members _ _ _ _ _ inside)
    · cases read

include values items in
theorem items_of_read {index : Nat} {js : List Json}
    (read : c.items (n + 1) depth index = .ok (js, d)) : Items depth (index == 0) c js d := by
  unfold Cursor.items at read
  obtain ⟨⟨more, e⟩, steps, read⟩ := bind_eq_ok.mp read
  dsimp only at read
  split at read
  · rename_i isMore
    subst isMore
    obtain ⟨⟨j, f⟩, value, read⟩ := bind_eq_ok.mp read
    obtain ⟨⟨js, g⟩, rest, read⟩ := bind_eq_ok.mp read
    cases read
    exact .more steps (values _ _ _ _ (underStep_eq_ok.mp value)) (items _ _ _ _ _ rest)
  · rename_i last
    obtain rfl := Bool.eq_false_iff.mpr last
    cases read
    exact .done steps

include values members in
theorem members_of_read {ms : List (String × Json)}
    (read : c.members (n + 1) depth first = .ok (ms, d)) : Members depth first c ms d := by
  unfold Cursor.members at read
  obtain ⟨⟨key?, e⟩, steps, read⟩ := bind_eq_ok.mp read
  have steps := underStep_eq_ok.mp steps
  dsimp only at read
  split at read
  · cases read
    exact .done steps
  · obtain ⟨f, colon, read⟩ := bind_eq_ok.mp read
    obtain ⟨⟨j, g⟩, value, read⟩ := bind_eq_ok.mp read
    obtain ⟨⟨ms, h⟩, rest, read⟩ := bind_eq_ok.mp read
    cases read
    exact .more steps colon (values _ _ _ _ (underStep_eq_ok.mp value)) (members _ _ _ _ _ rest)

end

/-- Only what stands in a text is read. -/
theorem stands_of_read (n : Nat) :
    (∀ depth c j d, c.value n depth = .ok (j, d) → Stands depth c j d) ∧
    (∀ depth index c js d, c.items n depth index = .ok (js, d) →
      Items depth (index == 0) c js d) ∧
    (∀ depth first c ms d, c.members n depth first = .ok (ms, d) →
      Members depth first c ms d) := by
  induction n with
  | zero =>
    refine ⟨?_, ?_, ?_⟩
    · intro _ _ _ _ read
      cases read
    · intro _ _ _ _ _ read
      cases read
    · intro _ _ _ _ _ read
      cases read
  | succ n ih =>
    obtain ⟨values, items, members⟩ := ih
    refine ⟨?_, ?_, ?_⟩
    · intro _ _ _ _ read
      exact stands_of_value items members read
    · intro _ _ _ _ _ read
      exact items_of_read values items read
    · intro _ _ _ _ _ read
      exact members_of_read values members read

theorem stands_of_parse {text : String} (parsed : Json.parse text = .ok j) :
    ∃ d, Stands nestingLimit (.ofString text) j d := by
  unfold Json.parse at parsed
  obtain ⟨⟨j', d⟩, read, parsed⟩ := bind_eq_ok.mp parsed
  obtain ⟨-, -, same⟩ := bind_eq_ok.mp parsed
  cases same
  exact ⟨d, (stands_of_read _).1 _ _ _ _ read⟩

/-! ## The first character of a value -/

theorem Word.opening (word : Word c j d) {x : Char} {xs : List Char} (head : c.rest = x :: xs) :
    x ≠ '[' ∧ x ≠ '\x7b' := by
  cases word with
  | null head' _ => cases head.symm.trans head'; decide
  | true head' _ => cases head.symm.trans head'; decide
  | false head' _ => cases head.symm.trans head'; decide
  | string head' _ => cases head.symm.trans head'; decide
  | number head' starts _ =>
    cases head.symm.trans head'
    constructor
    · rintro rfl
      exact absurd starts (by decide)
    · rintro rfl
      exact absurd starts (by decide)

theorem Stands.of_bracket {xs : List Char} (stands : Stands depth c j d)
    (head : c.skipBlanks.rest = '[' :: xs) :
    ∃ k items, depth = k + 2 ∧ j = .array items ∧ Items (k + 1) true c.skipBlanks.next items d := by
  cases stands with
  | word word => exact absurd rfl (word.opening head).1
  | array _ inside => exact ⟨_, _, rfl, rfl, inside⟩
  | object head' _ =>
    rw [head] at head'
    cases head'

theorem Stands.of_brace {xs : List Char} (stands : Stands depth c j d)
    (head : c.skipBlanks.rest = '\x7b' :: xs) :
    ∃ k members, depth = k + 2 ∧ j = .object members ∧
      Members (k + 1) true c.skipBlanks.next members d := by
  cases stands with
  | word word => exact absurd rfl (word.opening head).2
  | array head' _ =>
    rw [head] at head'
    cases head'
  | object _ inside => exact ⟨_, _, rfl, rfl, inside⟩

theorem Stands.of_quote {xs : List Char} (stands : Stands depth c j d)
    (head : c.skipBlanks.rest = '\x22' :: xs) :
    ∃ s, j = .string s ∧ c.skipBlanks.next.stringRest = .ok (s, d) := by
  cases stands with
  | word word =>
    cases word with
    | null head' _ => cases head.symm.trans head'
    | true head' _ => cases head.symm.trans head'
    | false head' _ => cases head.symm.trans head'
    | string _ read => exact ⟨_, rfl, read⟩
    | number head' starts _ =>
      cases head.symm.trans head'
      exact absurd starts (by decide)
  | array head' _ => cases head.symm.trans head'
  | object head' _ => cases head.symm.trans head'

theorem Stands.begins (stands : Stands depth c j d) : ∃ x xs, c.skipBlanks.rest = x :: xs := by
  cases stands with
  | word word =>
    cases word with
    | null head _ => exact ⟨_, _, head⟩
    | true head _ => exact ⟨_, _, head⟩
    | false head _ => exact ⟨_, _, head⟩
    | string head _ => exact ⟨_, _, head⟩
    | number head _ _ => exact ⟨_, _, head⟩
  | array head _ => exact ⟨_, _, head⟩
  | object head _ => exact ⟨_, _, head⟩

theorem Stands.length_word (word : Word c.skipBlanks j d) : d.rest.length < c.rest.length := by
  have blanks := Cursor.length_skipBlanks (c := c)
  have shorter := word.length
  omega

mutual
theorem Stands.length {depth : Nat} {c d : Cursor} {j : Json} :
    Stands depth c j d → d.rest.length < c.rest.length
  | .word word => Stands.length_word word
  | .array head inside => by
    have behind := Cursor.length_behind head
    have shorter := Items.length inside
    omega
  | .object head inside => by
    have behind := Cursor.length_behind head
    have shorter := Members.length inside
    omega
theorem Items.length {depth : Nat} {first : Bool} {c d : Cursor} {js : List Json} :
    Items depth first c js d → d.rest.length < c.rest.length
  | .done closes => Cursor.length_nextItem_false closes
  | .more steps head tail => by
    have begins := (Cursor.nextItem_true steps).1.length
    have shorter := Stands.length head
    have rest := Items.length tail
    omega
theorem Members.length {depth : Nat} {first : Bool} {c d : Cursor} {ms : List (String × Json)} :
    Members depth first c ms d → d.rest.length < c.rest.length
  | .done closes => Cursor.length_nextKey_none closes
  | .more steps colon head tail => by
    have key := Cursor.length_nextKey_some steps
    have colon := Cursor.length_colon colon
    have shorter := Stands.length head
    have rest := Members.length tail
    omega
end

mutual
/-- What stands in a text is read, by as many steps as there are half characters. -/
theorem Stands.read {depth : Nat} {c d : Cursor} {j : Json} :
    Stands depth c j d → ∀ n, 2 * c.rest.length ≤ n + 2 * d.rest.length →
      c.value n depth = .ok (j, d)
  | .word word, n, enough => by
    have shorter := Stands.length_word word
    obtain _ | n := n
    · omega
    · rw [Cursor.value, scalar?_of_word word]
  | .array head inside, n, enough => by
    have behind := Cursor.length_behind head
    have shorter := Items.length inside
    -- The bracket pays for two steps, this one and the first of the items.
    obtain _ | n := n
    · omega
    · have items := Items.read inside n 0 rfl (by omega)
      simp only [Cursor.value, scalar?_bracket head, head]
      rw [if_neg (by omega), Nat.add_sub_cancel (m := 1), items]
      rfl
  | .object head inside, n, enough => by
    have behind := Cursor.length_behind head
    have shorter := Members.length inside
    obtain _ | n := n
    · omega
    · have members := Members.read inside n (by omega)
      simp only [Cursor.value, scalar?_brace head, head]
      rw [if_neg (by omega), Nat.add_sub_cancel (m := 1), members]
      rfl
theorem Items.read {depth : Nat} {first : Bool} {c d : Cursor} {js : List Json} :
    Items depth first c js d → ∀ n index, (index == 0) = first →
      2 * c.rest.length ≤ n + 2 * d.rest.length → c.items n depth index = .ok (js, d)
  | .done closes, n, index, start, enough => by
    have shorter := Cursor.length_nextItem_false closes
    obtain _ | n := n
    · omega
    · rw [Cursor.items, start, closes]
      rfl
  | .more steps head tail, n, index, start, enough => by
    have begins := (Cursor.nextItem_true steps).1.length
    have shorter := Stands.length head
    have rest := Items.length tail
    obtain _ | n := n
    · omega
    · have value := Stands.read head n (by omega)
      have items := Items.read tail n (index + 1) rfl (by omega)
      rw [Cursor.items, start, steps]
      change (underStep (.index index) _ >>= _) = _
      rw [underStep_eq_ok.mpr value]
      change (Cursor.items n depth (index + 1) _ >>= _) = _
      rw [items]
      rfl
theorem Members.read {depth : Nat} {first : Bool} {c d : Cursor} {ms : List (String × Json)} :
    Members depth first c ms d → ∀ n, 2 * c.rest.length ≤ n + 2 * d.rest.length →
      c.members n depth first = .ok (ms, d)
  | .done closes, n, enough => by
    have shorter := Cursor.length_nextKey_none closes
    obtain _ | n := n
    · omega
    · rw [Cursor.members, underStep_eq_ok.mpr closes]
      rfl
  | .more steps colon head tail, n, enough => by
    have key := Cursor.length_nextKey_some steps
    have behind := Cursor.length_colon colon
    have shorter := Stands.length head
    have rest := Members.length tail
    obtain _ | n := n
    · omega
    · have value := Stands.read head n (by omega)
      have members := Members.read tail n (by omega)
      rw [Cursor.members, underStep_eq_ok.mpr steps]
      simp only [bind, Except.bind, colon, underStep_eq_ok.mpr value, members]
end

end Json

end SwiftCodec
