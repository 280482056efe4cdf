import SwiftCodec.Codec.Plan
import SwiftCodec.Proofs.Text.Call

/-!
Closures as they stand in a text, between braces. A text is read with a stack of the closures that
are still open; what it reads as is settled by its parts, because reading goes on behind a part, in
which all closures are closed, as it would have without it.
-/
namespace SwiftCodec

/-- A text with the closures in it, from left to right. In the text itself each of them is left with
its braces only. -/
inductive Scope where
  | mk (own : List Char) (closures : List Scope)
deriving Repr

namespace Scope

def own : Scope → List Char
  | ⟨own, _⟩ => own

mutual
/-- The closures in a text, at every depth. -/
def inner : Scope → List Scope
  | ⟨_, closures⟩ => innerAll closures
termination_by structural s => s
def innerAll : List Scope → List Scope
  | [] => []
  | s :: ss => s :: inner s ++ innerAll ss
termination_by structural ss => ss
end

theorem innerAll_append (ss ss' : List Scope) :
    innerAll (ss ++ ss') = innerAll ss ++ innerAll ss' := by
  induction ss with
  | nil => rfl
  | cons s ss ih => simp [innerAll, ih]

/-- Reads the rest of a text. `outer` has what has been read around the closure at hand, from the
inside out, and `own` and `closures` what has been read of it, all of it backwards. -/
def read (outer : List (List Char × List Scope)) (own : List Char) (closures : List Scope) :
    List Char → Option Scope
  | [] => if outer.isEmpty then some ⟨own.reverse, closures.reverse⟩ else none
  | c :: cs =>
    if c = '\x7b' then read ((c :: own, closures) :: outer) [] [] cs
    else if c = '\x7d' then
      match outer with
      | [] => none
      | (around, before) :: outer =>
        read outer (c :: around) (⟨own.reverse, closures.reverse⟩ :: before) cs
    else read outer (c :: own) closures cs

/-- A text in which every closure is closed, and no other brace is. -/
def ofText (s : String) : Option Scope := read [] [] [] s.toList

variable {outer : List (List Char × List Scope)} {around : List Char} {before : List Scope}

theorem read_plain {c : Char} (opening : c ≠ '\x7b') (closing : c ≠ '\x7d') (cs : List Char) :
    read outer around before (c :: cs) = read outer (c :: around) before cs := by
  cases outer <;> simp [read, opening, closing]

theorem read_opening (cs : List Char) :
    read outer around before ('\x7b' :: cs) =
      read (('\x7b' :: around, before) :: outer) [] [] cs := by
  cases outer <;> simp [read]

theorem read_closing (own : List Char) (closures : List Scope) (cs : List Char) :
    read ((around, before) :: outer) own closures ('\x7d' :: cs) =
      read outer ('\x7d' :: around) (⟨own.reverse, closures.reverse⟩ :: before) cs := by
  simp [read]

/-- Wherever it stands, a part reads as the same text and the same closures. -/
def Reads (s : String) (own : List Char) (closures : List Scope) : Prop :=
  ∀ outer around before rest, read outer around before (s.toList ++ rest) =
    read outer (own.reverse ++ around) (closures.reverse ++ before) rest

namespace Reads

variable {s t : String} {own own' : List Char} {closures closures' : List Scope}

theorem ofText (h : Reads s own closures) : Scope.ofText s = some ⟨own, closures⟩ := by
  have whole := h [] [] [] []
  rw [List.append_nil] at whole
  rw [Scope.ofText, whole]
  simp [read]

theorem append (hs : Reads s own closures) (ht : Reads t own' closures') :
    Reads (s ++ t) (own ++ own') (closures ++ closures') := by
  intro outer around before rest
  rw [String.toList_append, List.append_assoc, hs, ht]
  simp

/-- Without braces a text has no closures. -/
theorem plain (h : Within (fun c => c ≠ '\x7b' ∧ c ≠ '\x7d') s) : Reads s s.toList [] := by
  intro outer around before rest
  unfold Within at h
  generalize s.toList = cs at h ⊢
  induction cs generalizing around with
  | nil => rfl
  | cons c cs ih =>
    obtain ⟨⟨opening, closing⟩, later⟩ := List.forall_mem_cons.mp h
    rw [List.cons_append, read_plain opening closing, ih _ later]
    simp

theorem closure (h : Reads s own closures) :
    Reads (Plan.closure s) ['\x7b', '\x7d'] [⟨' ' :: own ++ [' '], closures⟩] := by
  intro outer around before rest
  have opening : "\x7b ".toList = ['\x7b', ' '] := by decide
  have closing : " \x7d".toList = [' ', '\x7d'] := by decide
  simp only [Plan.closure, String.toList_append, opening, closing, List.append_assoc,
    List.cons_append, List.nil_append]
  rw [read_opening, read_plain (by decide) (by decide), h, read_plain (by decide) (by decide),
    read_closing]
  simp

end Reads

/-! ## The value a closure is applied to -/

/-- How often a text has the value that a closure is applied to. -/
def uses : List Char → Nat
  | [] => 0
  | c :: cs => (if c = '$' ∧ cs.head? = some '0' then 1 else 0) + uses cs

theorem uses_eq_zero {cs : List Char} (h : '$' ∉ cs) : uses cs = 0 := by
  induction cs with
  | nil => rfl
  | cons c cs ih =>
    obtain ⟨here, later⟩ := List.ne_and_not_mem_of_not_mem_cons h
    rw [uses, ih later, if_neg (fun both => here both.1.symm)]

/-- Text without the sign makes no difference, provided that it does not complete one. -/
theorem uses_between {front back cs : List Char} (hf : '$' ∉ front) (hb : '$' ∉ back)
    (apart : back.head? ≠ some '0') : uses (front ++ cs ++ back) = uses cs := by
  have behind : uses (cs ++ back) = uses cs := by
    -- A sign at the end of the text would be completed by a zero behind it.
    induction cs with
    | nil => exact uses_eq_zero hb
    | cons c cs ih =>
      have head : (cs ++ back).head? = some '0' ↔ cs.head? = some '0' := by
        cases cs with
        | nil => simpa using apart
        | cons d cs => simp
      simp only [List.cons_append, uses, ih, head]
  induction front with
  | nil => exact behind
  | cons c front ih =>
    obtain ⟨here, later⟩ := List.ne_and_not_mem_of_not_mem_cons hf
    rw [List.cons_append, List.cons_append, uses, ih later, if_neg (fun both => here both.1.symm),
      Nat.zero_add]

/-! ## Balance -/

/-- Whether brackets and braces in a text are closed in the opposite order in which they are opened.
`opened` has what is still to be closed. -/
def closes (opened : List Char) : List Char → Bool
  | [] => opened.isEmpty
  | c :: cs =>
    if c = '(' then closes (')' :: opened) cs
    else if c = '\x7b' then closes ('\x7d' :: opened) cs
    else if c = ')' ∨ c = '\x7d' then opened.head? = some c && closes opened.tail cs
    else closes opened cs

def Balanced (s : String) : Prop := closes [] s.toList

/-- Wherever it stands, a part leaves open what was open in front of it. -/
def Neutral (s : String) : Prop :=
  ∀ opened rest, closes opened (s.toList ++ rest) = closes opened rest

/-- No bracket and no brace. -/
def Unbracketed (c : Char) : Prop := c ≠ '(' ∧ c ≠ ')' ∧ c ≠ '\x7b' ∧ c ≠ '\x7d'

instance (c : Char) : Decidable (Unbracketed c) := inferInstanceAs (Decidable (_ ∧ _))

namespace Neutral

variable {s t : String}

theorem balanced (h : Neutral s) : Balanced s := by
  have whole := h [] []
  rw [List.append_nil] at whole
  rw [Balanced, whole]
  rfl

theorem append (hs : Neutral s) (ht : Neutral t) : Neutral (s ++ t) := by
  intro opened rest
  rw [String.toList_append, List.append_assoc, hs, ht]

theorem plain (h : Within Unbracketed s) : Neutral s := by
  intro opened rest
  unfold Within at h
  generalize s.toList = cs at h ⊢
  induction cs with
  | nil => rfl
  | cons c cs ih =>
    obtain ⟨⟨roundOpen, roundClose, braceOpen, braceClose⟩, later⟩ := List.forall_mem_cons.mp h
    rw [List.cons_append, closes, if_neg roundOpen, if_neg braceOpen,
      if_neg (by simp [roundClose, braceClose]), ih later]

theorem brackets (h : Neutral s) : Neutral ("(" ++ s ++ ")") := by
  intro opened rest
  have opening : "(".toList = ['('] := by decide
  have closing : ")".toList = [')'] := by decide
  simp only [String.toList_append, opening, closing, List.append_assoc, List.cons_append,
    List.nil_append]
  rw [closes, if_pos rfl, h, closes, if_neg (by decide), if_neg (by decide), if_pos (.inl rfl)]
  simp

theorem closure (h : Neutral s) : Neutral (Plan.closure s) := by
  intro opened rest
  have opening : "\x7b ".toList = ['\x7b', ' '] := by decide
  have closing : " \x7d".toList = [' ', '\x7d'] := by decide
  simp only [Plan.closure, String.toList_append, opening, closing, List.append_assoc,
    List.cons_append, List.nil_append]
  rw [closes, if_neg (by decide), if_pos rfl, closes, if_neg (by decide), if_neg (by decide),
    if_neg (by decide), h, closes, if_neg (by decide), if_neg (by decide), if_neg (by decide),
    closes, if_neg (by decide), if_neg (by decide), if_pos (.inr rfl)]
  simp

end Neutral

/-! ## Texts in a row -/

/-- Texts with a comma behind each. -/
def leading (texts : List String) : String := String.join (texts.map (· ++ ", "))

theorem leading_cons (s : String) (texts : List String) :
    leading (s :: texts) = s ++ ", " ++ leading texts := by
  simp [leading, String.join_cons]

/-- The last of the texts that commas are put between stands alone. -/
theorem intercalate_concat (texts : List String) (last : String) :
    String.intercalate ", " (texts ++ [last]) = leading texts ++ last := by
  induction texts with
  | nil => simp [leading]
  | cons s texts ih =>
    rw [List.cons_append, String.intercalate_cons_of_ne_nil (by simp), ih, leading_cons]
    simp only [String.append_assoc]

theorem Neutral.leading {texts : List String} (h : ∀ s ∈ texts, Neutral s) :
    Neutral (Scope.leading texts) := by
  induction texts with
  | nil =>
    intro opened rest
    simp [Scope.leading]
  | cons s texts ih =>
    obtain ⟨head, tail⟩ := List.forall_mem_cons.mp h
    rw [leading_cons]
    exact (head.append (.plain (by decide))).append (ih tail)

end Scope

end SwiftCodec
