import SwiftCodec.Name.Basic
import Mathlib.Data.List.Basic

/-!
Calls as they stand in a text. A call is a path of names with an opening bracket behind it; its
arguments go as far as the bracket that closes it, and are apart at the commas that stand outside
all brackets in between. Angle brackets do not count: `->` would close one.

What a text holds is settled by its parts, because reading goes on behind a part as if it had begun
there.
-/
namespace SwiftCodec

/-- All characters of a text have a property. -/
def Within (C : Char → Prop) (s : String) : Prop := ∀ c ∈ s.toList, C c

namespace Within

variable {C D : Char → Prop} {s t : String}

-- Not by way of all characters, of which there are too many to try.
instance [DecidablePred C] : Decidable (Within C s) := List.decidableBAll C s.toList

theorem append (hs : Within C s) (ht : Within C t) : Within C (s ++ t) := by
  intro c member
  rcases List.mem_append.mp (String.toList_append ▸ member) with here | later
  · exact hs c here
  · exact ht c later

theorem mono (more : ∀ c, C c → D c) (h : Within C s) : Within D s :=
  fun c member => more c (h c member)

theorem part (h : Within C s) (inside : Within (· ∈ s.toList) t) : Within C t :=
  fun c member => h c (inside c member)

theorem intercalate {sep : String} (hs : Within C sep) {texts : List String}
    (h : ∀ t ∈ texts, Within C t) : Within C (sep.intercalate texts) := by
  induction texts with
  | nil =>
    rw [String.intercalate_nil]
    simp [Within]
  | cons first rest ih =>
    obtain ⟨head, tail⟩ := List.forall_mem_cons.mp h
    cases rest with
    | nil => rwa [String.intercalate_singleton]
    | cons second rest =>
      rw [String.intercalate_cons_cons]
      exact (head.append hs).append (ih tail)

end Within

/-- A text that begins with something other than a blank. -/
def Visible (s : String) : Prop := s.toList.head?.any (· ≠ ' ')

instance (s : String) : Decidable (Visible s) := inferInstanceAs (Decidable (_ = true))

namespace Visible

variable {s : String}

theorem chars (h : Visible s) : ∃ c cs, s.toList = c :: cs ∧ c ≠ ' ' := by
  unfold Visible at h
  cases chars : s.toList with
  | nil => simp [chars] at h
  | cons c cs => exact ⟨c, cs, rfl, by simpa [chars] using h⟩

theorem of_within {C : Char → Prop} (h : Within C s) (some : s ≠ "") (blank : ¬ C ' ') :
    Visible s := by
  unfold Visible
  cases chars : s.toList with
  | nil => exact absurd (String.toList_eq_nil_iff.mp chars) some
  | cons c cs =>
    have apart : c ≠ ' ' := by
      rintro rfl
      exact blank (h ' ' (chars ▸ List.mem_cons_self))
    simpa using apart

theorem append (h : Visible s) (t : String) : Visible (s ++ t) := by
  obtain ⟨c, cs, chars, visible⟩ := h.chars
  simpa [Visible, chars] using visible

theorem dropWhile_blanks (h : Visible s) (rest : List Char) :
    (s.toList ++ rest).dropWhile (· = ' ') = s.toList ++ rest := by
  obtain ⟨c, cs, chars, visible⟩ := h.chars
  rw [chars, List.cons_append, List.dropWhile_cons_of_neg (by simpa using visible)]

end Visible

structure Call where
  callee : String
  arguments : List String
deriving DecidableEq, Repr

namespace Call

def isOpening (c : Char) : Bool := c = '(' || c = '[' || c = '\x7b'
def isClosing (c : Char) : Bool := c = ')' || c = ']' || c = '\x7d'

/-- A character of a path of names, as in `Outer.Inner.decodeJson` and `$0.encodeJson`. -/
def isPath (c : Char) : Bool := Name.isTail c || c = '.' || c = '$'

theorem isPath_of_isTail {c : Char} (tail : Name.isTail c) : isPath c := by
  rw [isPath, tail, Bool.true_or, Bool.true_or]

theorem ne_of_isPath {c d : Char} (path : isPath c) (other : isPath d = false) : c ≠ d := by
  rintro rfl
  exact absurd path (by simp [other])

/-- Splits what follows an opening bracket at its commas, up to the bracket that closes it. `depth`
is the number of brackets open inside, `read` what has been read of the part at hand, backwards. -/
def split (depth : Nat) (read : List Char) : List Char → List (List Char)
  | [] => [read.reverse]
  | c :: cs =>
    if isClosing c then
      if depth = 0 then [read.reverse] else split (depth - 1) (c :: read) cs
    else if isOpening c then split (depth + 1) (c :: read) cs
    else if c = ',' ∧ depth = 0 then read.reverse :: split 0 [] cs
    else split depth (c :: read) cs

/-- The arguments behind an opening bracket; nothing between two brackets is no argument. -/
def argumentsBehind (cs : List Char) : List String :=
  let parts := (split 0 [] cs).map (·.dropWhile (· = ' '))
  if parts = [[]] then [] else parts.map String.ofList

/-- All calls, those in the arguments of others included. `path` has the names in front, read
backwards. -/
def scan (path : List Char) : List Char → List Call
  | [] => []
  | c :: cs =>
    if c = '(' then
      if path = [] then scan [] cs
      else ⟨String.ofList path.reverse, argumentsBehind cs⟩ :: scan [] cs
    else scan (if isPath c then c :: path else []) cs

/-- The calls in a text, from left to right. -/
def inText (text : String) : List Call := scan [] text.toList

/-! ## Arguments -/

/-- Reading arguments goes through a text in one piece, if at least so many brackets are open. -/
def Through (least : Nat) (s : String) : Prop :=
  ∀ depth ≥ least, ∀ read rest,
    split depth read (s.toList ++ rest) = split depth (s.toList.reverse ++ read) rest

variable {least : Nat} {s t : String}

/-- Neither a bracket nor a comma. -/
def Inert (c : Char) : Prop := isOpening c = false ∧ isClosing c = false ∧ c ≠ ','

instance (c : Char) : Decidable (Inert c) := inferInstanceAs (Decidable (_ ∧ _))

theorem inert_of_isPath {c : Char} (path : isPath c) : Inert c := by
  have apart {d : Char} (other : isPath d = false) : c ≠ d := ne_of_isPath path other
  refine ⟨?_, ?_, apart (by decide)⟩
  · simp [isOpening, apart (show isPath '(' = false by decide),
      apart (show isPath '[' = false by decide), apart (show isPath '\x7b' = false by decide)]
  · simp [isClosing, apart (show isPath ')' = false by decide),
      apart (show isPath ']' = false by decide), apart (show isPath '\x7d' = false by decide)]

theorem inert_of_path (path : Within (isPath ·) s) : Within Inert s :=
  path.mono fun _ => inert_of_isPath

theorem unbracketed_of_inert (inert : Within Inert s) : Within (· ≠ '(') s := by
  refine inert.mono ?_
  rintro c here rfl
  exact absurd here (by decide)

theorem unbracketed_of_path (path : Within (isPath ·) s) : Within (· ≠ '(') s :=
  unbracketed_of_inert (inert_of_path path)

namespace Through

theorem mono (h : Through 0 s) : Through least s := fun depth _ => h depth (Nat.zero_le depth)

theorem append (hs : Through least s) (ht : Through least t) : Through least (s ++ t) := by
  intro depth deep read rest
  rw [String.toList_append, List.append_assoc, hs depth deep, ht depth deep, List.reverse_append,
    List.append_assoc]

theorem of_inert (h : Within Inert s) : Through least s := by
  intro depth _ read rest
  unfold Within at h
  generalize s.toList = cs at h ⊢
  induction cs generalizing read with
  | nil => rfl
  | cons c cs ih =>
    obtain ⟨⟨opening, closing, comma⟩, later⟩ := List.forall_mem_cons.mp h
    rw [List.cons_append, split, if_neg (by simp [closing]), if_neg (by simp [opening]),
      if_neg (fun both => comma both.1), ih _ later]
    simp

theorem comma : Through 1 ", " := by
  intro depth deep read rest
  have inside : ¬ (',' = ',' ∧ depth = 0) := fun both => by omega
  have chars : ", ".toList = [',', ' '] := by decide
  rw [chars, List.cons_append, split, if_neg (by decide), if_neg (by decide), if_neg inside]
  exact of_inert (s := " ") (by decide) depth deep (',' :: read) rest

theorem intercalate {texts : List String} (h : ∀ t ∈ texts, Through 1 t) :
    Through 1 (String.intercalate ", " texts) := by
  induction texts with
  | nil =>
    intro depth _ read rest
    rw [String.intercalate_nil]
    rfl
  | cons first rest ih =>
    obtain ⟨head, tail⟩ := List.forall_mem_cons.mp h
    cases rest with
    | nil => rwa [String.intercalate_singleton]
    | cons second rest =>
      rw [String.intercalate_cons_cons]
      exact (head.append comma).append (ih tail)

/-- Between an opening bracket and a closing one the depth is one more. -/
theorem bracket {o c : String} {opening closing : Char} (first : o.toList = [opening])
    (last : c.toList = [closing]) (opens : isOpening opening) (closes : isClosing closing)
    (apart : isClosing opening = false) (inside : Through 1 s) : Through least (o ++ s ++ c) := by
  intro depth _ read rest
  simp only [String.toList_append, first, last, List.append_assoc, List.cons_append,
    List.nil_append]
  rw [split, if_neg (by simp [apart]), if_pos opens, inside (depth + 1) (by omega), split,
    if_pos closes, if_neg (by omega)]
  simp

end Through

/-- A text that is one argument as it stands. -/
structure Whole (s : String) : Prop where
  through : Through 0 s
  begins : Visible s

theorem whole_of_path (h : Within (isPath ·) s) (some : s ≠ "") : Whole s where
  through := .of_inert (inert_of_path h)
  begins := .of_within h some (by decide)

theorem split_intercalate {p : String} {ps : List String} (whole : ∀ q ∈ p :: ps, Through 0 q)
    (read rest : List Char) :
    split 0 read ((String.intercalate ", " (p :: ps)).toList ++ ')' :: rest) =
      (read.reverse ++ p.toList) :: ps.map fun q => ' ' :: q.toList := by
  induction ps generalizing p read with
  | nil =>
    rw [String.intercalate_singleton, (whole p (by simp)) 0 (Nat.le_refl 0), split,
      if_pos (by decide), if_pos rfl]
    simp
  | cons q ps ih =>
    obtain ⟨first, later⟩ := List.forall_mem_cons.mp whole
    have separator : ", ".toList = [',', ' '] := by decide
    rw [String.intercalate_cons_cons, String.toList_append, String.toList_append, separator,
      List.append_assoc, List.append_assoc, first 0 (Nat.le_refl 0)]
    simp only [List.cons_append, List.nil_append]
    rw [split, if_neg (by decide), if_neg (by decide), if_pos ⟨rfl, rfl⟩, split,
      if_neg (by decide), if_neg (by decide), if_neg (by decide), ih later]
    simp

/-- Parts that are joined by commas come apart again. -/
theorem argumentsBehind_intercalate {parts : List String} (whole : ∀ p ∈ parts, Whole p)
    (rest : List Char) :
    argumentsBehind ((String.intercalate ", " parts).toList ++ ')' :: rest) = parts := by
  have trim {p : String} (h : Whole p) : p.toList.dropWhile (· = ' ') = p.toList := by
    simpa using h.begins.dropWhile_blanks []
  cases parts with
  | nil =>
    rw [String.intercalate_nil]
    rfl
  | cons p ps =>
    obtain ⟨first, later⟩ := List.forall_mem_cons.mp whole
    have parts : (split 0 [] ((String.intercalate ", " (p :: ps)).toList ++ ')' :: rest)).map
        (·.dropWhile (· = ' ')) = (p :: ps).map String.toList := by
      rw [split_intercalate fun q member => (whole q member).through]
      simp only [List.reverse_nil, List.nil_append, List.map_cons, List.map_map, trim first,
        List.cons.injEq, true_and]
      refine List.map_congr_left fun q member => ?_
      rw [Function.comp_apply, List.dropWhile_cons_of_pos (by decide), trim (later q member)]
    have nonempty : (p :: ps).map String.toList ≠ [[]] := by
      obtain ⟨c, cs, chars, _⟩ := first.begins.chars
      simp [chars]
    simp only [argumentsBehind, parts, if_neg nonempty, List.map_map]
    simp [Function.comp_def]

/-! ## Calls -/

/-- Here a path of names is at its end, and nothing is called by it. -/
def Ends (rest : List Char) : Prop := ∀ c ∈ rest.head?, c ≠ '(' ∧ isPath c = false

/-- The calls in a text, wherever it stands. -/
def Reads (s : String) (calls : List Call) : Prop :=
  ∀ rest, Ends rest → scan [] (s.toList ++ rest) = calls ++ scan [] rest

theorem scan_ends {rest : List Char} (ends : Ends rest) (path : List Char) :
    scan path rest = scan [] rest := by
  cases rest with
  | nil => rfl
  | cons c cs =>
    obtain ⟨bracket, apart⟩ := ends c rfl
    simp only [scan, if_neg bracket, apart, Bool.false_eq_true, if_false]

theorem scan_path (h : Within (isPath ·) s) (path rest : List Char) :
    scan path (s.toList ++ rest) = scan (s.toList.reverse ++ path) rest := by
  unfold Within at h
  generalize s.toList = cs at h ⊢
  induction cs generalizing path with
  | nil => rfl
  | cons c cs ih =>
    obtain ⟨here, later⟩ := List.forall_mem_cons.mp h
    have plain : c ≠ '(' := by
      rintro rfl
      exact absurd here (by decide)
    rw [List.cons_append, scan, if_neg plain, if_pos here, ih _ later]
    simp

/-- Without a bracket there is no call, whatever path is left at the end. -/
theorem scan_plain (h : Within (· ≠ '(') s) (path : List Char) :
    ∃ path', ∀ rest, scan path (s.toList ++ rest) = scan path' rest := by
  unfold Within at h
  generalize s.toList = cs at h ⊢
  induction cs generalizing path with
  | nil => exact ⟨path, fun _ => rfl⟩
  | cons c cs ih =>
    obtain ⟨here, later⟩ := List.forall_mem_cons.mp h
    obtain ⟨path', same⟩ := ih (if isPath c then c :: path else []) later
    refine ⟨path', fun rest => ?_⟩
    rw [List.cons_append, scan, if_neg here, same]

namespace Reads

variable {calls : List Call}

theorem inText (h : Reads s calls) : inText s = calls := by
  have whole := h [] (by simp [Ends])
  rw [List.append_nil] at whole
  rw [Call.inText, whole]
  exact List.append_nil calls

theorem plain (h : Within (· ≠ '(') s) : Reads s [] := by
  intro rest ends
  obtain ⟨path, same⟩ := scan_plain h []
  rw [same, scan_ends ends]
  rfl

/-- Behind a blank a path begins anew. -/
theorem after {front : String} (h : Within (· ≠ '(') front) (later : Reads s calls) :
    Reads (front ++ " " ++ s) calls := by
  intro rest ends
  obtain ⟨path, same⟩ := scan_plain h []
  have blank : " ".toList = [' '] := by decide
  rw [String.toList_append, String.toList_append, blank, List.append_assoc, List.append_assoc, same,
    List.singleton_append]
  rw [scan, if_neg (by decide), if_neg (by decide), later rest ends]

theorem append {calls' : List Call} (hs : Reads s calls) (ht : Reads t calls')
    (begun : t ≠ "") (ends : Ends t.toList) : Reads (s ++ t) (calls ++ calls') := by
  intro rest behind
  have ends' : Ends (t.toList ++ rest) := by
    cases chars : t.toList with
    | nil => exact absurd (String.toList_eq_nil_iff.mp chars) begun
    | cons c cs => rw [chars] at ends; exact ends
  rw [String.toList_append, List.append_assoc, hs _ ends', ht _ behind, List.append_assoc]

theorem intercalate {texts : List String} (h : ∀ t ∈ texts, Reads t (Call.inText t)) :
    Reads (String.intercalate ", " texts) (texts.flatMap Call.inText) := by
  induction texts with
  | nil =>
    rw [String.intercalate_nil]
    exact plain (by decide)
  | cons first rest ih =>
    obtain ⟨head, tail⟩ := List.forall_mem_cons.mp h
    cases rest with
    | nil =>
      rw [String.intercalate_singleton, List.flatMap_singleton]
      exact head
    | cons second rest =>
      have later := (ih tail).after (show Within (· ≠ '(') "," by decide)
      have separator : ", " = "," ++ " " := by decide
      rw [String.intercalate_cons_cons, separator, String.append_assoc, ← separator]
      refine head.append later ?_ ?_
      · simp
      · simp [Ends]
        decide

/-- A call, with the calls in its arguments behind it. -/
theorem call {callee : String} (path : Within (isPath ·) callee) (named : callee ≠ "")
    {parts : List String} (whole : ∀ p ∈ parts, Whole p)
    (inside : Reads (String.intercalate ", " parts) calls) :
    Reads (callee ++ "(" ++ String.intercalate ", " parts ++ ")") (⟨callee, parts⟩ :: calls) := by
  intro rest ends
  have first : "(".toList = ['('] := by decide
  have last : ")".toList = [')'] := by decide
  have some : callee.toList.reverse ++ [] ≠ [] := by simpa using named
  have closed : Ends (')' :: rest) := by
    intro c head
    cases head
    decide
  simp only [String.toList_append, first, last, List.append_assoc, List.cons_append,
    List.nil_append]
  rw [scan_path path, scan, if_pos rfl, if_neg some, argumentsBehind_intercalate whole,
    inside _ closed, scan, if_neg (by decide), if_neg (by decide)]
  simp

end Reads

end Call

end SwiftCodec
