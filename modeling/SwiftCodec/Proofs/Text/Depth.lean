import SwiftCodec.Codec.Statement
import SwiftCodec.Proofs.Text.Scope
import Mathlib.Data.List.Infix

/-!
How deep in braces a text goes, counted from where it begins.
-/
namespace SwiftCodec

/-- The braces that are opened, less those that are closed. -/
def braces (cs : List Char) : Int := cs.count '\x7b' - cs.count '\x7d'

theorem braces_append (cs cs' : List Char) : braces (cs ++ cs') = braces cs + braces cs' := by
  simp only [braces, List.count_append]
  omega

theorem braces_eq_zero {cs : List Char} (plain : ∀ c ∈ cs, c ≠ '\x7b' ∧ c ≠ '\x7d') :
    braces cs = 0 := by
  have opening : cs.count '\x7b' = 0 := List.count_eq_zero.mpr fun member => (plain _ member).1 rfl
  have closing : cs.count '\x7d' = 0 := List.count_eq_zero.mpr fun member => (plain _ member).2 rfl
  rw [braces, opening, closing]
  rfl

/-- A text that nowhere falls below one depth and ends at another. -/
structure Spans (s : String) (low last : Int) : Prop where
  low : ∀ cs, cs <+: s.toList → low ≤ braces cs
  last : braces s.toList = last

instance (s : String) (low last : Int) : Decidable (Spans s low last) :=
  decidable_of_iff ((∀ cs ∈ s.toList.inits, low ≤ braces cs) ∧ braces s.toList = last) <| by
    constructor
    · rintro ⟨each, whole⟩
      exact ⟨fun cs front => each cs ((List.mem_inits _ _).mpr front), whole⟩
    · rintro ⟨each, whole⟩
      exact ⟨fun cs front => each cs ((List.mem_inits _ _).mp front), whole⟩

/-- A text that closes what it opens, and nothing else. -/
abbrev Level (s : String) : Prop := Spans s 0 0

namespace Spans

variable {s t : String} {low low' last last' bound : Int}

theorem low_nonpos (h : Spans s low last) : low ≤ 0 := h.low [] List.nil_prefix

theorem low_le_last (h : Spans s low last) : low ≤ last := h.last ▸ h.low _ List.prefix_rfl

theorem append (hs : Spans s low last) (ht : Spans t low' last') (first : bound ≤ low)
    (second : bound ≤ last + low') : Spans (s ++ t) bound (last + last') where
  low := by
    -- What is read of the whole ends inside of the first text, or goes on behind all of it.
    intro cs front
    rw [String.toList_append] at front
    rcases List.prefix_or_prefix_of_prefix front (List.prefix_append s.toList t.toList) with
      inside | ⟨rest, rfl⟩
    · exact Int.le_trans first (hs.low cs inside)
    · have behind := ht.low rest ((List.prefix_append_right_inj _).mp front)
      rw [braces_append, hs.last]
      omega
  last := by rw [String.toList_append, braces_append, hs.last, ht.last]

theorem after (hs : Level s) (ht : Spans t low last) : Spans (s ++ t) low last := by
  have whole : Spans (s ++ t) low (0 + last) := hs.append ht ht.low_nonpos (by omega)
  rwa [Int.zero_add] at whole

theorem before (hs : Spans s low last) (ht : Level t) : Spans (s ++ t) low last := by
  have above := hs.low_le_last
  have whole : Spans (s ++ t) low (last + 0) := hs.append ht (Int.le_refl _) (by omega)
  rwa [Int.add_zero] at whole

theorem level (plain : Within (fun c => c ≠ '\x7b' ∧ c ≠ '\x7d') s) : Level s where
  low _ front := Int.le_of_eq (braces_eq_zero fun c member => plain c (front.subset member)).symm
  last := braces_eq_zero plain

theorem indent (h : Spans s low last) (width : Nat) : Spans (indent width s) low last := by
  unfold SwiftCodec.indent
  split
  · rename_i blank
    exact blank ▸ h
  · refine after (level fun c member => ?_) h
    rw [String.toList_ofList] at member
    rw [List.eq_of_mem_replicate member]
    decide

end Spans

theorem Level.closure {s : String} (h : Level s) : Level (Plan.closure s) := by
  have opening : Spans "\x7b " 0 1 := by decide
  have closing : Spans " \x7d" (-1) (-1) := by decide
  exact (opening.before h).append closing (by decide) (by decide)

end SwiftCodec
