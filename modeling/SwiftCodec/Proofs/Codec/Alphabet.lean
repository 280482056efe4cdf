import SwiftCodec.Proofs.Output.Weaving
import SwiftCodec.Proofs.Text.Call

/-!
The characters of spellings: those of names, and a few signs.
-/
namespace SwiftCodec

variable {C : Char → Prop}

/-- The signs in the spelling of a type. -/
def spellingSigns : String := "?[]:<>, "

namespace TypeExpr

theorem within_spellWith (signs : Within C spellingSigns) {base : String} (named : Within C base)
    {args : List String} (inside : ∀ a ∈ args, Within C a) : Within C (spellWith base args) := by
  match args with
  | [] => exact named
  | [a] =>
    have inner := inside a (by simp)
    simp only [spellWith]
    split_ifs
    · exact inner.append (signs.part (by decide))
    · exact ((signs.part (by decide)).append inner).append (signs.part (by decide))
    · exact ((named.append (signs.part (by decide))).append inner).append (signs.part (by decide))
  | [a, b] =>
    have first := inside a (by simp)
    have second := inside b (by simp)
    simp only [spellWith]
    split_ifs
    · exact ((((signs.part (by decide)).append first).append (signs.part (by decide))).append
        second).append (signs.part (by decide))
    · exact ((((named.append (signs.part (by decide))).append first).append
        (signs.part (by decide))).append second).append (signs.part (by decide))
  | a :: b :: c :: rest =>
    have inner : Within C (String.intercalate ", " (a :: b :: c :: rest)) :=
      .intercalate (signs.part (by decide)) inside
    simp only [spellWith]
    exact ((named.append (signs.part (by decide))).append inner).append (signs.part (by decide))

theorem within_spell (signs : Within C spellingSigns) {t : TypeExpr} (covered : t.Over (Within C)) :
    Within C t.spell := by
  induction t with
  | node base target args ih =>
    rw [spell, spellAll_eq_map]
    refine within_spellWith signs covered.here fun text member => ?_
    obtain ⟨a, arg, rfl⟩ := List.mem_map.mp member
    exact ih a arg (covered.arg arg)

end TypeExpr

end SwiftCodec
