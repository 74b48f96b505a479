import Mathlib.Data.Int.ModEq
import Mathlib.Tactic.Ring
import TapeMachine.Word

/-! Words and integers. Wrapping gives the one word that is congruent to a number modulo `2 ^ 64`,
so that a sum or a product may be wrapped as often as one likes. A quotient is the one number that
leaves a remainder which is smaller than the divisor and has the sign of the dividend; that of two
words is a word, unless the least one is divided by -1. -/
namespace TapeMachine.Word

section
variable {v w : Int}

theorem wrap_modEq (v : Int) : wrap v ≡ v [ZMOD 2 ^ 64] := by
  unfold Int.ModEq wrap maximum
  dsimp only
  split <;> omega

theorem eq_of_modEq (left : InRange v) (right : InRange w) (same : v ≡ w [ZMOD 2 ^ 64]) :
    v = w := by
  unfold InRange minimum maximum at left right
  unfold Int.ModEq at same
  omega

theorem wrap_eq_iff : wrap v = w ↔ InRange w ∧ w ≡ v [ZMOD 2 ^ 64] := by
  constructor
  · rintro rfl
    exact ⟨wrap_inRange v, wrap_modEq v⟩
  · rintro ⟨inRange, same⟩
    apply eq_of_modEq (wrap_inRange v) inRange
    exact (wrap_modEq v).trans same.symm

theorem wrap_congr (same : v ≡ w [ZMOD 2 ^ 64]) : wrap v = wrap w :=
  wrap_eq_iff.mpr ⟨wrap_inRange w, (wrap_modEq w).trans same.symm⟩

theorem wrap_add (v w : Int) : wrap (wrap v + w) = wrap (v + w) :=
  wrap_congr ((wrap_modEq v).add_right w)

theorem wrap_sub (v w : Int) : wrap (wrap v - w) = wrap (v - w) :=
  wrap_congr ((wrap_modEq v).sub_right w)

theorem wrap_mul (v w : Int) : wrap (wrap v * w) = wrap (v * w) :=
  wrap_congr ((wrap_modEq v).mul_right w)

theorem wrap_eq_self_iff : wrap v = v ↔ InRange v := by
  constructor
  · intro same
    rw [← same]
    exact wrap_inRange v
  · exact wrap_of_inRange

end

/-- What is left of `a` when it is divided by `b`. -/
structure Remainder (a b r : Int) : Prop where
  smaller : r.natAbs < b.natAbs
  sign : r = 0 ∨ r.sign = a.sign

namespace Remainder
variable {a b r s q : Int}

theorem of_quotient (a : Int) (nonzero : b ≠ 0) : Remainder a b (a - quotient a b * b) := by
  have rest : a - quotient a b * b = a.tmod b := by
    rw [quotient_eq_tdiv, Int.tmod_def, Int.mul_comm]
  rw [rest]
  constructor
  · rw [Int.natAbs_tmod]
    exact Nat.mod_lt _ (Int.natAbs_pos.mpr nonzero)
  · have sign := Int.sign_tmod a b
    split at sign
    · exact .inl (Int.sign_eq_zero_iff_zero.mp sign)
    · exact .inr sign

theorem natAbs_sub_lt (left : Remainder a b r) (right : Remainder a b s) :
    (r - s).natAbs < b.natAbs := by
  have small := left.smaller
  have small' := right.smaller
  rcases left.sign with zero | sign
  · omega
  · rcases right.sign with zero | sign'
    · omega
    · have same : r.sign = s.sign := sign.trans sign'.symm
      rcases Int.lt_trichotomy r 0 with below | zero | above
      · have below' : s < 0 := by
          rw [← Int.sign_eq_neg_one_iff_neg, ← same]
          exact Int.sign_eq_neg_one_of_neg below
        omega
      · omega
      · have above' : 0 < s := by
          rw [← Int.sign_eq_one_iff_pos, ← same]
          exact Int.sign_eq_one_of_pos above
        omega

theorem eq_quotient (nonzero : b ≠ 0) (remainder : Remainder a b (a - q * b)) :
    quotient a b = q := by
  have close := natAbs_sub_lt remainder (of_quotient a nonzero)
  have difference : a - q * b - (a - quotient a b * b) = b * (quotient a b - q) := by ring
  rw [difference] at close
  have none := Int.eq_zero_of_dvd_of_natAbs_lt_natAbs (Int.dvd_mul_right b _) close
  rcases Int.mul_eq_zero.mp none with zero | zero
  · exact absurd zero nonzero
  · omega

end Remainder

theorem quotient_eq_iff {a b : Int} (nonzero : b ≠ 0) (q : Int) :
    quotient a b = q ↔ Remainder a b (a - q * b) := by
  constructor
  · rintro rfl
    exact .of_quotient a nonzero
  · exact Remainder.eq_quotient nonzero

theorem natAbs_quotient (a b : Int) : (quotient a b).natAbs = a.natAbs / b.natAbs := by
  rw [quotient_eq_tdiv, Int.natAbs_tdiv]
  rfl

theorem quotient_one (a : Int) : quotient a 1 = a := by
  rw [quotient_eq_tdiv, Int.tdiv_one]

theorem quotient_neg_one (a : Int) : quotient a (-1) = -a := by
  rw [quotient_eq_tdiv, Int.tdiv_neg, Int.tdiv_one]

/-- Only the quotient of the least word by -1 is no word. -/
theorem quotient_inRange_iff {a : Int} (inRange : InRange a) (b : Int) :
    InRange (quotient a b) ↔ ¬ (a = minimum ∧ b = -1) := by
  constructor
  · rintro word ⟨rfl, rfl⟩
    exact absurd word (by decide)
  · intro other
    have size := natAbs_quotient a b
    unfold InRange minimum maximum at *
    by_cases one : b = 1
    · rw [one, quotient_one]
      exact inRange
    · by_cases negative : b = -1
      · rw [negative, quotient_neg_one]
        omega
      · -- any other divisor takes at least half of the size away
        have half : a.natAbs / b.natAbs ≤ a.natAbs / 2 := by
          by_cases zero : b.natAbs = 0
          · rw [zero, Nat.div_zero]
            exact Nat.zero_le _
          · apply Nat.div_le_div_left <;> omega
        omega

end TapeMachine.Word
