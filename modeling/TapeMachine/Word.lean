namespace TapeMachine.Word

def minimum : Int := -9223372036854775808
def maximum : Int := 9223372036854775807

def InRange (v : Int) : Prop := minimum ≤ v ∧ v ≤ maximum

instance (v : Int) : Decidable (InRange v) := inferInstanceAs (Decidable (_ ∧ _))

/-- The lowest 64 bits of `v`, read as a signed number. -/
def wrap (v : Int) : Int :=
  let bits := v % 18446744073709551616
  if maximum < bits then bits - 18446744073709551616 else bits

def quotient (a b : Int) : Int :=
  let size : Int := (a.natAbs / b.natAbs : Nat)
  if a < 0 ↔ b < 0 then size else -size

def quotient? (a b : Int) : Option Int := if b = 0 then none else some (quotient a b)

def scalar? (v : Int) : Option Char :=
  if 0 ≤ v ∧ v.toNat.isValidChar then some (Char.ofNat v.toNat) else none

theorem wrap_inRange (v : Int) : InRange (wrap v) := by
  unfold InRange wrap minimum maximum
  dsimp only
  split <;> omega

theorem wrap_of_inRange {v : Int} (h : InRange v) : wrap v = v := by
  unfold InRange minimum maximum at h
  unfold wrap maximum
  dsimp only
  split <;> omega

theorem quotient_eq_tdiv (a b : Int) : quotient a b = a.tdiv b := by
  have nonneg (k : Nat) : ¬ Int.ofNat k < 0 := Int.not_lt.mpr (Int.natCast_nonneg k)
  have below (k : Nat) : Int.negSucc k < 0 := Int.negSucc_lt_zero k
  unfold quotient
  cases a with
  | ofNat m =>
    cases b with
    | ofNat n =>
      rw [if_pos (iff_of_false (nonneg m) (nonneg n))]
      rfl
    | negSucc n =>
      rw [if_neg fun same => nonneg m (same.mpr (below n))]
      rfl
  | negSucc m =>
    cases b with
    | ofNat n =>
      rw [if_neg fun same => nonneg n (same.mp (below m))]
      rfl
    | negSucc n =>
      rw [if_pos (iff_of_true (below m) (below n))]
      rfl

end TapeMachine.Word
