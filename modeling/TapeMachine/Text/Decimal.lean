import TapeMachine.Text.Basic

namespace TapeMachine.Decimal

def ofNat (n : Nat) : Text := Nat.toDigits 10 n

def ofInt : Int → Text
  | .ofNat n => ofNat n
  | .negSucc n => '-' :: ofNat (n + 1)

def padded (width n : Nat) : Text := (ofNat n).leftpad width '0'

def toNat (digits : Text) : Nat := Nat.ofDigitChars 10 digits 0

def toInt : Text → Int
  | '-' :: digits => -(toNat digits : Int)
  | digits => toNat digits

theorem toNat_ofNat (n : Nat) : toNat (ofNat n) = n := Nat.ofDigitChars_ten_toDigits

theorem isDigit_of_mem_ofNat {n : Nat} {c : Char} (h : c ∈ ofNat n) : c.isDigit :=
  Nat.isDigit_of_mem_toDigits (by decide) (by decide) h

theorem ofNat_ne_nil (n : Nat) : ofNat n ≠ [] := Nat.toDigits_ne_nil

theorem toInt_of_digits {digits : Text} (h : ∀ c ∈ digits, c.isDigit) :
    toInt digits = toNat digits := by
  unfold toInt
  split
  · exact absurd (h '-' (by simp)) (by decide)
  · rfl

end TapeMachine.Decimal
