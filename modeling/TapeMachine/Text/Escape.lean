import TapeMachine.Text.Basic
import TapeMachine.Text.Printable

namespace TapeMachine.Escape

def hex (width n : Nat) : Text := (Nat.toDigits 16 n).leftpad width '0'

def coded (c : Char) : Text :=
  if c.toNat < 0x100 then '\\' :: 'x' :: hex 2 c.toNat
  else if c.toNat < 0x10000 then '\\' :: 'u' :: hex 4 c.toNat
  else '\\' :: 'U' :: hex 8 c.toNat

def lettered? : Char → Option Text
  | '\\' => some ['\\', '\\']
  | '\t' => some ['\\', 't']
  | '\n' => some ['\\', 'n']
  | '\r' => some ['\\', 'r']
  | _ => none

def ascii (c : Char) : Text :=
  (lettered? c).getD (if ' ' ≤ c ∧ c ≤ '~' then [c] else coded c)

def inQuotes (quote c : Char) : Text :=
  if c = quote then ['\\', c]
  else (lettered? c).getD (if Printable.hidden c then coded c else [c])

def quoteFor (t : Text) : Char := if '\'' ∈ t ∧ '"' ∉ t then '"' else '\''

def quoted (t : Text) : Text :=
  quoteFor t :: t.flatMap (inQuotes (quoteFor t)) ++ [quoteFor t]

end TapeMachine.Escape
