/-! Texts are lists of characters, so that every offset counts characters and a scanner is
a function on lists. A line is what stands between two newlines; the text after the last
newline is a line too, possibly an empty one. -/
namespace TapeMachine

abbrev Text := List Char

instance coeString : Coe String (List Char) := ⟨String.toList⟩

namespace Text

def lines (t : Text) : List Text := t.splitOn '\n'

@[simp] theorem lines_nil : lines [] = [[]] := List.splitOn_nil '\n'

theorem lines_ne_nil (t : Text) : lines t ≠ [] := List.splitOn_ne_nil '\n' t

theorem lines_newline_cons (t : Text) : lines ('\n' :: t) = [] :: lines t := by
  simp [lines, List.splitOn_cons_eq_if_modifyHead]

theorem lines_cons {c : Char} (t : Text) (h : c ≠ '\n') :
    lines (c :: t) = (lines t).modifyHead (c :: ·) := by
  simp [lines, List.splitOn_cons_eq_if_modifyHead, h]

theorem length_lines (t : Text) : (lines t).length = t.count '\n' + 1 := by
  induction t with
  | nil => simp
  | cons c rest ih =>
    by_cases h : c = '\n'
    · subst h
      simp [lines_newline_cons, ih]
    · simp [lines_cons rest h, h, ih]

def slice (t : Text) (start stop : Nat) : Text := (t.take stop).drop start

def trimEnd (p : Char → Bool) (t : Text) : Text := (t.reverse.dropWhile p).reverse

def alignRight (width : Nat) (t : Text) : Text := t.leftpad width ' '

def joinWith (separator : Text) (ts : List Text) : Text := separator.intercalate ts

def notAfter (a b : Text) : Bool := !List.lex b a fun c d => decide (c.toNat < d.toNat)

def sortedSet (ts : List Text) : List Text := (ts.mergeSort notAfter).eraseDups

end Text

end TapeMachine
