/-! The tape. It has a cell for every natural number, all zero at first; only the cells up to
the furthest one used so far are stored. -/
namespace TapeMachine

structure Tape where
  cells : Array Int := #[]
  deriving Repr, DecidableEq

namespace Tape

def length (t : Tape) : Nat := t.cells.size

def get (t : Tape) (i : Nat) : Int := t.cells[i]?.getD 0

def extend (t : Tape) (i : Nat) : Tape :=
  if i < t.cells.size then t else ⟨t.cells ++ Array.replicate (i + 1 - t.cells.size) 0⟩

def put (t : Tape) (i : Nat) (v : Int) : Tape := ⟨(t.extend i).cells.setIfInBounds i v⟩

@[simp] theorem length_extend (t : Tape) (i : Nat) :
    (t.extend i).length = max t.length (i + 1) := by
  unfold extend length
  split
  · omega
  · simp only [Array.size_append, Array.size_replicate]
    omega

@[simp] theorem length_put (t : Tape) (i : Nat) (v : Int) :
    (t.put i v).length = max t.length (i + 1) := by
  rw [← length_extend]
  simp [put, length]

@[simp] theorem get_extend (t : Tape) (i j : Nat) : (t.extend i).get j = t.get j := by
  unfold extend get
  split
  · rfl
  · rw [Array.getElem?_append]
    split
    · rfl
    · rename_i h
      rw [Array.getElem?_replicate, Array.getElem?_eq_none (Nat.le_of_not_lt h)]
      split <;> rfl

theorem get_put (t : Tape) (i j : Nat) (v : Int) :
    (t.put i v).get j = if i = j then v else t.get j := by
  have stored : i < (t.extend i).cells.size := by
    have := length_extend t i
    unfold length at this
    omega
  have extended := get_extend t i j
  unfold get at extended ⊢
  unfold put
  rw [Array.getElem?_setIfInBounds]
  by_cases h : i = j
  · subst h
    simp [stored]
  · simpa [h] using extended

theorem extend_of_lt {t : Tape} {i : Nat} (h : i < t.length) : t.extend i = t := if_pos h

end Tape

end TapeMachine
