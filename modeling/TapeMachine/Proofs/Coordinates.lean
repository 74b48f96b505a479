import Mathlib.Algebra.GroupWithZero.Nat
import Mathlib.Data.Prod.Lex
import TapeMachine.Proofs.Positions

namespace TapeMachine

open Text

def Text.lineOffset (source : Text) (index : Nat) : Nat :=
  (((lines source).take index).map fun line => line.length + 1).sum

namespace Position

def lex (p : Position) : Nat ×ₗ Nat := toLex (p.line, p.column)

def next (p : Position) (c : Option Char) : Position :=
  if c = some '\n' then ⟨p.line + 1, 1⟩ else ⟨p.line, p.column + 1⟩

def offset (source : Text) (p : Position) : Nat := source.lineOffset (p.line - 1) + (p.column - 1)

/-- The position is on the given line of the source, at most right behind it. -/
structure OnLine (source line : Text) (p : Position) : Prop where
  numbered : 1 ≤ p.line ∧ p.line ≤ (lines source).length
  given : (lines source)[p.line - 1]? = some line
  inside : 1 ≤ p.column ∧ p.column ≤ line.length + 1

theorem lineStart_le (before : Text) : lineStart before ≤ before.length := Nat.sub_le _ _

theorem lineStart_newline (before : Text) : lineStart (before ++ ['\n']) = before.length + 1 := by
  simp [lineStart]

theorem lineStart_append {c : Char} (other : c ≠ '\n') (before : Text) :
    lineStart (before ++ [c]) = lineStart before := by
  simp [lineStart, other]

theorem lex_lt_next (p : Position) (c : Option Char) : p.lex < (p.next c).lex := by
  apply Prod.Lex.toLex_lt_toLex.mpr
  unfold next
  split
  · exact .inl (Nat.lt_succ_self p.line)
  · exact .inr ⟨rfl, Nat.lt_succ_self p.column⟩

theorem ofOffset_succ (source : Text) (i : Nat) :
    ofOffset source (i + 1) = (ofOffset source i).next source[i]? := by
  have start := lineStart_le (source.take i)
  have before := List.length_take_le i source
  cases here : source[i]? with
  | none =>
    -- past the end the same characters are in front, and their last line starts where it did
    simp only [ofOffset, List.take_add_one, here, next, Option.toList_none, List.append_nil,
      reduceCtorEq, if_false, mk.injEq, true_and]
    omega
  | some c =>
    have whole : (source.take i).length = i :=
      List.length_take_of_le (Nat.le_of_lt (List.getElem?_eq_some_iff.mp here).1)
    by_cases newline : c = '\n'
    · subst newline
      simp only [ofOffset, List.take_add_one, here, next, Option.toList_some, if_true,
        lineStart_newline, List.count_append, List.count_singleton_self, mk.injEq, true_and]
      omega
    · have none : [c].count '\n' = 0 := List.count_eq_zero.mpr (by simpa using Ne.symm newline)
      simp only [ofOffset, List.take_add_one, here, next, Option.toList_some, Option.some.injEq,
        newline, if_false, lineStart_append newline, List.count_append, none, Nat.add_zero,
        mk.injEq, true_and]
      omega

theorem ofOffset_strictMono (source : Text) : StrictMono fun i => (ofOffset source i).lex := by
  apply strictMono_nat_of_lt_succ
  intro i
  rw [ofOffset_succ]
  exact lex_lt_next _ _

end Position

namespace Text

variable {source front behind : Text} {above : List Text} {i : Nat}

theorem length_unlines (ls : List Text) :
    (unlines ls).length = (ls.map fun line => line.length + 1).sum := by
  induction ls with
  | nil => rfl
  | cons l ls ih =>
    rw [length_unlines_cons, ih, List.map_cons, List.sum_cons]

theorem exists_intercalate_eq (above : List Text) (line : Text) (more : List Text) :
    ∃ below, ['\n'].intercalate (above ++ line :: more) = unlines above ++ (line ++ below) ∧
      Stops (· != '\n') below := by
  -- on the lines above; the first case decides whether the line is the last one
  induction above with
  | nil =>
    cases more with
    | nil => exact ⟨[], by simp [unlines], rfl⟩
    | cons next more =>
      refine ⟨'\n' :: ['\n'].intercalate (next :: more), ?_, rfl⟩
      simp [unlines]
  | cons l above ih =>
    obtain ⟨below, later, stops⟩ := ih
    refine ⟨below, ?_, stops⟩
    rw [List.cons_append, List.intercalate_cons_of_ne_nil (by simp), later, unlines_cons]
    simp

namespace LiesAt

variable (lies : source.LiesAt i above front behind)

include lies

theorem le_length : i ≤ source.length := by
  obtain ⟨⟨below, rfl, -⟩, rfl, -, -⟩ := lies
  simp only [List.length_append]
  omega

theorem onLine : (Position.ofOffset source i).OnLine source (front ++ behind) := by
  obtain ⟨more, split⟩ := lies.lines_eq
  rw [lies.position]
  constructor
  · simp only [split, List.length_append, List.length_cons]
    omega
  · simp [split]
  · simp only [List.length_append]
    omega

theorem offset_position : (Position.ofOffset source i).offset source = i := by
  obtain ⟨more, split⟩ := lies.lines_eq
  have reached := lies.reached
  rw [List.length_append, length_unlines] at reached
  rw [lies.position, Position.offset, lineOffset, split]
  simpa using reached

theorem column_eq_iff : (Position.ofOffset source i).column = (front ++ behind).length + 1 ↔
    source[i]? = some '\n' ∨ i = source.length := by
  obtain ⟨below, rest, stops⟩ := lies.drop_eq
  have inside := lies.le_length
  have here : source[i]? = (behind ++ below).head? := by rw [← rest, List.head?_drop]
  have left : source.length - i = (behind ++ below).length := by rw [← rest, List.length_drop]
  rw [lies.position, here]
  cases behind with
  | nil =>
    constructor
    · intro last
      cases below with
      | nil =>
        rw [List.append_nil, List.length_nil] at left
        exact .inr (by omega)
      | cons c below =>
        obtain rfl : c = '\n' := by simpa using stops
        exact .inl rfl
    · intro ends
      rw [List.append_nil]
  | cons c behind =>
    constructor
    · intro last
      simp only [List.length_append, List.length_cons] at last
      omega
    · rintro (newline | ends)
      · -- the newline would be on the line itself
        obtain rfl : c = '\n' := Option.some.inj newline
        exact absurd (by simp) lies.oneLine
      · simp only [List.length_append, List.length_cons] at left
        omega

end LiesAt

end Text

namespace Position

variable {source line : Text} {p : Position}

namespace OnLine

variable (on : p.OnLine source line)

include on

theorem liesAt : source.LiesAt (p.offset source) ((lines source).take (p.line - 1))
    (line.take (p.column - 1)) (line.drop (p.column - 1)) := by
  obtain ⟨-, given, first, inside⟩ := on
  obtain ⟨found, here⟩ := List.getElem?_eq_some_iff.mp given
  have free := not_mem_of_mem_lines (t := source)
  have split := List.take_append_drop (p.line - 1) (lines source)
  rw [List.drop_eq_getElem_cons found, here] at split
  obtain ⟨below, whole, stops⟩ := exists_intercalate_eq ((lines source).take (p.line - 1)) line
    ((lines source).drop (p.line - 1 + 1))
  have joined : ['\n'].intercalate (lines source) = source := List.intercalate_splitOn '\n'
  rw [split, joined] at whole
  refine ⟨⟨below, ?_, stops⟩, ?_, fun l member => free l (List.mem_of_mem_take member), ?_⟩
  · rw [← List.append_assoc (line.take _), List.take_append_drop]
    exact whole
  · rw [List.length_append, length_unlines, List.length_take_of_le (by omega)]
    rfl
  · rw [List.take_append_drop]
    exact free line (List.mem_of_getElem? given)

theorem ofOffset_offset : ofOffset source (p.offset source) = p := by
  have position := on.liesAt.position
  obtain ⟨⟨first, -⟩, given, first', inside⟩ := on
  have above := (List.getElem?_eq_some_iff.mp given).1
  rw [List.length_take_of_le (by omega), List.length_take_of_le (by omega),
    Nat.sub_add_cancel first, Nat.sub_add_cancel first'] at position
  exact position

end OnLine

end Position

namespace Piece

theorem getElem?_ofLines (offset : Nat) (ls : List Text) (index : Nat) :
    ((ofLines offset ls)[index]?.map fun piece => (piece.text, piece.offset)) =
      ls[index]?.map fun line =>
        (line, offset + ((ls.take index).map fun above => above.length + 1).sum) := by
  induction ls generalizing offset index with
  | nil => rfl
  | cons l ls ih =>
    cases ls with
    | nil => cases index <;> rfl
    | cons next ls =>
      rw [ofLines_cons (List.cons_ne_nil next ls)]
      cases index with
      | zero => rfl
      | succ index =>
        rw [List.getElem?_cons_succ, List.getElem?_cons_succ, ih]
        simp only [List.take_succ_cons, List.map_cons, List.sum_cons, Nat.add_assoc]

theorem positions_ofSource (source : Text) :
    (ofSource source).map (fun piece => (piece.text, Position.ofOffset source piece.offset)) =
      (lines source).mapIdx fun index line => (line, ⟨index + 1, 1⟩) := by
  apply List.ext_getElem?
  intro index
  have offsets := congrArg (Option.map fun place => (place.1, Position.ofOffset source place.2))
    (getElem?_ofLines 0 (lines source) index)
  rw [Option.map_map, Option.map_map] at offsets
  rw [List.getElem?_map, List.getElem?_mapIdx]
  refine Eq.trans offsets ?_
  cases given : (lines source)[index]? with
  | none => rfl
  | some line =>
    have inside := (List.getElem?_eq_some_iff.mp given).1
    have first : Position.OnLine source line ⟨index + 1, 1⟩ :=
      ⟨⟨Nat.le_add_left 1 index, inside⟩, given, Nat.le_refl 1, Nat.le_add_left 1 _⟩
    have there := first.ofOffset_offset
    simp only [Position.offset, lineOffset, Nat.add_sub_cancel, Nat.sub_self, Nat.add_zero] at there
    simp only [Option.map_some, Function.comp_apply, Nat.zero_add, there]

end Piece

namespace Position

/-- Positions are in the order of their offsets, also past the end of the source. An offset in the
source has a position on one of its lines, right behind the line exactly at its newline and at the
end, from which it is found again; and every position on a line is the one of its own offset. The
lines start at the offsets of their first columns. -/
theorem ofOffset_inverts_offset (source : Text) :
    (StrictMono fun i => (ofOffset source i).lex) ∧
    (∀ i ≤ source.length, ∃ line, (ofOffset source i).OnLine source line ∧
      (ofOffset source i).offset source = i ∧
      ((ofOffset source i).column = line.length + 1 ↔
        source[i]? = some '\n' ∨ i = source.length)) ∧
    (∀ p line, OnLine source line p →
      p.offset source ≤ source.length ∧ ofOffset source (p.offset source) = p) ∧
    (Piece.ofSource source).map (fun piece => (piece.text, ofOffset source piece.offset)) =
      (lines source).mapIdx fun index line => (line, ⟨index + 1, 1⟩) := by
  refine ⟨ofOffset_strictMono source, ?_, ?_, Piece.positions_ofSource source⟩
  · intro i inside
    obtain ⟨above, front, behind, lies⟩ := exists_liesAt inside
    exact ⟨front ++ behind, lies.onLine, lies.offset_position, lies.column_eq_iff⟩
  · intro p line on
    exact ⟨on.liesAt.le_length, on.ofOffset_offset⟩

theorem ofOffset_inverts_offset_of_empty_line :
    let source : Text := "gol\n\nset 5"
    let last : Position := ⟨3, 6⟩
    (10 < 12 ∧ (ofOffset source 10).lex < (ofOffset source 12).lex) ∧
    (4 ≤ source.length ∧ ofOffset source 4 = ⟨2, 1⟩ ∧ (ofOffset source 4).offset source = 4 ∧
      (ofOffset source 4).OnLine source [] ∧ (source[4]? = some '\n' ∨ 4 = source.length)) ∧
    last.OnLine source "set 5" ∧ ofOffset source (last.offset source) = last := by
  intro source last
  obtain ⟨increasing, offsets, positions, -⟩ := ofOffset_inverts_offset source
  have here : ofOffset source 4 = ⟨2, 1⟩ := rfl
  obtain ⟨line, on, found, ends⟩ := offsets 4 (by decide)
  have given := on.given
  rw [here] at given
  obtain rfl : [] = line := Option.some.inj given
  have onLast : last.OnLine source "set 5" := ⟨by decide, rfl, by decide⟩
  exact ⟨⟨by decide, increasing (by decide)⟩, ⟨by decide, here, found, on, ends.mp rfl⟩, onLast,
    (positions last _ onLast).2⟩

end Position

end TapeMachine
