import TapeMachine.Proofs.Concatenation
import TapeMachine.Source.Position

namespace TapeMachine

open Text

namespace Text

variable {source front behind : Text} {offset : Nat} {above : List Text}

/-- In front of the offset stand the lines `above` and then `front`, on the same line as the text
`behind`, with which the line ends. -/
structure LiesAt (source : Text) (offset : Nat) (above : List Text) (front behind : Text) :
    Prop where
  split : ∃ below, source = unlines above ++ (front ++ (behind ++ below)) ∧
    Stops (· != '\n') below
  reached : (unlines above ++ front).length = offset
  free : ∀ l ∈ above, '\n' ∉ l
  oneLine : '\n' ∉ front ++ behind

theorem unlines_append (ls more : List Text) : unlines (ls ++ more) = unlines ls ++ unlines more :=
  List.flatMap_append

theorem count_unlines {ls : List Text} (free : ∀ l ∈ ls, '\n' ∉ l) :
    (unlines ls).count '\n' = ls.length := by
  induction ls with
  | nil => rfl
  | cons l ls ih =>
    have here := List.count_eq_zero.mpr (free l List.mem_cons_self)
    have later := ih fun l member => free l (List.mem_cons_of_mem _ member)
    rw [unlines_cons, List.count_append, List.count_cons_self, here, later, List.length_cons]
    omega

theorem stops_reverse_unlines (ls : List Text) : Stops (· != '\n') (unlines ls).reverse := by
  rcases List.eq_nil_or_concat ls with rfl | ⟨ls, last, rfl⟩
  · rfl
  · simp [unlines, Stops]

theorem exists_unlines_append (t : Text) :
    ∃ ls last, t = unlines ls ++ last ∧ (∀ l ∈ ls, '\n' ∉ l) ∧ '\n' ∉ last := by
  obtain ⟨ls, last, split⟩ := (List.eq_nil_or_concat (lines t)).resolve_left (lines_ne_nil t)
  have whole := unlines_lines t
  have free := not_mem_of_mem_lines (t := t)
  rw [split, List.concat_eq_append] at whole free
  refine ⟨ls, last, ?_, fun l member => free l (by simp [member]), free last (by simp)⟩
  rw [unlines_append] at whole
  refine List.append_cancel_right (whole.symm.trans ?_)
  simp [unlines]

theorem exists_liesAt (inside : offset ≤ source.length) :
    ∃ above front behind, source.LiesAt offset above front behind := by
  obtain ⟨above, front, before, free, oneLine⟩ := exists_unlines_append (source.take offset)
  obtain ⟨behind, below, after, rest, stops⟩ := exists_run (· != '\n') (source.drop offset)
  have oneLine' : '\n' ∉ behind := fun newline => by simpa using rest '\n' newline
  have split := List.take_append_drop offset source
  rw [before, after, List.append_assoc] at split
  refine ⟨above, front, behind, ⟨below, split.symm, stops⟩, ?_, free, by simp [oneLine, oneLine']⟩
  rw [← before, List.length_take_of_le inside]

theorem length_trimEnd_le (p : Char → Bool) (t : Text) : (trimEnd p t).length ≤ t.length := by
  simpa [trimEnd] using (List.dropWhile_suffix (l := t.reverse) p).length_le

theorem mem_of_mem_trimEnd {p : Char → Bool} {t : Text} {c : Char} (member : c ∈ trimEnd p t) :
    c ∈ t := by
  rw [trimEnd, List.mem_reverse] at member
  exact List.mem_reverse.mp ((List.dropWhile_sublist p).mem member)

theorem exists_line_of_mem_quotedLine {number : Nat} {c : Char}
    (member : c ∈ source.quotedLine number) : ∃ line ∈ lines source, c ∈ line := by
  have inLine := mem_of_mem_trimEnd member
  cases found : (lines source)[number - 1]? with
  | none =>
    rw [found] at inLine
    cases inLine
  | some line =>
    rw [found] at inLine
    exact ⟨line, List.mem_of_getElem? found, inLine⟩

theorem trimEnd_append {p : Char → Bool} {w : Text} (stops : Stops p w.reverse) (t : Text) :
    trimEnd p (w ++ t) = w ++ trimEnd p t := by
  have kept : w.reverse.dropWhile p = w.reverse := dropWhile_append (w := []) nofun stops
  rw [trimEnd, List.reverse_append, List.dropWhile_append, kept, trimEnd]
  split
  · rename_i none
    rw [List.isEmpty_iff.mp none]
    simp
  · simp

namespace LiesAt

variable (lies : source.LiesAt offset above front behind)

include lies

theorem take_eq : source.take offset = unlines above ++ front := by
  obtain ⟨⟨below, rfl, -⟩, rfl, -, -⟩ := lies
  rw [← List.append_assoc]
  exact List.take_left

theorem drop_eq : ∃ below, source.drop offset = behind ++ below ∧ Stops (· != '\n') below := by
  obtain ⟨⟨below, rfl, stops⟩, rfl, -, -⟩ := lies
  refine ⟨below, ?_, stops⟩
  rw [← List.append_assoc]
  exact List.drop_left

theorem mem_of_mem_line {c : Char} (member : c ∈ front ++ behind) : c ∈ source := by
  obtain ⟨⟨below, rfl, -⟩, -, -, -⟩ := lies
  rcases List.mem_append.mp member with inFront | inBehind
  · simp [inFront]
  · simp [inBehind]

theorem position : Position.ofOffset source offset = ⟨above.length + 1, front.length + 1⟩ := by
  have free := List.count_eq_zero.mpr fun newline => lies.oneLine (List.mem_append_left _ newline)
  have filled : ∀ c ∈ front.reverse, c != '\n' := by
    intro c member
    have other : c ≠ '\n' := by
      rintro rfl
      exact lies.oneLine (List.mem_append_left _ (List.mem_reverse.mp member))
    simpa using other
  have start : Position.lineStart (unlines above ++ front) = (unlines above).length := by
    rw [Position.lineStart, List.reverse_append,
      takeWhile_append filled (stops_reverse_unlines above)]
    simp
  have reached := lies.reached
  rw [List.length_append] at reached
  simp only [Position.ofOffset, lies.take_eq, start, List.count_append, count_unlines lies.free,
    free, Position.mk.injEq, Nat.add_zero, true_and]
  omega

theorem lines_eq : ∃ more, lines source = above ++ (front ++ behind) :: more := by
  obtain ⟨⟨below, rfl, stops⟩, -, free, oneLine⟩ := lies
  rw [lines_unlines_append free, ← List.append_assoc]
  cases below with
  | nil =>
    rw [List.append_nil, lines_of_not_mem oneLine]
    exact ⟨[], rfl⟩
  | cons c below =>
    obtain rfl : c = '\n' := by simpa using stops
    rw [lines, List.splitOn_append_cons_self, ← lines, ← lines, lines_of_not_mem oneLine]
    exact ⟨lines below, rfl⟩

theorem quotedLine :
    source.quotedLine (above.length + 1) = trimEnd (· == '\r') (front ++ behind) := by
  obtain ⟨more, split⟩ := lies.lines_eq
  simp [Text.quotedLine, split]

theorem at_prefix {s : Span} (starts : s.start = offset) (inSource : s.stop ≤ source.length)
    (inLine : '\n' ∉ source.at s) :
    source.at s <+: behind ∧ (source.at s).length = s.stop - s.start := by
  obtain ⟨below, rest, stops⟩ := lies.drop_eq
  have shown : source.at s = (behind ++ below).take (s.stop - s.start) := by
    rw [Text.at, slice, List.drop_take, starts, rest]
  have width : (source.at s).length = s.stop - s.start := by
    simp only [Text.at, slice, List.length_drop, List.length_take]
    omega
  refine ⟨?_, width⟩
  rw [shown, List.take_append] at inLine ⊢
  have short : below.take (s.stop - s.start - behind.length) = [] := by
    cases below with
    | nil => exact List.take_nil
    | cons c below =>
      obtain rfl : c = '\n' := by simpa using stops
      cases more : s.stop - s.start - behind.length with
      | zero => rfl
      | succ n => simp [more] at inLine
  rw [short, List.append_nil]
  exact List.take_prefix _ _

/-- A text that lies on one line, and is more than a carriage return at the end of it, is quoted as
it is. Nothing is quoted at the end of the source. -/
theorem quoted_eq {s : Span} (starts : s.start = offset) (inSource : s.stop ≤ source.length)
    (filled : s.start < s.stop ∨ s.start = source.length) (inLine : '\n' ∉ source.at s)
    (kept : '\r' ∉ source.at s) :
    ((source.quotedLine (above.length + 1)).drop front.length).take (max (s.stop - s.start) 1) =
      source.at s := by
  obtain ⟨⟨rest, split⟩, width⟩ := lies.at_prefix starts inSource inLine
  rw [lies.quotedLine]
  cases shown : (source.at s).reverse with
  | nil =>
    rw [List.reverse_eq_nil_iff] at shown
    rw [shown, List.length_nil] at width
    have ends : behind = [] := by
      obtain ⟨below, after, -⟩ := lies.drop_eq
      rw [← starts, List.drop_eq_nil_of_le (by omega)] at after
      exact (List.append_eq_nil_iff.mp after.symm).1
    rw [ends, List.append_nil, List.drop_eq_nil_of_le (length_trimEnd_le _ _), List.take_nil, shown]
  | cons c shownRest =>
    have member : c ∈ source.at s := by
      rw [← List.mem_reverse, shown]
      exact List.mem_cons_self
    have last : Stops (· == '\r') (front ++ source.at s).reverse := by
      have other : c ≠ '\r' := fun same => kept (same ▸ member)
      rw [List.reverse_append, shown]
      simpa using other
    have positive := List.length_pos_of_mem member
    rw [← split, ← List.append_assoc, trimEnd_append last, List.append_assoc, List.drop_left,
      ← width, Nat.max_eq_left positive, List.take_left]

end LiesAt

end Text

end TapeMachine
