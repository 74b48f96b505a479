import Mathlib.Data.List.DropRight
import TapeMachine.Proofs.Operands
import TapeMachine.Proofs.Positions

namespace TapeMachine

open Text

/-- What stands behind the last newline; the whole text if it has none. -/
def Text.lastLine (t : Text) : Text := t.rtakeWhile (· != '\n')

theorem Text.lastLine_unlines_append {ls : List Text} {last : Text} (free : '\n' ∉ last) :
    (unlines ls ++ last).lastLine = last := by
  have filled : ∀ c ∈ last.reverse, (c != '\n') = true := by
    intro c member
    rw [bne_iff_ne]
    rintro rfl
    exact free (List.mem_reverse.mp member)
  rw [lastLine, List.rtakeWhile, List.reverse_append,
    takeWhile_append filled (stops_reverse_unlines ls), List.reverse_reverse]

theorem Verdict.start_of_rejected {t : Text} {offset : Nat} {terminated : Bool} {e : SyntaxError}
    (rejected : ofText t offset terminated = .rejected e) :
    ∃ i, e.span.start = offset + i ∧ i ≤ t.length := by
  rcases failed_of_rejected rejected with ⟨f, i, w, failed, rfl⟩ | rfl
  · cases Form.fails_of_error failed with
    | overflow literal outside =>
      obtain ⟨-, before, c, behind, rfl, place, -⟩ := literal
      refine ⟨i, rfl, ?_⟩
      simp only [List.length_append, List.length_cons]
      omega
  · refine ⟨_, rfl, Mismatch.furthest_le ?_⟩
    intro m member
    obtain ⟨f, -, failed⟩ := List.mem_filterMap.mp member
    exact Mismatch.offset_le_of_mismatch? failed

namespace Piece

/-- The error is the one about this malformed line, and starts on it or at its newline. -/
structure Reports (p : Piece) (e : SyntaxError) : Prop where
  rejected : p.verdict = .rejected e
  inside : p.offset ≤ e.span.start ∧ e.span.start ≤ p.stop

theorem reports_of_rejected {p : Piece} {e : SyntaxError} (rejected : p.verdict = .rejected e) :
    p.Reports e := by
  obtain ⟨i, start, inside⟩ := Verdict.start_of_rejected rejected
  refine ⟨rejected, ?_, ?_⟩
  · omega
  · simp only [stop]
    omega

theorem ofSource_eq_append_lastLine (source : Text) : ∃ ps : List Piece,
    (∀ p ∈ ps, p.terminated) ∧ ∃ last, ofSource source = ps ++ [last] ∧
      last.text = source.lastLine ∧ last.terminated = false ∧ last.stop = source.length := by
  obtain ⟨ls, last, rfl, -, free⟩ := exists_unlines_append source
  have closed : Closed (unlines ls) := by
    rcases List.eq_nil_or_concat ls with rfl | ⟨ls, l, rfl⟩
    · exact .inl rfl
    · exact .inr (by simp [unlines])
  obtain ⟨ps, terminated, split⟩ := ofSource_closed_append closed
  refine ⟨ps, terminated, ⟨last, (unlines ls).length, false⟩, ?_, ?_, rfl, ?_⟩
  · rw [split, ofSource, lines_of_not_mem free]
    simp [ofLines, moved]
  · exact (lastLine_unlines_append free).symm
  · simp [stop]

theorem ofLines_ordered (offset : Nat) (ls : List Text) :
    (∀ p ∈ ofLines offset ls, offset ≤ p.offset) ∧
      (ofLines offset ls).Pairwise fun p q => p.stop < q.offset := by
  induction ls generalizing offset with
  | nil => exact ⟨nofun, .nil⟩
  | cons l ls ih =>
    cases ls with
    | nil => exact ⟨by simp [ofLines], List.pairwise_singleton _ _⟩
    | cons next ls =>
      obtain ⟨behind, ordered⟩ := ih (offset + l.length + 1)
      rw [ofLines_cons (List.cons_ne_nil next ls)]
      constructor
      · intro p member
        rcases List.mem_cons.mp member with rfl | later
        · exact Nat.le_refl offset
        · have reached := behind p later
          omega
      · refine .cons ?_ ordered
        intro q later
        have reached := behind q later
        simp only [stop]
        omega

theorem start_of_error {p : Piece} {e : SyntaxError} (member : e ∈ p.errors) :
    p.offset ≤ e.span.start ∧ e.span.start ≤ p.stop := by
  unfold errors at member
  split at member
  · cases member
  · split at member
    · split at member
      · rename_i rejected
        obtain rfl := List.mem_singleton.mp member
        exact (reports_of_rejected rejected).inside
      · cases member
      · cases member
    · obtain rfl := List.mem_singleton.mp member
      exact ⟨Nat.le_add_right _ _, Nat.le_refl _⟩

theorem length_errors_le (p : Piece) : p.errors.length ≤ 1 := by
  unfold errors
  split
  · exact Nat.zero_le 1
  · split
    · split <;> simp
    · exact Nat.le_refl 1

theorem reports_errors {ps : List Piece} (terminated : ∀ p ∈ ps, p.terminated) :
    List.Forall₂ Reports (ps.filter malformed) (ps.flatMap errors) := by
  induction ps with
  | nil => exact .nil
  | cons p ps ih =>
    have ends := terminated p List.mem_cons_self
    have later := ih fun q member => terminated q (List.mem_cons_of_mem _ member)
    rw [List.flatMap_cons]
    cases blank : p.blank with
    | true =>
      rw [List.filter_cons_of_neg (by simp [malformed, blank])]
      simpa [errors, blank] using later
    | false =>
      cases verdict : p.verdict with
      | rejected e =>
        rw [List.filter_cons_of_pos (by simp [malformed, blank, ends, verdict]),
          errors_of_rejected blank ends verdict]
        exact .cons (reports_of_rejected verdict) later
      | accepted line =>
        rw [List.filter_cons_of_neg (by simp [malformed, verdict])]
        simpa [errors, blank, ends, verdict] using later
      | refused why =>
        rw [List.filter_cons_of_neg (by simp [malformed, verdict])]
        simpa [errors, blank, ends, verdict] using later

end Piece

namespace Listing

variable {ps : List Piece} {l : Listing} {ls : List Line}

theorem reports_of_reads (reads : Reads ps l) (lines : l.lines = some ls) :
    List.Forall₂ (fun mark e => mark.1.Reports e)
      (((ps.filter (!·.blank)).zip ls).filter (·.2 = .malformed)) l.errors := by
  induction reads generalizing ls with
  | nil =>
    cases lines
    exact .nil
  | blank blank rest ih =>
    rw [List.filter_cons_of_neg (by simp [blank])]
    exact ih lines
  | @accepted p ps l line filled terminated verdict rest ih =>
    obtain ⟨later, read, rfl⟩ := Option.map_eq_some_iff.mp lines
    obtain ⟨f, ns, -, drafted⟩ := Verdict.read_of_accepted verdict
    have kept := Draft.line_ne_malformed drafted
    rw [List.filter_cons_of_pos (by simp [filled]), List.zip_cons_cons,
      List.filter_cons_of_neg (by simpa using kept)]
    exact ih read
  | rejected filled terminated verdict rest ih =>
    obtain ⟨later, read, rfl⟩ := Option.map_eq_some_iff.mp lines
    rw [List.filter_cons_of_pos (by simp [filled]), List.zip_cons_cons,
      List.filter_cons_of_pos (by simp)]
    exact .cons (Piece.reports_of_rejected verdict) (ih read)
  | unfinished => cases lines

variable {source : Text}

theorem lines_eq_none_iff (reads : Reads (Piece.ofSource source) l) :
    l.lines = none ↔ ∃ c ∈ source.lastLine, CharClass.space c = false := by
  obtain ⟨ps, terminated, last, split, text, open_, -⟩ := Piece.ofSource_eq_append_lastLine source
  rw [lines_eq_none_of_reads reads, split, ← text]
  have filled : last.blank = false ↔ ∃ c ∈ last.text, CharClass.space c = false := by
    simp [Piece.blank]
  constructor
  · rintro ⟨p, member, nonblank, ends⟩
    rcases List.mem_append.mp member with inFront | atEnd
    · rw [terminated p inFront] at ends
      cases ends
    · obtain rfl := List.mem_singleton.mp atEnd
      exact filled.mp nonblank
  · intro some
    exact ⟨last, by simp, filled.mpr some, open_⟩

theorem errors_of_unread (reads : Reads (Piece.ofSource source) l) (unread : l.lines = none) :
    ∃ es, l.errors = es ++ (unfinished source.length).errors ∧
      List.Forall₂ Piece.Reports ((Piece.ofSource source).filter Piece.malformed) es := by
  obtain ⟨ps, terminated, last, split, text, open_, ends⟩ :=
    Piece.ofSource_eq_append_lastLine source
  have filled : last.blank = false := by
    obtain ⟨c, member, shown⟩ := (lines_eq_none_iff reads).mp unread
    rw [← text] at member
    simp only [Piece.blank, List.all_eq_false]
    exact ⟨c, member, by simp [shown]⟩
  have errors := errors_of_reads reads (Piece.ofLines_pairwise 0 _)
  refine ⟨ps.flatMap Piece.errors, ?_, ?_⟩
  · rw [errors, split, ← ends]
    simp [Piece.errors, filled, open_]
  · rw [split, List.filter_append, List.filter_cons_of_neg (by simp [Piece.malformed, open_]),
      List.filter_nil, List.append_nil]
    exact Piece.reports_errors terminated

theorem errors_increasing (reads : Reads (Piece.ofSource source) l) :
    l.errors.Pairwise fun a b => a.span.start < b.span.start := by
  rw [errors_of_reads reads (Piece.ofLines_pairwise 0 _), List.pairwise_flatMap]
  constructor
  · intro p _
    have short := p.length_errors_le
    match p.errors, short with
    | [], _ => exact .nil
    | [e], _ => exact List.pairwise_singleton _ _
  · apply (Piece.ofLines_ordered 0 _).2.imp
    intro p q ordered a inFront b behind
    have first := (Piece.start_of_error inFront).2
    have second := (Piece.start_of_error behind).1
    omega

/-- The lines that are not blank are read one by one, and every malformed one has one error of its
own. A source has no lines exactly if something stands behind its last newline; then the last
error is about that. Errors come in the order of their places. -/
theorem lines_accounted (read : ofSource source = .ok l) :
    (l.lines = none ↔ ∃ c ∈ source.lastLine, CharClass.space c = false) ∧
    (∀ ls, l.lines = some ls →
      let filled := (Piece.ofSource source).filter (!·.blank)
      List.Forall₂ Piece.Gives filled ls ∧
        List.Forall₂ (fun mark e => mark.1.Reports e)
          ((filled.zip ls).filter (·.2 = .malformed)) l.errors) ∧
    (l.lines = none → ∃ es, l.errors = es ++ (unfinished source.length).errors ∧
      List.Forall₂ Piece.Reports ((Piece.ofSource source).filter Piece.malformed) es) ∧
    l.errors.Pairwise fun a b => a.span.start < b.span.start := by
  have reads := reads_of_ofPieces read
  refine ⟨lines_eq_none_iff reads, ?_, errors_of_unread reads, errors_increasing reads⟩
  intro ls lines
  exact ⟨gives_of_reads reads lines, reports_of_reads reads lines⟩

theorem lines_accounted_of_four_lines :
    let source : Text := "jmp\n \ngol\nend\n"
    let filled := (Piece.ofSource source).filter (!·.blank)
    let ls : List Line := [.malformed, .instr { op := .gol }, .malformed]
    ∃ l, ofSource source = .ok l ∧ l.lines = some ls ∧ l.errors.map (·.span.start) = [3, 13] ∧
      List.Forall₂ Piece.Gives filled ls ∧
      List.Forall₂ (fun mark e => mark.1.Reports e)
        ((filled.zip ls).filter (·.2 = .malformed)) l.errors ∧
      l.errors.Pairwise fun a b => a.span.start < b.span.start := by
  intro source filled ls
  have read : ofSource source = .ok _ := rfl
  obtain ⟨-, accounted, -, increasing⟩ := lines_accounted read
  obtain ⟨gives, reports⟩ := accounted ls rfl
  exact ⟨_, read, rfl, rfl, gives, reports, increasing⟩

end Listing

end TapeMachine
