import TapeMachine.Proofs.Grammar
import TapeMachine.Proofs.Spans

/-! Sources put one behind the other. Where a line starts makes no difference to what it is read
as, apart from the places of its parts, and no line makes a difference to another; so what is read
of two sources is what is read of the first and, further on, what is read of the second. -/
namespace TapeMachine

open Text

namespace Text

def unlines (ls : List Text) : Text := ls.flatMap (· ++ ['\n'])

/-- No text stands behind the last newline. -/
def Closed (t : Text) : Prop := t = [] ∨ t.getLast? = some '\n'

/-- No numeral that stands as a word of its own has more digits than are looked at. -/
def Short (t : Text) : Prop := ∀ i w n, t.Literal i w n → Element.digitCount w ≤ maxDigits

theorem short_of_length_le {t : Text} (bound : t.length ≤ maxDigits) : t.Short :=
  fun _ _ _ literal => Nat.le_trans literal.digitCount_le bound

theorem unlines_cons (l : Text) (ls : List Text) : unlines (l :: ls) = l ++ '\n' :: unlines ls := by
  simp [unlines]

theorem length_unlines_cons (l : Text) (ls : List Text) :
    (unlines (l :: ls)).length = l.length + 1 + (unlines ls).length := by
  rw [unlines_cons, List.length_append, List.length_cons]
  omega

theorem lines_of_not_mem {l : Text} (free : '\n' ∉ l) : lines l = [l] :=
  List.splitOn_eq_singleton free

theorem not_mem_of_mem_lines {t : Text} : ∀ l ∈ lines t, '\n' ∉ l := by
  induction t with
  | nil => simp
  | cons c t ih =>
    by_cases newline : c = '\n'
    · subst newline
      rw [lines_newline_cons]
      intro l member
      rcases List.mem_cons.mp member with rfl | later
      · exact List.not_mem_nil
      · exact ih l later
    · rw [lines_cons t newline]
      cases found : lines t with
      | nil => exact absurd found (lines_ne_nil t)
      | cons first others =>
        rw [found] at ih
        intro l member
        rcases List.mem_cons.mp member with rfl | later
        · intro inside
          rcases List.mem_cons.mp inside with same | inside
          · exact newline same.symm
          · exact ih first List.mem_cons_self inside
        · exact ih l (List.mem_cons_of_mem _ later)

theorem lines_unlines_append {ls : List Text} (free : ∀ l ∈ ls, '\n' ∉ l) (t : Text) :
    lines (unlines ls ++ t) = ls ++ lines t := by
  induction ls with
  | nil => rfl
  | cons l ls ih =>
    have here := lines_of_not_mem (free l List.mem_cons_self)
    have later := ih fun l member => free l (List.mem_cons_of_mem _ member)
    rw [unlines_cons, List.append_assoc, List.cons_append, lines,
      List.splitOn_append_cons_self, ← lines, ← lines, here, later]
    rfl

theorem unlines_eq_intercalate {ls : List Text} (some : ls ≠ []) :
    unlines ls = ['\n'].intercalate ls ++ ['\n'] := by
  induction ls with
  | nil => exact absurd rfl some
  | cons l ls ih =>
    cases ls with
    | nil => simp [unlines]
    | cons next ls =>
      rw [unlines_cons, ih (List.cons_ne_nil next ls), List.intercalate_cons_cons]
      simp

theorem unlines_lines (t : Text) : unlines (lines t) = t ++ ['\n'] := by
  rw [unlines_eq_intercalate (lines_ne_nil t), lines, List.intercalate_splitOn]

theorem Closed.exists_lines {t : Text} (closed : t.Closed) :
    ∃ ls, t = unlines ls ∧ ∀ l ∈ ls, '\n' ∉ l := by
  rcases closed with rfl | last
  · exact ⟨[], rfl, nofun⟩
  · obtain ⟨front, rfl⟩ := List.getLast?_eq_some_iff.mp last
    exact ⟨lines front, (unlines_lines front).symm, not_mem_of_mem_lines⟩

end Text

/-! The same things `n` characters further on. -/

def Span.moved (n : Nat) (s : Span) : Span := ⟨s.start + n, s.stop + n⟩

def Token.moved (n : Nat) (t : Token) : Token := ⟨t.text, t.span.moved n⟩

def Line.moved (n : Nat) : Line → Line
  | instr i => instr { i with label := i.label.map (Token.moved n) }
  | label token => label (token.moved n)
  | malformed => malformed

def SyntaxError.moved (n : Nat) (e : SyntaxError) : SyntaxError :=
  { e with span := e.span.moved n, unclosed := e.unclosed.map (Span.moved n) }

def Verdict.moved (n : Nat) : Verdict → Verdict
  | accepted line => accepted (line.moved n)
  | rejected e => rejected (e.moved n)
  | refused why => refused why

def Draft.moved (n : Nat) (d : Draft) : Draft :=
  { d with
    offset := d.offset + n
    label := d.label.map (Token.moved n)
    definition := d.definition.map (Token.moved n) }

def Piece.moved (n : Nat) (p : Piece) : Piece := { p with offset := p.offset + n }

def Listing.moved (n : Nat) (l : Listing) : Listing :=
  ⟨l.lines.map (List.map (Line.moved n)), l.errors.map (SyntaxError.moved n)⟩

theorem Span.of_add (start n width : Nat) : of (start + n) width = (of start width).moved n := by
  simp only [of, moved, Span.mk.injEq, true_and]
  omega

namespace Draft

theorem note_moved (n : Nat) (d : Draft) (a : Note) : (d.moved n).note a = (d.note a).moved n := by
  cases a with
  | reference name i | definition name i =>
    have place : d.offset + n + i = d.offset + i + n := by omega
    simp only [note, moved, place, Span.of_add, Option.map_some, Token.moved]
  | opcode op => rfl
  | register r => rfl
  | value v => rfl

theorem notes_moved (n : Nat) (d : Draft) (ns : List Note) :
    (d.moved n).notes ns = (d.notes ns).moved n := by
  induction ns generalizing d with
  | nil => rfl
  | cons a ns ih =>
    have first := note_moved n d a
    have later := ih (d.note a)
    simp only [notes, List.foldl_cons] at later ⊢
    rw [first, later]

theorem line_moved (n : Nat) (d : Draft) : (d.moved n).line = d.line.map (Line.moved n) := by
  unfold line moved
  cases d.definition with
  | some token => rfl
  | none => cases d.op <;> rfl

end Draft

namespace Verdict

theorem ofForm?_moved (n : Nat) (t : Text) (offset : Nat) (f : Form) :
    ofForm? t (offset + n) f = (ofForm? t offset f).map (Verdict.moved n) := by
  unfold ofForm?
  cases f.read t with
  | ok ns =>
    have blank : Draft.blank (offset + n) = (Draft.blank offset).moved n := rfl
    simp only [blank, Draft.notes_moved, Draft.line_moved]
    cases ((Draft.blank offset).notes ns).line <;> rfl
  | error why =>
    cases why with
    | mismatch i e => rfl
    | oversized digits => rfl
    | overflow i literal =>
      have place : offset + n + i = offset + i + n := by omega
      simp only [place, Span.of_add, Option.map_some, moved, SyntaxError.moved, Option.map_none]

theorem toError_moved (n : Nat) (ms : List Mismatch) (t : Text) (offset : Nat)
    (terminated : Bool) : Mismatch.toError ms t (offset + n) terminated =
      (Mismatch.toError ms t offset terminated).moved n := by
  have place : offset + n + Mismatch.furthest ms = offset + Mismatch.furthest ms + n := by omega
  simp only [Mismatch.toError, SyntaxError.moved, place, Span.of_add, Option.map_none]

/-- The verdict on a line depends on where the line starts only in the places that it names. -/
theorem ofText_moved (n : Nat) (t : Text) (offset : Nat) (terminated : Bool) :
    ofText t (offset + n) terminated = (ofText t offset terminated).moved n := by
  have byForm : ofForm? t (offset + n) = fun f => (ofForm? t offset f).map (Verdict.moved n) := by
    funext f
    exact ofForm?_moved n t offset f
  unfold ofText byForms
  rw [byForm, toError_moved, ← Function.comp_def, ← List.map_findSome?]
  cases Form.all.findSome? (ofForm? t offset) <;> rfl

end Verdict

namespace Piece

theorem ofLines_cons {more : List Text} (some : more ≠ []) (offset : Nat) (l : Text) :
    ofLines offset (l :: more) = ⟨l, offset, true⟩ :: ofLines (offset + l.length + 1) more := by
  cases more with
  | nil => exact absurd rfl some
  | cons next more => rfl

theorem ofLines_moved (n offset : Nat) (ls : List Text) :
    ofLines (offset + n) ls = (ofLines offset ls).map (Piece.moved n) := by
  induction ls generalizing offset with
  | nil => rfl
  | cons l ls ih =>
    cases ls with
    | nil => rfl
    | cons next ls =>
      have place : offset + n + l.length + 1 = offset + l.length + 1 + n := by omega
      have others := List.cons_ne_nil next ls
      rw [ofLines_cons others, ofLines_cons others, place, ih]
      rfl

/-- Lines in front of others are all ended by a newline, whatever the others are. -/
theorem ofLines_append (offset : Nat) (ls : List Text) : ∃ ps : List Piece,
    (∀ p ∈ ps, p.terminated) ∧ ∀ more ≠ [],
      ofLines offset (ls ++ more) = ps ++ ofLines (offset + (unlines ls).length) more := by
  induction ls generalizing offset with
  | nil => exact ⟨[], nofun, fun more _ => rfl⟩
  | cons l ls ih =>
    obtain ⟨ps, terminated, split⟩ := ih (offset + l.length + 1)
    refine ⟨⟨l, offset, true⟩ :: ps, ?_, ?_⟩
    · intro p member
      rcases List.mem_cons.mp member with rfl | later
      · rfl
      · exact terminated p later
    · intro more some
      have place : offset + (unlines (l :: ls)).length =
          offset + l.length + 1 + (unlines ls).length := by
        rw [length_unlines_cons]
        omega
      rw [List.cons_append, ofLines_cons (by simp [some]), split more some, place,
        List.cons_append]

theorem ofSource_closed_append {s : Text} (closed : s.Closed) : ∃ ps : List Piece,
    (∀ p ∈ ps, p.terminated) ∧
      ∀ t, ofSource (s ++ t) = ps ++ (ofSource t).map (Piece.moved s.length) := by
  obtain ⟨ls, rfl, free⟩ := closed.exists_lines
  obtain ⟨ps, terminated, split⟩ := ofLines_append 0 ls
  refine ⟨ps, terminated, ?_⟩
  intro t
  have moved := ofLines_moved (unlines ls).length 0 (lines t)
  rw [ofSource, lines_unlines_append free, split _ (lines_ne_nil t), moved]
  rfl

/-- Behind the last newline of a closed source stands an empty piece, in whose place the pieces of
another source go. -/
theorem ofSource_of_append {s : Text} {ps : List Piece}
    (split : ∀ t, ofSource (s ++ t) = ps ++ (ofSource t).map (Piece.moved s.length)) :
    ofSource s = ps ++ [⟨[], s.length, false⟩] := by
  have nothing := split []
  rw [List.append_nil] at nothing
  simpa [ofSource, ofLines, moved] using nothing

theorem verdict_moved (n : Nat) (p : Piece) : (p.moved n).verdict = p.verdict.moved n :=
  Verdict.ofText_moved n p.text p.offset p.terminated

theorem short_of_mem {source : Text} {p : Piece} (member : p ∈ ofSource source)
    (terminated : p.terminated) (short : source.Short) : p.text.Short := by
  intro i w n literal
  obtain ⟨numeral, before, c, behind, text, -, blank, stops⟩ := literal
  obtain ⟨front, back, split, -⟩ := (ofSource_stands member).1
  have whole : p.whole = before ++ c :: (w ++ (behind ++ ['\n'])) := by
    simp [Piece.whole, terminated, text]
  -- behind the last word of the line stands its newline
  have ends : Stops CharClass.word (behind ++ ['\n'] ++ back) := by
    cases behind with
    | nil => rfl
    | cons d behind => exact stops
  apply short ((front ++ before).length + 1) w n
  refine ⟨numeral, front ++ before, c, behind ++ ['\n'] ++ back, ?_, rfl, blank, ends⟩
  rw [split, whole]
  simp

theorem decided_of_mem {source : Text} {p : Piece} (short : source.Short)
    (member : p ∈ ofSource source) (terminated : p.terminated) (why : Refusal) :
    p.verdict ≠ .refused why :=
  Verdict.ne_refused (short_of_mem member terminated short) p.offset p.terminated why

end Piece

namespace Listing

def append (l more : Listing) : Listing :=
  ⟨l.lines.bind fun ls => more.lines.map (ls ++ ·), l.errors ++ more.errors⟩

theorem empty_append (l : Listing) : empty.append l = l := by
  simp [append, empty]

theorem append_empty (l : Listing) : l.append empty = l := by
  simp [append, empty]

theorem withLine_append (line : Line) (l more : Listing) :
    (l.withLine line).append more = (l.append more).withLine line := by
  cases lines : l.lines <;> cases lines' : more.lines <;> simp [append, withLine, lines, lines']

theorem withError_append (e : SyntaxError) (l more : Listing) :
    (l.withError e).append more = (l.append more).withError e := by
  cases lines : l.lines <;> cases lines' : more.lines <;> simp [append, withError, lines, lines']

theorem reads_append {ps qs : List Piece} {l more : Listing} (reads : Reads ps l)
    (terminated : ∀ p ∈ ps, p.terminated) (later : Reads qs more) :
    Reads (ps ++ qs) (l.append more) := by
  induction reads with
  | nil =>
    rw [empty_append]
    exact later
  | blank blank rest ih =>
    exact .blank blank (ih fun p member => terminated p (List.mem_cons_of_mem _ member))
  | accepted filled ends verdict rest ih =>
    rw [withLine_append]
    exact .accepted filled ends verdict
      (ih fun p member => terminated p (List.mem_cons_of_mem _ member))
  | rejected filled ends verdict rest ih =>
    rw [withError_append]
    exact .rejected filled ends verdict
      (ih fun p member => terminated p (List.mem_cons_of_mem _ member))
  | unfinished filled ends =>
    have closed := terminated _ List.mem_cons_self
    rw [ends] at closed
    cases closed

theorem withLine_moved (n : Nat) (line : Line) (l : Listing) :
    (l.withLine line).moved n = (l.moved n).withLine (line.moved n) := by
  cases lines : l.lines <;> simp [moved, withLine, lines]

theorem withError_moved (n : Nat) (e : SyntaxError) (l : Listing) :
    (l.withError e).moved n = (l.moved n).withError (e.moved n) := by
  cases lines : l.lines <;> simp [moved, withError, lines, Line.moved]

theorem reads_moved (n : Nat) {ps : List Piece} {l : Listing} (reads : Reads ps l) :
    Reads (ps.map (Piece.moved n)) (l.moved n) := by
  induction reads with
  | nil => exact .nil
  | blank blank rest ih => exact .blank blank ih
  | accepted filled terminated verdict rest ih =>
    rw [withLine_moved]
    exact .accepted filled terminated (by rw [Piece.verdict_moved, verdict]; rfl) ih
  | rejected filled terminated verdict rest ih =>
    rw [withError_moved]
    exact .rejected filled terminated (by rw [Piece.verdict_moved, verdict]; rfl) ih
  | @unfinished p ps filled ends =>
    have stop : (p.moved n).stop = p.stop + n := by
      simp only [Piece.stop, Piece.moved]
      omega
    have moved : (unfinished p.stop).moved n = unfinished (p.moved n).stop := by
      rw [stop]
      rfl
    rw [moved]
    exact .unfinished filled ends

/-- Only an unterminated line keeps a source from being read. -/
theorem exists_lines {ps : List Piece} {l : Listing} (reads : Reads ps l)
    (terminated : ∀ p ∈ ps, p.terminated) : ∃ ls, l.lines = some ls := by
  induction reads with
  | nil => exact ⟨[], rfl⟩
  | blank blank rest ih => exact ih fun p member => terminated p (List.mem_cons_of_mem _ member)
  | accepted filled ends verdict rest ih | rejected filled ends verdict rest ih =>
    obtain ⟨ls, lines⟩ := ih fun p member => terminated p (List.mem_cons_of_mem _ member)
    simp [withLine, withError, lines]
  | unfinished filled ends =>
    have closed := terminated _ List.mem_cons_self
    rw [ends] at closed
    cases closed

theorem exists_reads_of_short {source : Text} (short : source.Short) :
    ∃ l, Reads (Piece.ofSource source) l :=
  exists_reads fun _ => Piece.decided_of_mem short

/-- What is read of a closed source and of another one behind it is what is read of the first,
and then what is read of the second, moved by the length of the first. -/
theorem ofSource_append {s t : Text} (closed : s.Closed) (short : s.Short) (short' : t.Short) :
    ∃ ls errors l, ofSource s = .ok ⟨some ls, errors⟩ ∧ ofSource t = .ok l ∧
      ofSource (s ++ t) =
        .ok ⟨l.lines.map fun more => ls ++ more.map (Line.moved s.length),
          errors ++ l.errors.map (SyntaxError.moved s.length)⟩ := by
  obtain ⟨ps, terminated, split⟩ := Piece.ofSource_closed_append closed
  have alone := Piece.ofSource_of_append split
  have front : ∀ p ∈ ps, p ∈ Piece.ofSource s := by
    intro p member
    rw [alone]
    exact List.mem_append_left _ member
  obtain ⟨first, reads⟩ := exists_reads fun p member => Piece.decided_of_mem short (front p member)
  obtain ⟨second, later⟩ := exists_reads_of_short short'
  obtain ⟨ls, lines⟩ := exists_lines reads terminated
  have here : Reads (Piece.ofSource s) first := by
    have last : Reads [⟨[], s.length, false⟩] empty := .blank rfl .nil
    have whole := reads_append reads terminated last
    rwa [append_empty, ← alone] at whole
  have both : Reads (Piece.ofSource (s ++ t)) (first.append (second.moved s.length)) := by
    rw [split t]
    exact reads_append reads terminated (reads_moved s.length later)
  refine ⟨ls, first.errors, second, ?_, ofPieces_of_reads later, ?_⟩
  · rw [← lines]
    exact ofPieces_of_reads here
  · rw [ofSource, ofPieces_of_reads both]
    simp only [append, moved, lines, Option.bind_some, Option.map_map, Function.comp_def]

theorem ofSource_append_of_jmp :
    let s : Text := "jmp\nx:\n"
    let t : Text := "jmp x\n7\n"
    let jump : Instr := { op := .jmp, label := some ⟨"x", ⟨11, 12⟩⟩ }
    ∃ l, ofSource (s ++ t) = .ok l ∧ l.errors.map (·.span) = [⟨3, 4⟩, ⟨13, 14⟩] ∧
      l.lines = some [.malformed, .label ⟨"x", ⟨4, 6⟩⟩, .instr jump, .malformed] := by
  intro s t jump
  have closed : s.Closed := .inr rfl
  obtain ⟨ls, errors, l, first, second, both⟩ := ofSource_append closed
    (short_of_length_le (by decide : s.length ≤ maxDigits))
    (short_of_length_le (by decide : t.length ≤ maxDigits))
  have first' : ofSource s = .ok _ := rfl
  have second' : ofSource t = .ok _ := rfl
  cases first.symm.trans first'
  cases second.symm.trans second'
  exact ⟨_, both, rfl, rfl⟩

end Listing

end TapeMachine
