import TapeMachine.Proofs.Positions
import TapeMachine.Proofs.Printing
import TapeMachine.Proofs.Recovery
import TapeMachine.Proofs.Relabeling

/-! Carriage returns in front of the newlines of a source. A carriage return at the end of a line
is one more blank there, so that each line says what it said; only the places are others. -/
namespace TapeMachine

open Text

namespace Text

variable {t u v w : Text}

def crlf (t : Text) : Text := t.flatMap fun c => if c = '\n' then ['\r', '\n'] else [c]

theorem crlf_append (t u : Text) : (t ++ u).crlf = t.crlf ++ u.crlf := List.flatMap_append

theorem crlf_of_not_mem (free : '\n' ∉ t) : t.crlf = t := by
  induction t with
  | nil => rfl
  | cons c t ih =>
    obtain ⟨other, free⟩ := List.ne_and_not_mem_of_not_mem_cons free
    rw [crlf, List.flatMap_cons, if_neg (Ne.symm other), ← crlf, ih free]
    rfl

theorem crlf_unlines {ls : List Text} (free : ∀ l ∈ ls, '\n' ∉ l) :
    (unlines ls).crlf = unlines (ls.map (· ++ ['\r'])) := by
  induction ls with
  | nil => rfl
  | cons l ls ih =>
    have here := crlf_of_not_mem (free l List.mem_cons_self)
    have later := ih fun l member => free l (List.mem_cons_of_mem _ member)
    have newline : crlf ('\n' :: unlines ls) = '\r' :: '\n' :: (unlines ls).crlf := rfl
    rw [List.map_cons, unlines_cons, unlines_cons, crlf_append, here, newline, later]
    simp

/-- The text does not end in a blank. -/
def Solid (t : Text) : Prop := ∃ front c, t = front ++ [c] ∧ ¬ Blank c

theorem Solid.append (solid : w.Solid) (t : Text) : (t ++ w).Solid := by
  obtain ⟨front, c, rfl, filled⟩ := solid
  exact ⟨t ++ front, c, (List.append_assoc t front [c]).symm, filled⟩

theorem solid_of_word (nonempty : w ≠ []) (word : ∀ c ∈ w, CharClass.word c) : w.Solid := by
  rcases List.eq_nil_or_concat w with rfl | ⟨front, c, rfl⟩
  · exact absurd rfl nonempty
  · refine ⟨front, c, List.concat_eq_append, ?_⟩
    intro blank
    have filled := CharClass.not_padding_of_word (word c (by simp))
    rw [blank.padding] at filled
    cases filled

theorem Solid.split_return (solid : u.Solid) (split : t ++ ['\r'] = u ++ v) :
    ∃ rest, v = rest ++ ['\r'] ∧ t = u ++ rest := by
  rcases List.eq_nil_or_concat v with rfl | ⟨rest, last, rfl⟩
  · obtain ⟨front, c, rfl, filled⟩ := solid
    rw [List.append_nil] at split
    cases (List.append_inj' split rfl).2
    exact absurd (.inr (.inr rfl)) filled
  · rw [List.concat_eq_append, ← List.append_assoc] at split
    obtain ⟨same, last⟩ := List.append_inj' split rfl
    cases last
    exact ⟨rest, List.concat_eq_append, same⟩

end Text

theorem Identifier.solid {w : Text} (name : Identifier w) : w.Solid :=
  solid_of_word name.ne_nil name.word

theorem Numeral.solid {w : Text} {n : Int} (numeral : Numeral w n) : w.Solid := by
  have digits {ds : Text} (nonempty : ds ≠ []) (all : ∀ c ∈ ds, c.isDigit) : ds.Solid :=
    solid_of_word nonempty fun c member => CharClass.word_of_isDigit (all c member)
  cases numeral with
  | natural nonempty all => exact digits nonempty all
  | negative nonempty all => exact (digits nonempty all).append ['-']

theorem Register.solid (r : Register) : r.keyword.Solid := by
  cases r with
  | x => exact ⟨[], 'x', rfl, by simp [Blank]⟩
  | acc => exact ⟨['a', 'c'], 'c', rfl, by simp [Blank]⟩

theorem Body.solid {t : Text} {s : Statement} (body : Body t s) : t.Solid := by
  cases body with
  | bare => exact (Form.keyword_identifier _).solid
  | transfer takes separator r => exact (r.solid.append _).append _
  | jump separator identifier => exact (identifier.solid.append _).append _
  | branch takes separator r separator' identifier =>
    exact (((identifier.solid.append _).append _).append _).append _
  | arithmetic takes separator operand =>
    apply Solid.append
    apply Solid.append
    cases operand with
    | x => exact Register.x.solid
    | number numeral => exact numeral.solid
  | @label name identifier => exact ⟨name, ':', rfl, by simp [Blank]⟩

theorem Text.Short.append_return {t : Text} (short : t.Short) : Short (t ++ ['\r']) := by
  intro i w n literal
  obtain ⟨numeral, before, c, behind, split, place, padded, stops⟩ := literal
  have solid : Solid (before ++ c :: w) := (numeral.solid.append [c]).append before
  have split' : t ++ ['\r'] = before ++ c :: w ++ behind := by simpa using split
  obtain ⟨rest, rfl, rfl⟩ := solid.split_return split'
  apply short i w n
  refine ⟨numeral, before, c, rest, by simp, place, padded, ?_⟩
  cases rest with
  | nil => rfl
  | cons d rest => exact stops

/-- A carriage return behind a line makes no difference to what the line says. -/
theorem spells_append_return {t : Text} {s : Statement} : Spells (t ++ ['\r']) s ↔ Spells t s := by
  constructor
  · rintro ⟨before, body, after, split, blanks, spelled, afters⟩
    have split' : t ++ ['\r'] = before ++ body ++ after := by simpa using split
    obtain ⟨rest, rfl, rfl⟩ := (spelled.solid.append before).split_return split'
    exact ⟨before, body, rest, List.append_assoc _ _ _, blanks, spelled,
      fun c member => afters c (List.mem_append_left _ member)⟩
  · rintro ⟨before, body, after, rfl, blanks, spelled, afters⟩
    refine ⟨before, body, after ++ ['\r'], by simp, blanks, spelled, ?_⟩
    intro c member
    rcases List.mem_append.mp member with inside | last
    · exact afters c inside
    · exact .inr (.inr (List.mem_singleton.mp last))

/-! Things without their places. -/

def Line.unplaced : Line → Line := relabel id fun _ => ⟨0, 0⟩

def Program.unplaced : Program → Program := relabel id fun _ => ⟨0, 0⟩

def LabelMistake.unplaced : LabelMistake → LabelMistake := relabel id fun _ => ⟨0, 0⟩

def Statement.line : Statement → Line
  | instr op reg value name => .instr ⟨op, reg, value, name.map (⟨·, ⟨0, 0⟩⟩), none⟩
  | label name => .label ⟨name, ⟨0, 0⟩⟩

theorem Line.unplaced_of_statement? {line : Line} {s : Statement}
    (stated : line.statement? = some s) : line.unplaced = s.line := by
  cases line with
  | malformed => cases stated
  | label token =>
    cases stated
    rfl
  | instr i =>
    obtain ⟨op, reg, value, label, target⟩ := i
    cases target with
    | some target => cases stated
    | none =>
      cases stated
      cases label <;> rfl

theorem Verdict.append_return {t : Text} (oneLine : '\n' ∉ t) (short : t.Short)
    (offset offset' : Nat) (terminated : Bool) :
    (∃ line again, ofText t offset terminated = .accepted line ∧
      ofText (t ++ ['\r']) offset' terminated = .accepted again ∧
      again.unplaced = line.unplaced) ∨
    ∃ e e', ofText t offset terminated = .rejected e ∧
      ofText (t ++ ['\r']) offset' terminated = .rejected e' := by
  have oneLine' : '\n' ∉ t ++ ['\r'] := List.not_mem_append oneLine (by decide)
  cases verdict : ofText t offset terminated with
  | refused why => exact absurd verdict (ne_refused short offset terminated why)
  | accepted line =>
    obtain ⟨s, spells, stated⟩ := spells_of_accepted oneLine verdict
    obtain ⟨again, accepted, stated'⟩ :=
      accepted_of_spells (spells_append_return.mpr spells) short.append_return offset' terminated
    refine .inl ⟨line, again, rfl, accepted, ?_⟩
    rw [Line.unplaced_of_statement? stated, Line.unplaced_of_statement? stated']
  | rejected e =>
    cases verdict' : ofText (t ++ ['\r']) offset' terminated with
    | refused why => exact absurd verdict' (ne_refused short.append_return offset' terminated why)
    | rejected e' => exact .inr ⟨e, e', rfl, rfl⟩
    | accepted again =>
      obtain ⟨s, spells, -⟩ := spells_of_accepted oneLine' verdict'
      obtain ⟨line, accepted, -⟩ :=
        accepted_of_spells (spells_append_return.mp spells) short offset terminated
      rw [verdict] at accepted
      cases accepted

namespace Piece

/-- The same line, with a carriage return in front of the newline that ends it. -/
structure Returned (p q : Piece) : Prop where
  terminated : q.terminated = p.terminated
  text : q.text = p.text ++ if p.terminated then ['\r'] else []

theorem Returned.blank {p q : Piece} (returned : p.Returned q) : q.blank = p.blank := by
  unfold Piece.blank
  rw [returned.text, List.all_append]
  split
  · exact Bool.and_true _
  · exact Bool.and_true _

theorem Returned.verdict {p q : Piece} (returned : p.Returned q) (terminated : p.terminated)
    (oneLine : '\n' ∉ p.text) (short : p.text.Short) :
    (∃ line again, p.verdict = .accepted line ∧ q.verdict = .accepted again ∧
      again.unplaced = line.unplaced) ∨
    ∃ e e', p.verdict = .rejected e ∧ q.verdict = .rejected e' := by
  have verdicts := Verdict.append_return oneLine short p.offset q.offset p.terminated
  unfold Piece.verdict
  rw [returned.terminated, returned.text, if_pos terminated]
  exact verdicts

theorem ofLines_returned (ls : List Text) (last : Text) (offset offset' : Nat) :
    List.Forall₂ Returned (ofLines offset (ls ++ [last]))
      (ofLines offset' (ls.map (· ++ ['\r']) ++ [last])) := by
  induction ls generalizing offset offset' with
  | nil => exact .cons ⟨rfl, (List.append_nil last).symm⟩ .nil
  | cons l ls ih =>
    rw [List.map_cons, List.cons_append, List.cons_append, ofLines_cons (by simp),
      ofLines_cons (by simp)]
    exact .cons ⟨rfl, rfl⟩ (ih _ _)

theorem ofSource_crlf (source : Text) :
    List.Forall₂ Returned (ofSource source) (ofSource source.crlf) := by
  obtain ⟨ls, last, rfl, free, oneLine⟩ := exists_unlines_append source
  have free' : ∀ l ∈ ls.map (· ++ ['\r']), '\n' ∉ l := by
    intro l member
    obtain ⟨l, inside, rfl⟩ := List.mem_map.mp member
    exact List.not_mem_append (free l inside) (by decide)
  rw [crlf_append, crlf_unlines free, crlf_of_not_mem oneLine, ofSource, ofSource,
    lines_unlines_append free, lines_unlines_append free', lines_of_not_mem oneLine]
  exact ofLines_returned ls last 0 0

end Piece

namespace Listing

theorem lines_withLine {line again : Line} {l l' : Listing} (here : again.unplaced = line.unplaced)
    (later : l'.lines.map (List.map Line.unplaced) = l.lines.map (List.map Line.unplaced)) :
    (l'.withLine again).lines.map (List.map Line.unplaced) =
      (l.withLine line).lines.map (List.map Line.unplaced) := by
  cases lines : l.lines with
  | none =>
    rw [lines] at later
    simp [withLine, lines, Option.map_eq_none_iff.mp later]
  | some ls =>
    rw [lines] at later
    obtain ⟨ls', lines', same⟩ := Option.map_eq_some_iff.mp later
    simp [withLine, lines, lines', here, same]

theorem reads_returned {ps qs : List Piece} {l : Listing} (reads : Reads ps l)
    (returned : List.Forall₂ Piece.Returned ps qs)
    (plain : ∀ p ∈ ps, '\n' ∉ p.text ∧ (p.terminated → p.text.Short)) : ∃ l', Reads qs l' ∧
      l'.lines.map (List.map Line.unplaced) = l.lines.map (List.map Line.unplaced) := by
  induction reads generalizing qs with
  | nil =>
    cases returned
    exact ⟨empty, .nil, rfl⟩
  | blank blank rest ih =>
    obtain ⟨-, others⟩ := List.forall_mem_cons.mp plain
    cases returned with
    | cons here later =>
      obtain ⟨l', reads, same⟩ := ih later others
      exact ⟨l', .blank (here.blank.trans blank) reads, same⟩
  | accepted filled terminated verdict rest ih =>
    obtain ⟨⟨oneLine, short⟩, others⟩ := List.forall_mem_cons.mp plain
    cases returned with
    | cons here later =>
      obtain ⟨l', reads, same⟩ := ih later others
      have filled' := here.blank.trans filled
      have terminated' := here.terminated.trans terminated
      -- the line is accepted again, and what is rejected again cannot have been accepted
      rcases here.verdict terminated oneLine (short terminated) with
        ⟨line', again, accepted, accepted', restated⟩ | ⟨e, e', rejected, -⟩
      · cases verdict.symm.trans accepted
        refine ⟨l'.withLine again, .accepted filled' terminated' accepted' reads, ?_⟩
        exact lines_withLine restated same
      · cases verdict.symm.trans rejected
  | rejected filled terminated verdict rest ih =>
    obtain ⟨⟨oneLine, short⟩, others⟩ := List.forall_mem_cons.mp plain
    cases returned with
    | cons here later =>
      obtain ⟨l', reads, same⟩ := ih later others
      have filled' := here.blank.trans filled
      have terminated' := here.terminated.trans terminated
      rcases here.verdict terminated oneLine (short terminated) with
        ⟨line, again, accepted, -⟩ | ⟨e, e', -, rejected'⟩
      · cases verdict.symm.trans accepted
      · refine ⟨l'.withError e', .rejected filled' terminated' rejected' reads, ?_⟩
        exact lines_withLine rfl same
  | unfinished filled open_ =>
    cases returned with
    | cons here later =>
      exact ⟨_, .unfinished (here.blank.trans filled) (here.terminated.trans open_), rfl⟩

theorem ofSource_crlf {source : Text} (short : source.Short) : ∃ l l', ofSource source = .ok l ∧
    ofSource source.crlf = .ok l' ∧
    l'.lines.map (List.map Line.unplaced) = l.lines.map (List.map Line.unplaced) := by
  obtain ⟨l, reads⟩ := exists_reads_of_short short
  obtain ⟨l', reads', same⟩ := reads_returned reads (Piece.ofSource_crlf source) fun p member =>
    ⟨Piece.newline_not_mem member, fun terminated => Piece.short_of_mem member terminated short⟩
  exact ⟨l, l', ofPieces_of_reads reads, ofPieces_of_reads reads', same⟩

end Listing

theorem Program.ofLines_unplaced (ls : List Line) : ofLines (ls.map Line.unplaced) =
    match ofLines ls with
    | .ok p => .ok p.unplaced
    | .error es => .error (es.map LabelMistake.unplaced) := by
  have apart : Apart id (Labels.names ls) := fun _ _ _ _ same => same
  exact ofLines_relabel apart

namespace Assembly

theorem ofListing_unplaced {l l' : Listing}
    (same : l'.lines.map (List.map Line.unplaced) = l.lines.map (List.map Line.unplaced)) :
    (ofListing l').program.map Program.unplaced = (ofListing l).program.map Program.unplaced ∧
      (ofListing l').labelErrors.map LabelMistake.unplaced =
        (ofListing l).labelErrors.map LabelMistake.unplaced := by
  cases lines : l.lines with
  | none =>
    rw [lines] at same
    have unread : l'.lines = none := Option.map_eq_none_iff.mp same
    constructor
    · simp only [ofListing, lines, unread]
    · simp only [ofListing, lines, unread]
  | some ls =>
    rw [lines] at same
    obtain ⟨ls', lines', same⟩ := Option.map_eq_some_iff.mp same
    have linked := Program.ofLines_unplaced ls
    rw [← same, Program.ofLines_unplaced ls'] at linked
    simp only [ofListing, lines, lines']
    cases made : Program.ofLines ls with
    | ok p =>
      cases made' : Program.ofLines ls' with
      | ok q =>
        rw [made, made'] at linked
        exact ⟨congrArg some (Except.ok.inj linked), rfl⟩
      | error es' =>
        rw [made, made'] at linked
        cases linked
    | error es =>
      cases made' : Program.ofLines ls' with
      | ok q =>
        rw [made, made'] at linked
        cases linked
      | error es' =>
        rw [made, made'] at linked
        exact ⟨rfl, Except.error.inj linked⟩

/-- With a carriage return in front of every newline, a source has lines exactly if it has lines
without them, and these say the same, one by one; malformed lines are in the same places. So the
program has the same instructions, targets and labels, or there are the same mistakes about labels.
Only where things stand is different. -/
theorem crlf_transparent {source : Text} (short : source.Short) : ∃ l l' a a',
    Listing.ofSource source = .ok l ∧ Listing.ofSource source.crlf = .ok l' ∧
    l'.lines.map (List.map Line.unplaced) = l.lines.map (List.map Line.unplaced) ∧
    ofSource source = .ok a ∧ ofSource source.crlf = .ok a' ∧
    a'.program.map Program.unplaced = a.program.map Program.unplaced ∧
    a'.labelErrors.map LabelMistake.unplaced = a.labelErrors.map LabelMistake.unplaced := by
  obtain ⟨l, l', read, read', same⟩ := Listing.ofSource_crlf short
  obtain ⟨programs, mistakes⟩ := ofListing_unplaced same
  exact ⟨l, l', ofListing l, ofListing l', read, read', same, ofSource_eq_ok.mpr ⟨l, read, rfl⟩,
    ofSource_eq_ok.mpr ⟨l', read', rfl⟩, programs, mistakes⟩

theorem crlf_transparent_of_jmp :
    let source : Text := "a:\nb\njmp a\n"
    let jump : Instr := { op := .jmp, label := some ⟨"a", ⟨0, 0⟩⟩, target := some 0 }
    source.crlf = "a:\r\nb\r\njmp a\r\n".toList ∧
      ∃ a, ofSource source.crlf = .ok a ∧
        a.program.map Program.unplaced = some ⟨#[jump], [("a", 0)]⟩ := by
  intro source jump
  have short : source.Short := short_of_length_le (by decide)
  obtain ⟨l, l', a, a', -, -, -, assembled, assembled', program, -⟩ := crlf_transparent short
  let linked : Program := ⟨#[{ jump with label := some ⟨"a", ⟨9, 10⟩⟩ }], [("a", 0)]⟩
  have known : ofSource source = .ok ⟨_, [], some linked⟩ := rfl
  have unplaced : linked.unplaced = ⟨#[jump], [("a", 0)]⟩ := by decide +kernel
  cases known.symm.trans assembled
  exact ⟨by decide, a', assembled', program.trans (congrArg some unplaced)⟩

end Assembly

end TapeMachine
