import TapeMachine.Proofs.Layout
import TapeMachine.Proofs.Operands
import TapeMachine.Proofs.Positions
import TapeMachine.Proofs.Resolution
import TapeMachine.Report.Diagnosis

namespace TapeMachine

open Text

/-- There is a character of the source at the start of the span, or the source ends there. -/
structure Span.Inside (s : Span) (source : Text) : Prop where
  stop : s.stop ≤ source.length
  filled : s.start < s.stop ∨ s.start = source.length

namespace Span

variable {s : Span} {source w : Text} {p : Piece}

theorem Inside.start (inside : s.Inside source) : s.start ≤ source.length := by
  obtain ⟨stop, filled⟩ := inside
  omega

theorem Shows.inside (shows : s.Shows source p w) (some : w ≠ []) : s.Inside source := by
  refine ⟨shows.inSource, .inl ?_⟩
  by_contra empty
  have none : source.at s = [] := by
    rw [Text.at, slice, List.drop_eq_nil_iff, List.length_take]
    omega
  exact some (shows.shown.symm.trans none)

end Span

namespace Report

/-- The report, without its styling, quotes the line on which the span starts. Among the rows of
carets directly below is one that underlines the span, and over its carets stands the text of the
span if no line ends in it. -/
def Underlines (r : Report) (source path : Text) (s : Span) : Prop :=
  ∃ above front behind gutter note before marks after, source.LiesAt s.start above front behind ∧
    let line := trimEnd (· == '\r') (front ++ behind)
    let quoted := Row.render gutter (.quoted (above.length + 1) line)
    let width := max (s.stop - s.start) 1
    Ansi.plain (r.render source path) =
      unlines (before ++ quoted :: (marks ++ Row.carets gutter front.length width note :: after)) ∧
    (∀ row ∈ marks, ∃ indent width note, row = Row.carets gutter indent width note) ∧
    ('\n' ∉ source.at s → '\r' ∉ source.at s →
      (quoted.drop (gutter + 3 + front.length)).take width = source.at s)

def Locates (r : Report) (source path : Text) (offset : Nat) : Prop :=
  ∃ above front behind gutter rest, source.LiesAt offset above front behind ∧
    Ansi.plain (r.render source path) =
      unlines (Ansi.plain (Row.render gutter (.header r.code r.message)) ::
        Row.render gutter (.place path ⟨above.length + 1, front.length + 1⟩) :: rest)

variable {r : Report} {source path : Text}

theorem plain_render (some : r.annotations ≠ []) (source path : Text) :
    ∃ gutter, (∀ number ∈ r.lineNumbers source, (Decimal.ofNat number).length ≤ gutter) ∧
      Ansi.plain (r.render source path) =
        unlines ((r.rows source path).map fun row => Ansi.plain (row.render gutter)) := by
  obtain ⟨last, -, largest, report, rendered, plain⟩ := plain_render? some source path
  refine ⟨_, fun number inside => Decimal.length_ofNat_mono (largest number inside), ?_⟩
  rw [render, rendered, Option.getD_some, plain]

theorem underlines {a : Annotation} (member : a ∈ r.annotations) (free : '\x1b' ∉ source)
    (notes : ∀ b ∈ r.annotations, '\x1b' ∉ b.note) (inside : a.span.Inside source) (path : Text) :
    r.Underlines source path a.span := by
  obtain ⟨above, front, behind, lies⟩ := exists_liesAt inside.start
  obtain ⟨gutter, fits, rendered⟩ := plain_render (List.ne_nil_of_mem member) source path
  obtain ⟨before, earlier, later, after, rows, own⟩ := rows_eq member source path
  have position : a.position source = ⟨above.length + 1, front.length + 1⟩ := lies.position
  have fits := fits _ (mem_lineNumbers.mpr ⟨a, member, rfl⟩)
  rw [position] at rows own fits
  have quoted : '\x1b' ∉ trimEnd (· == '\r') (front ++ behind) := fun escape =>
    free (lies.mem_of_mem_line (mem_of_mem_trimEnd escape))
  have marked : ∀ b ∈ r.annotations, Ansi.plain (Row.render gutter (b.row source)) =
      Row.carets gutter ((b.position source).column - 1) (max (b.span.stop - b.span.start) 1)
        b.note := by
    intro b member
    unfold Annotation.row
    rw [Row.plain_marked, Ansi.plain_of_not_mem (notes b member)]
  refine ⟨above, front, behind, gutter, a.note,
    before.map fun row => Ansi.plain (row.render gutter),
    earlier.map fun b => Ansi.plain (Row.render gutter (b.row source)),
    (later.map (·.row source) ++ after).map fun row => Ansi.plain (row.render gutter),
    lies, ?_, ?_, ?_⟩
  · simp only [rendered, rows, lies.quotedLine, List.map_append, List.map_cons, List.map_map,
      Row.plain_quoted, Ansi.plain_of_not_mem quoted, marked a member, position,
      Function.comp_def, Nat.add_sub_cancel]
  · intro row inMarks
    obtain ⟨b, inEarlier, rfl⟩ := List.mem_map.mp inMarks
    have inOwn : b ∈ earlier ++ a :: later := List.mem_append_left _ inEarlier
    rw [own] at inOwn
    exact ⟨_, _, _, marked b (List.mem_filter.mp inOwn).1⟩
  · intro inLine kept
    rw [Row.drop_quoted fits, ← lies.quotedLine]
    exact lies.quoted_eq rfl inside.stop inside.filled inLine kept

theorem locates (some : r.annotations ≠ []) (inside : r.anchor ≤ source.length)
    (free : '\x1b' ∉ path) : r.Locates source path r.anchor := by
  obtain ⟨above, front, behind, lies⟩ := exists_liesAt inside
  obtain ⟨gutter, -, rendered⟩ := plain_render some source path
  have place : Ansi.plain (Row.render gutter (.place path ⟨above.length + 1, front.length + 1⟩)) =
      Row.render gutter (.place path ⟨above.length + 1, front.length + 1⟩) := by
    apply Ansi.plain_of_not_mem
    simp [Row.render, Row.escape_not_mem_ofNat, free]
  rw [rows, lies.position] at rendered
  simp only [List.cons_append, List.map_cons, place] at rendered
  exact ⟨above, front, behind, gutter, _, lies, rendered⟩

theorem plain_of_ofLabelError (mistake : LabelMistake) :
    ∀ a ∈ (ofLabelError mistake).annotations, '\x1b' ∉ a.note := by
  intro a member
  cases mistake with
  | unknown token =>
    obtain rfl := List.mem_singleton.mp member
    dsimp only
    decide
  | redefined name first second =>
    rcases List.mem_pair.mp member with rfl | rfl <;> dsimp only <;> decide

end Report

namespace SyntaxError

variable {source : Text} {e : SyntaxError}

theorem found_ne_nil_of_rejected {t w : Text} {offset : Nat} {terminated : Bool}
    (rejected : Verdict.ofText t offset terminated = .rejected e) (found : e.found = some w) :
    w ≠ [] := by
  rcases Verdict.failed_of_rejected rejected with ⟨f, i, literal, failed, rfl⟩ | rfl
  · cases found
    cases Form.fails_of_error failed with
    | overflow literal outside =>
      obtain ⟨c, rest, rfl, -⟩ := literal.numeral.head
      exact List.cons_ne_nil c rest
  · have found : Mismatch.found t terminated _ = some w := found
    unfold Mismatch.found at found
    split at found
    · cases found
      exact List.cons_ne_nil _ _
    · split at found
      · cases found
        exact List.cons_ne_nil _ _
      · cases found

/-- No error is about a delimiter, and the only reason ever given is the one for numerals. -/
theorem Faithful.unclosed_and_reason (faithful : e.Faithful source) :
    e.unclosed = none ∧ (e.reason = none ∨ e.reason = some Verdict.overflowReason) := by
  unfold Faithful at faithful
  split at faithful
  · obtain ⟨p, -, rejected, -⟩ := faithful
    rcases Verdict.failed_of_rejected rejected with ⟨f, i, literal, failed, rfl⟩ | rfl
    · exact ⟨rfl, .inr rfl⟩
    · exact ⟨rfl, .inl rfl⟩
  · subst faithful
    exact ⟨rfl, .inl rfl⟩

theorem Faithful.inside (faithful : e.Faithful source) :
    e.span.Inside source ∧ source.at e.span = e.found.getD [] := by
  unfold Faithful at faithful
  split at faithful
  · rename_i w found
    obtain ⟨p, -, rejected, shows, -⟩ := faithful
    exact ⟨shows.inside (found_ne_nil_of_rejected rejected found), by rw [found, shows.shown]; rfl⟩
  · subst faithful
    exact ⟨⟨Nat.le_refl _, .inr rfl⟩, by simp [Text.at, slice]⟩

theorem Faithful.annotations (faithful : e.Faithful source) : ∃ note, '\x1b' ∉ note ∧
    (Report.ofSyntaxError e).annotations = [⟨e.span, note, .red⟩] := by
  obtain ⟨unclosed, reason⟩ := faithful.unclosed_and_reason
  refine ⟨e.reason.getD "unexpected token", ?_, ?_⟩
  · rcases reason with none | given
    · rw [none]
      decide +kernel
    · rw [given]
      decide +kernel
  · rw [Report.ofSyntaxError, unclosed]
    rfl

end SyntaxError

def LabelMistake.Shown (source : Text) : LabelMistake → Prop
  | unknown token => token.span.Inside source ∧ source.at token.span = token.text
  | redefined name first second =>
    (first.Inside source ∧ source.at first = name ++ [':']) ∧
      second.Inside source ∧ source.at second = name ++ [':']

namespace Labels

theorem unknown?_eq_some {ls : List Line} {i : Instr} {mistake : LabelMistake}
    (made : unknown? ls i = some mistake) :
    ∃ token, i.label = some token ∧ mistake = .unknown token := by
  obtain ⟨token, reference, made⟩ := Option.bind_eq_some_iff.mp made
  split at made
  · cases made
    unfold Instr.reference? at reference
    split at reference
    · exact ⟨token, reference, rfl⟩
    · cases reference
  · cases made

end Labels

namespace Listing

variable {source : Text} {l : Listing} {ls : List Line}

theorem gives_of_mem {ps : List Piece} {line : Line} (reads : Reads ps l)
    (lines : l.lines = some ls) (member : line ∈ ls) : ∃ p ∈ ps, p.Gives line := by
  obtain ⟨k, inside, rfl⟩ := List.getElem_of_mem member
  have given := gives_of_reads reads lines
  have inside' : k < (ps.filter (!·.blank)).length := given.length_eq ▸ inside
  exact ⟨_, (List.mem_filter.mp (List.getElem_mem inside')).1, given.get inside' inside⟩

theorem definition_shown {token : Token} (reads : Reads (Piece.ofSource source) l)
    (lines : l.lines = some ls) (member : .label token ∈ ls) :
    token.span.Inside source ∧ source.at token.span = token.text ++ [':'] := by
  obtain ⟨p, inSource, gives⟩ := gives_of_mem reads lines member
  have shows : token.span.Shows source p (token.text ++ [':']) :=
    Piece.faithful_of_gives inSource gives
  exact ⟨shows.inside (by simp), shows.shown⟩

theorem reference_shown {i : Instr} {token : Token} (reads : Reads (Piece.ofSource source) l)
    (lines : l.lines = some ls) (member : .instr i ∈ ls) (labelled : i.label = some token) :
    token.span.Inside source ∧ source.at token.span = token.text := by
  obtain ⟨p, inSource, gives⟩ := gives_of_mem reads lines member
  have shows := Piece.faithful_of_gives inSource gives token labelled
  suffices identifier : Identifier token.text from ⟨shows.inside identifier.ne_nil, shows.shown⟩
  rcases gives with accepted | ⟨-, -, malformed⟩
  · obtain ⟨s, ⟨_, _, _, -, -, body, -⟩, stated⟩ :=
      Verdict.spells_of_accepted (Piece.newline_not_mem inSource) accepted
    obtain ⟨op, reg, value, label, target⟩ := i
    cases labelled
    cases target with
    | some index => cases stated
    | none =>
      cases stated
      cases body with
      | jump separator identifier => exact identifier
      | branch takes separator r separator' identifier => exact identifier
  · cases malformed

theorem shown_of_mistake {mistake : LabelMistake} (reads : Reads (Piece.ofSource source) l)
    (lines : l.lines = some ls) (member : mistake ∈ Labels.errors ls) : mistake.Shown source := by
  rw [Labels.errors_eq] at member
  rcases List.mem_append.mp member with redefined | unknown
  · obtain ⟨k, -, made⟩ := List.mem_filterMap.mp redefined
    obtain ⟨token, j, first, label, defining, origin, -, rfl⟩ :=
      Labels.redefinition?_eq_some.mp made
    obtain ⟨first', origin', text⟩ := Labels.label_of_definingLine? defining
    cases origin.symm.trans origin'
    have early := List.mem_of_getElem? (Labels.labelAt?_eq_some.mp origin)
    have late := List.mem_of_getElem? (Labels.labelAt?_eq_some.mp label)
    have shown := definition_shown reads lines early
    rw [text] at shown
    exact ⟨shown, definition_shown reads lines late⟩
  · obtain ⟨i, inProgram, made⟩ := List.mem_filterMap.mp unknown
    obtain ⟨token, labelled, rfl⟩ := Labels.unknown?_eq_some made
    exact reference_shown reads lines (Labels.mem_of_mem_instrs inProgram) labelled

end Listing

namespace Assembly

theorem mem_labelErrors {l : Listing} {mistake : LabelMistake}
    (member : mistake ∈ (ofListing l).labelErrors) :
    ∃ ls, l.lines = some ls ∧ mistake ∈ Labels.errors ls := by
  unfold ofListing at member
  split at member
  · cases member
  · rename_i ls lines
    refine ⟨ls, lines, ?_⟩
    split at member
    · cases member
    · rename_i es mistaken
      unfold Program.ofLines at mistaken
      split at mistaken
      · cases mistaken
      · cases mistaken
        exact member

/-- Every report names the place of its error, quotes the lines that the error is on, and
underlines what was found there, the label that is not defined, or both definitions of a label. -/
theorem reports_underline {source path : Text} {a : Assembly} (assembled : ofSource source = .ok a)
    (plainSource : '\x1b' ∉ source) (plainPath : '\x1b' ∉ path) :
    (∀ e ∈ a.syntaxErrors, (Report.ofSyntaxError e).annotations.map (·.span) = [e.span] ∧
      (Report.ofSyntaxError e).Underlines source path e.span ∧
      (Report.ofSyntaxError e).Locates source path e.span.start ∧
      source.at e.span = e.found.getD []) ∧
    (∀ token, .unknown token ∈ a.labelErrors →
      (Report.ofLabelError (.unknown token)).Underlines source path token.span ∧
      (Report.ofLabelError (.unknown token)).Locates source path token.span.start ∧
      source.at token.span = token.text) ∧
    ∀ name first second, .redefined name first second ∈ a.labelErrors →
      (Report.ofLabelError (.redefined name first second)).Underlines source path first ∧
      (Report.ofLabelError (.redefined name first second)).Underlines source path second ∧
      (Report.ofLabelError (.redefined name first second)).Locates source path second.start ∧
      source.at first = name ++ [':'] ∧ source.at second = name ++ [':'] := by
  obtain ⟨l, read, rfl⟩ := ofSource_eq_ok.mp assembled
  have reads := Listing.reads_of_ofPieces read
  refine ⟨?_, ?_, ?_⟩
  · intro e member
    rw [syntaxErrors_ofListing] at member
    have faithful := Listing.faithful_of_error reads member
    obtain ⟨inside, shown⟩ := faithful.inside
    obtain ⟨note, plain, annotations⟩ := faithful.annotations
    have underlined : ⟨e.span, note, .red⟩ ∈ (Report.ofSyntaxError e).annotations := by
      rw [annotations]
      exact List.mem_cons_self
    refine ⟨by rw [annotations]; rfl, Report.underlines underlined plainSource ?_ inside path,
      Report.locates (List.ne_nil_of_mem underlined) inside.start plainPath, shown⟩
    intro b among
    rw [annotations] at among
    obtain rfl := List.mem_singleton.mp among
    exact plain
  · intro token member
    obtain ⟨ls, lines, mistaken⟩ := mem_labelErrors member
    obtain ⟨inside, shown⟩ := Listing.shown_of_mistake reads lines mistaken
    have underlined := Report.underlines List.mem_cons_self plainSource
      (Report.plain_of_ofLabelError (.unknown token)) inside path
    exact ⟨underlined, Report.locates (List.cons_ne_nil _ _) inside.start plainPath, shown⟩
  · intro name first second member
    obtain ⟨ls, lines, mistaken⟩ := mem_labelErrors member
    obtain ⟨⟨inside, shown⟩, inside', shown'⟩ := Listing.shown_of_mistake reads lines mistaken
    have plain := Report.plain_of_ofLabelError (.redefined name first second)
    have underlined := Report.underlines List.mem_cons_self plainSource plain inside path
    have underlined' := Report.underlines (List.mem_cons_of_mem _ List.mem_cons_self) plainSource
      plain inside' path
    exact ⟨underlined, underlined', Report.locates (List.cons_ne_nil _ _) inside'.start plainPath,
      shown, shown'⟩

theorem reports_underline_of_four_lines :
    let source : Text := "go:\n\tjmp up\r\n go:\n7\n"
    let path : Text := "a.tm"
    let again := Report.ofLabelError (.redefined "go" ⟨0, 3⟩ ⟨14, 17⟩)
    let unknown := Report.ofLabelError (.unknown ⟨"up", ⟨9, 11⟩⟩)
    ∃ a e, ofSource source = .ok a ∧ a.syntaxErrors = [e] ∧ e.span = ⟨18, 19⟩ ∧
      (Report.ofSyntaxError e).Underlines source path e.span ∧
      (Report.ofSyntaxError e).Locates source path 18 ∧
      unknown.Underlines source path ⟨9, 11⟩ ∧ unknown.Locates source path 9 ∧
      again.Underlines source path ⟨0, 3⟩ ∧ again.Underlines source path ⟨14, 17⟩ ∧
      again.Locates source path 14 := by
  intro source path again unknown
  have assembled : ofSource source = .ok _ := rfl
  have plainSource : '\x1b' ∉ source := by decide
  have plainPath : '\x1b' ∉ path := by decide
  obtain ⟨ofSyntax, ofUnknown, ofRedefined⟩ := reports_underline assembled plainSource plainPath
  obtain ⟨-, underlined, located, -⟩ := ofSyntax _ List.mem_cons_self
  obtain ⟨first, second, later, -⟩ := ofRedefined _ _ _ List.mem_cons_self
  obtain ⟨label, place, -⟩ := ofUnknown _ (List.mem_cons_of_mem _ List.mem_cons_self)
  exact ⟨_, _, assembled, rfl, rfl, underlined, located, label, place, first, second, later⟩

end Assembly

end TapeMachine
