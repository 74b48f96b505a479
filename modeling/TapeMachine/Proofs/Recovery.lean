import TapeMachine.Proofs.Concatenation
import TapeMachine.Proofs.Execution

namespace TapeMachine

open Text

namespace Piece

def malformed (p : Piece) : Bool :=
  !p.blank && p.terminated && p.verdict matches .rejected _

def recover (p : Piece) : Piece :=
  { p with text := if p.malformed then p.text.map fun _ => ' ' else p.text }

theorem recover_of_sound {p : Piece} (sound : p.malformed = false) : p.recover = p := by
  simp [recover, sound]

theorem blank_recover {p : Piece} (malformed : p.malformed) : p.recover.blank := by
  simp only [recover, malformed, if_true, blank, List.all_map, List.all_eq_true]
  intro c _
  rfl

theorem length_recover (p : Piece) : p.recover.text.length = p.text.length := by
  unfold recover
  split <;> simp

theorem texts_ofLines (offset : Nat) (ls : List Text) : (ofLines offset ls).map text = ls := by
  induction ls generalizing offset with
  | nil => rfl
  | cons l ls ih =>
    cases ls with
    | nil => rfl
    | cons next ls =>
      have later := ih (offset + l.length + 1)
      rw [ofLines_cons (List.cons_ne_nil next ls), List.map_cons, later]

theorem ofLines_ne_nil {offset : Nat} {ls : List Text} (some : ls ≠ []) :
    ofLines offset ls ≠ [] := by
  intro none
  have texts := texts_ofLines offset ls
  rw [none] at texts
  exact some texts.symm

theorem newline_not_mem {source : Text} {p : Piece} (member : p ∈ ofSource source) :
    '\n' ∉ p.text := by
  apply not_mem_of_mem_lines (t := source)
  rw [← texts_ofLines 0 (lines source)]
  exact List.mem_map_of_mem member

theorem newline_not_mem_recover {p : Piece} (free : '\n' ∉ p.text) : '\n' ∉ p.recover.text := by
  unfold recover
  split
  · simp
  · exact free

theorem ofLines_recover (offset : Nat) (ls : List Text) :
    ofLines offset ((ofLines offset ls).map fun p => p.recover.text) =
      (ofLines offset ls).map recover := by
  induction ls generalizing offset with
  | nil => rfl
  | cons l ls ih =>
    cases ls with
    | nil => rfl
    | cons next ls =>
      have others := List.cons_ne_nil next ls
      have later := ih (offset + l.length + 1)
      have behind : ofLines (offset + l.length + 1) (next :: ls) ≠ [] := ofLines_ne_nil others
      rw [ofLines_cons others, List.map_cons, List.map_cons, ofLines_cons (by simpa using behind),
        length_recover, later]
      rfl

end Piece

def Text.recover (source : Text) : Text :=
  joinWith ['\n'] ((Piece.ofSource source).map fun p => p.recover.text)

theorem Piece.ofSource_recover (source : Text) :
    ofSource source.recover = (ofSource source).map recover := by
  have lines : Text.lines source.recover = (ofSource source).map fun p => p.recover.text := by
    apply List.splitOn_intercalate
    · intro l member
      obtain ⟨p, inSource, rfl⟩ := List.mem_map.mp member
      exact newline_not_mem_recover (newline_not_mem inSource)
    · intro none
      exact ofLines_ne_nil (lines_ne_nil source) (List.map_eq_nil_iff.mp none)
  rw [ofSource, lines]
  exact ofLines_recover 0 _

theorem Draft.line_ne_malformed {d : Draft} {line : Line} (drafted : d.line = .ok line) :
    line ≠ .malformed := by
  unfold Draft.line at drafted
  split at drafted <;> cases drafted <;> nofun

namespace Listing

/-- Blanks in the place of the malformed lines take away their marks and the errors, and nothing
else. -/
theorem reads_recover {ps : List Piece} {l : Listing} {ls : List Line} (reads : Reads ps l)
    (lines : l.lines = some ls) :
    Reads (ps.map Piece.recover) ⟨some (ls.filter (· ≠ .malformed)), []⟩ := by
  induction reads generalizing ls with
  | nil =>
    cases lines
    exact .nil
  | @blank p ps l blank rest ih =>
    have sound : p.malformed = false := by simp [Piece.malformed, blank]
    rw [List.map_cons, Piece.recover_of_sound sound]
    exact .blank blank (ih lines)
  | @accepted p ps l line filled terminated verdict rest ih =>
    obtain ⟨later, read, rfl⟩ := Option.map_eq_some_iff.mp lines
    have sound : p.malformed = false := by simp [Piece.malformed, verdict]
    obtain ⟨f, ns, -, drafted⟩ := Verdict.read_of_accepted verdict
    have kept := Draft.line_ne_malformed drafted
    rw [List.map_cons, Piece.recover_of_sound sound, List.filter_cons_of_pos (by simpa using kept)]
    exact .accepted filled terminated verdict (ih read)
  | @rejected p ps l e filled terminated verdict rest ih =>
    obtain ⟨later, read, rfl⟩ := Option.map_eq_some_iff.mp lines
    have malformed : p.malformed := by simp [Piece.malformed, filled, terminated, verdict]
    rw [List.map_cons, List.filter_cons_of_neg (by simp)]
    exact .blank (Piece.blank_recover malformed) (ih read)
  | unfinished => cases lines

theorem ofSource_recover {source : Text} {listing : Listing} {ls : List Line}
    (read : ofSource source = .ok listing) (lines : listing.lines = some ls) :
    ofSource source.recover = .ok ⟨some (ls.filter (· ≠ .malformed)), []⟩ := by
  have reads := reads_recover (reads_of_ofPieces read) lines
  rw [← Piece.ofSource_recover] at reads
  exact ofPieces_of_reads reads

end Listing

namespace Labels

theorem definitionsFrom_filter (index : Nat) (ls : List Line) :
    definitionsFrom index (ls.filter (· ≠ .malformed)) = definitionsFrom index ls := by
  induction ls generalizing index with
  | nil => rfl
  | cons line ls ih =>
    cases line with
    | instr i =>
      rw [List.filter_cons_of_pos (by simp), definitionsFrom, definitionsFrom, ih]
    | label token =>
      rw [List.filter_cons_of_pos (by simp), definitionsFrom, definitionsFrom, ih]
    | malformed =>
      rw [List.filter_cons_of_neg (by simp), definitionsFrom, ih]

theorem instrs_filter (ls : List Line) : instrs (ls.filter (· ≠ .malformed)) = instrs ls := by
  unfold instrs
  rw [List.filterMap_filter]
  apply List.filterMap_congr
  intro line _
  cases line <;> simp [Line.instr?]

end Labels

theorem Program.ofLines_filter (ls : List Line) :
    ofLines (ls.filter (· ≠ .malformed)) = ofLines ls := by
  have table : Labels.table (ls.filter (· ≠ .malformed)) = Labels.table ls := by
    simp only [Labels.table, Labels.definitions, Labels.definitionsFrom_filter]
  have errors : Labels.errors (ls.filter (· ≠ .malformed)) = Labels.errors ls := by
    simp only [Labels.errors, table, Labels.definitions, Labels.definitionsFrom_filter,
      Labels.instrs_filter]
  unfold ofLines
  rw [table, errors, Labels.instrs_filter]

namespace Assembly

/-- Spaces in the place of the malformed lines take away the errors about syntax. The program with
its targets and labels, the mistakes about labels and all runs stay the same. -/
theorem recovery_transparent {source : Text} {listing : Listing} {ls : List Line}
    (read : Listing.ofSource source = .ok listing) (lines : listing.lines = some ls) :
    ∃ a b, ofSource source = .ok a ∧ ofSource source.recover = .ok b ∧ b.syntaxErrors = [] ∧
      b.labelErrors = a.labelErrors ∧ b.program = a.program ∧
      ∀ p q, a.program = some p → b.program = some q →
        ∀ input n, Run.calls q input n = Run.calls p input n := by
  have recovered := Listing.ofSource_recover read lines
  refine ⟨ofListing listing, ofListing ⟨some (ls.filter (· ≠ .malformed)), []⟩, ?_, ?_, ?_⟩
  · rw [ofSource, read]
    rfl
  · rw [ofSource, recovered]
    rfl
  · simp only [ofListing, lines, Program.ofLines_filter]
    cases Program.ofLines ls with
    | error es => exact ⟨rfl, rfl, rfl, nofun⟩
    | ok program =>
      refine ⟨rfl, rfl, rfl, ?_⟩
      intro p q made made' input n
      cases made
      cases made'
      rfl

theorem recovery_transparent_of_label :
    let source : Text := "in: x\nin:\njmp in\n"
    let jump : Instr := { op := .jmp, label := some ⟨"in", ⟨14, 16⟩⟩, target := some 0 }
    source.recover = "     \nin:\njmp in\n".toList ∧
      ofSource source.recover = .ok ⟨[], [], some ⟨#[jump], [("in", 0)]⟩⟩ := by
  intro source jump
  have read : Listing.ofSource source = .ok _ := rfl
  obtain ⟨a, b, assembled, assembled', syntaxErrors, labelErrors, program, -⟩ :=
    recovery_transparent read rfl
  have known : ofSource source = .ok _ := rfl
  cases known.symm.trans assembled
  refine ⟨by decide +kernel, ?_⟩
  rw [assembled']
  cases b with
  | mk syntaxErrors' labelErrors' program' =>
    dsimp only at syntaxErrors labelErrors program
    rw [syntaxErrors, labelErrors, program]
    rfl

end Assembly

end TapeMachine
