import TapeMachine.Proofs.Plain
import TapeMachine.Proofs.Sessions

namespace TapeMachine

open Text

def Text.complaints (source : Text) : List Report :=
  match Listing.ofSource source with
  | .ok l => l.complaints
  | .error _ => []

theorem Text.mem_complaints {source : Text} {complaint : Report} :
    complaint ∈ source.complaints ↔
      ∃ l, Listing.ofSource source = .ok l ∧ complaint ∈ l.complaints := by
  unfold complaints
  cases Listing.ofSource source with
  | ok l => simp
  | error why => simp

theorem Text.complaints_rendered (source path : Text) :
    List.Forall₂ (fun complaint report => complaint.render? source path = some report)
      source.complaints (source.complaints.map (·.render source path)) := by
  unfold complaints
  cases Listing.ofSource source with
  | ok l => exact l.complaints_rendered source path
  | error why => exact .nil

theorem Text.escape_not_mem_plain_complaint {source path : Text} (plainSource : '\x1b' ∉ source)
    (plainPath : '\x1b' ∉ path) :
    ∀ complaint ∈ source.complaints, '\x1b' ∉ Ansi.plain (complaint.render source path) := by
  intro complaint member
  obtain ⟨l, read, member⟩ := mem_complaints.mp member
  have reads := Listing.reads_of_ofPieces read
  rcases List.mem_append.mp member with ofSyntax | ofLabel
  · obtain ⟨e, given, rfl⟩ := List.mem_map.mp ofSyntax
    have faithful := Listing.faithful_of_error reads given
    exact Report.escape_not_mem_ofSyntaxError faithful plainSource plainPath
  · obtain ⟨mistake, given, rfl⟩ := List.mem_map.mp ofLabel
    cases lines : l.lines with
    | none =>
      rw [lines] at given
      cases given
    | some ls =>
      rw [lines] at given
      have shown := Listing.shown_of_mistake reads lines given
      exact Report.escape_not_mem_ofLabelError shown plainSource plainPath

namespace Command

inductive Alike : Command → Command → Prop
  | ended (ending : Ending) (output errors errors' : Text) :
      Alike (.ended ⟨ending, output, errors⟩) (.ended ⟨ending, output, errors'⟩)
  | running (p p' : Preferences) (program : Program) (run : Run) (log log' : Array Char) :
      Alike (.running ⟨p, program, run, log⟩) (.running ⟨p', program, run, log'⟩)

variable {c c' : Command} {path : Text} {flags flags' : List Flag}
  {arguments arguments' : List Text}

theorem Alike.advance (alike : Alike c c') (n : Nat) : Alike (c.advance n) (c'.advance n) := by
  cases alike with
  | ended ending output errors errors' => exact .ended ending output errors errors'
  | running p p' program run log log' =>
    have first := Session.advance_eq n ⟨p, program, run, log⟩
    have second := Session.advance_eq n ⟨p', program, run, log'⟩
    rw [Command.advance, Command.advance, first, second]
    exact .running ..

theorem Alike.seen (alike : Alike c c') (input : Stream) :
    c.ending? = c'.ending? ∧ c.written = c'.written ∧ c.inputLeft input = c'.inputLeft input := by
  cases alike with
  | ended => exact ⟨rfl, rfl, rfl⟩
  | running =>
    simp only [ending?, result?, Session.result?, Option.map_map]
    exact ⟨rfl, rfl, rfl⟩

theorem alike_ofSource (p p' : Preferences) (path source : Text) (input : Stream)
    (log log' : Text) :
    Alike (ofSource p path source input log) (ofSource p' path source input log') := by
  unfold ofSource
  cases Assembly.ofSource source with
  | error why => exact .ended ..
  | ok assembly =>
    dsimp only
    split
    · exact .ended ..
    · cases assembly.program with
      | none => exact .ended ..
      | some program => exact .running ..

theorem alike_ofFile (p p' : Preferences) (path : Text) (bytes : List UInt8) (input : Stream) :
    Alike (ofFile p path bytes input) (ofFile p' path bytes input) := by
  unfold ofFile
  cases Utf8.decode bytes with
  | error malformed => exact .ended ..
  | ok t => exact alike_ofSource ..

theorem alike_start (selects : Arguments.Selects path flags arguments)
    (selects' : Arguments.Selects path flags' arguments') (look : Text → Entry) (input : Stream) :
    Alike (start arguments look input) (start arguments' look input) := by
  rw [start_of_selects selects, start_of_selects selects']
  cases chooseFile look [path] with
  | error result => exact .ended ..
  | ok chosen => exact alike_ofFile ..

/-- Whether colour is wanted or not, reports are the same without it. -/
theorem plain_shown {reports : List Text} (free : ∀ t ∈ reports, '\x1b' ∉ Ansi.plain t)
    (p : Preferences) : Ansi.plain (shown p reports) = unlines (reports.map Ansi.plain) := by
  have lines : shown p reports =
      unlines (reports.map fun t => if p.color = some true then t else Ansi.plain t) := by
    rw [shown, unlines, List.flatMap_map]
    rfl
  rw [lines, Ansi.plain_unlines, List.map_map]
  refine congrArg unlines (List.map_congr_left fun t member => ?_)
  rw [Function.comp_apply]
  split
  · rfl
  · exact Ansi.plain_of_not_mem (free t member)

theorem shows_complaints {look : Text → Entry} {source : Text}
    (selects : Arguments.Selects path flags arguments) (finds : Finds look path source)
    (input : Stream) (n : Nat) :
    Shows (.ofFlags flags) path source
      (source.complaints.map (·.render source (Path.normalize path)))
      (start arguments look input) n := by
  unfold Text.complaints
  cases read : Listing.ofSource source with
  | ok l => exact shows_of_read selects finds read input n
  | error why => exact shows_of_refused selects finds read input n

end Command

open Command

/-- Whatever a path leads to and whatever there is to read, after any number of steps two commands
with the same path have come to the same end or to none, with the same status, have written the same
and have left the same unread, whether or not they are asked for details and colour. They show the
same reports in the same order, the one of each complaint about the source, and if there are no
escape characters in the source and the path, these look alike without their styling. -/
theorem preferences_without_effect {path : Text} {flags flags' : List Flag}
    {arguments arguments' : List Text} (selects : Arguments.Selects path flags arguments)
    (selects' : Arguments.Selects path flags' arguments') (look : Text → Entry) (input : Stream)
    (n : Nat) :
    let c := (start arguments look input).advance n
    let c' := (start arguments' look input).advance n
    c.ending? = c'.ending? ∧ c.exitCode? = c'.exitCode? ∧ c.written = c'.written ∧
      c.inputLeft input = c'.inputLeft input ∧
      ∀ source, Finds look path source → ∃ reports,
        List.Forall₂
          (fun complaint report => complaint.render? source (Path.normalize path) = some report)
          source.complaints reports ∧
        Shows (.ofFlags flags) path source reports (start arguments look input) n ∧
        Shows (.ofFlags flags') path source reports (start arguments' look input) n ∧
        ('\x1b' ∉ source → '\x1b' ∉ path →
          Ansi.plain (shown (.ofFlags flags) reports) =
            Ansi.plain (shown (.ofFlags flags') reports)) := by
  intro c c'
  have alike : Alike c c' := (alike_start selects selects' look input).advance n
  obtain ⟨ending, written, left⟩ := alike.seen input
  refine ⟨ending, congrArg (Option.map Ending.exitCode) ending, written, left, ?_⟩
  intro source finds
  refine ⟨_, source.complaints_rendered _, shows_complaints selects finds input n,
    shows_complaints selects' finds input n, ?_⟩
  intro plainSource plainPath
  have free : ∀ t ∈ source.complaints.map (·.render source (Path.normalize path)),
      '\x1b' ∉ Ansi.plain t := by
    intro t member
    obtain ⟨complaint, given, rfl⟩ := List.mem_map.mp member
    exact Text.escape_not_mem_plain_complaint plainSource
      (Path.escape_not_mem_normalize plainPath) complaint given
  rw [plain_shown free, plain_shown free]

theorem preferences_without_effect_of_inp :
    let source : Text := "?\ninp\nout\n"
    let look := Folder.look { files := [(["a.tm"], Utf8.encode source)] }
    let input : Stream := .text "AB"
    let quiet := start ["a.tm"] look input
    let loud := start ["-v", "a.tm", "--no-color", "--color"] look input
    (loud.advance 3).exitCode? = some 0 ∧ (loud.advance 3).written = ("(65: A)" : Text) ∧
      (loud.advance 3).inputLeft input = (quiet.advance 3).inputLeft input ∧
      ∃ reports : List Text, reports.length = 1 ∧
        Shows ⟨true, some true⟩ "a.tm" source reports loud 3 ∧
        Shows {} "a.tm" source reports quiet 3 ∧
        Ansi.plain (shown ⟨true, some true⟩ reports) = Ansi.plain (shown {} reports) := by
  intro source look input quiet loud
  have selects : Arguments.Selects "a.tm" [] ["a.tm"] :=
    @Arguments.Selects.around _ [] _ [] _ nofun .nil .nil
  have selects' : Arguments.Selects "a.tm" [.verbose, .color false, .color true]
      ["-v", "a.tm", "--no-color", "--color"] :=
    @Arguments.Selects.around _ [.verbose] _ ["-v"] _ nofun (.cons (.letters 0) .nil)
      (.cons .noColor (.cons .color .nil))
  have finds : Finds look "a.tm" source :=
    ⟨by decide, Utf8.encode source, source, by decide +kernel, by decide +kernel,
      by decide +kernel⟩
  obtain ⟨-, status, written, left, reported⟩ :=
    preferences_without_effect selects' selects look input 3
  obtain ⟨reports, each, shows, shows', same⟩ := reported source finds
  have one : source.complaints.length = 1 := by decide +kernel
  refine ⟨status.trans ?_, written.trans ?_, left, reports, each.length_eq.symm.trans one, shows,
    shows', same (by decide) (by decide)⟩
  · decide +kernel
  · decide +kernel

end TapeMachine
