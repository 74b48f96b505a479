import TapeMachine.Command.Session
import TapeMachine.Proofs.Options
import TapeMachine.Proofs.Termination
import TapeMachine.Proofs.Underlining

namespace TapeMachine

namespace Run

/-- What the steps of a run remark, up to the one that stops it. -/
def remarks (p : Program) : Nat → Run → List Text
  | 0, _ => []
  | n + 1, r => if r.stop.isSome then [] else r.machine.remarks p ++ remarks p n (r.next p)

end Run

/-- The last line of the error stream once the file has been read. -/
def Ending.notice : Ending → Text
  | noLines => logLine .info "Program not started because no syntax tree was produced"
  | labelErrors => logLine .info "Program not started because of label errors"
  | stopped (.fault f) => logLine .error ("Execution halted on runtime error: " ++ f.message)
  | stopped .interrupted => logLine .info "Execution halted by the user"
  | _ => []

namespace Command

theorem debugLines_nil (p : Preferences) : debugLines p [] = [] := by
  unfold debugLines
  split <;> rfl

theorem debugLines_append (p : Preferences) (messages more : List Text) :
    debugLines p (messages ++ more) = debugLines p messages ++ debugLines p more := by
  unfold debugLines
  split
  · exact List.flatMap_append
  · rfl

theorem shown_append (p : Preferences) (reports more : List Text) :
    shown p (reports ++ more) = shown p reports ++ shown p more :=
  List.flatMap_append

def written : Command → Text
  | ended result => result.output
  | running session => session.run.written.toList

def errors : Command → Text
  | ended result => result.errors
  | running session => (session.result?.map (·.errors)).getD session.log.toList

/-- What is left of an input; a command that ends before the program starts leaves it whole. -/
def inputLeft (stream : Stream) : Command → Input
  | ended _ => { stream := stream }
  | running session => session.run.machine.input

def ending? (c : Command) : Option Ending := c.result?.map (·.ending)

def exitCode? (c : Command) : Option Nat := c.ending?.map Ending.exitCode

/-- What the first steps of a command that has just started remark. -/
def details (n : Nat) : Command → List Text
  | ended _ => []
  | running session => session.run.remarks session.program n

def notice (c : Command) : Text := (c.ending?.map Ending.notice).getD []

/-- What the error stream holds before the first step: remarks about the file, then the reports. -/
def preamble (p : Preferences) (path source : Text) (reports : List Text) : Text :=
  debugLines p (("Running " ++ Path.normalize path) :: Assembly.remarks source) ++ shown p reports

/-- After `n` steps of a command that has just started, the error stream holds the preamble, what
the steps remark, and what is said about the ending. -/
def Shows (p : Preferences) (path source : Text) (reports : List Text) (c : Command) (n : Nat) :
    Prop :=
  (c.advance n).errors =
    preamble p path source reports ++ debugLines p (c.details n) ++ (c.advance n).notice

def Finds (look : Text → Entry) (path source : Text) : Prop :=
  '\x00' ∉ path ∧ ∃ bytes t, look path = .file bytes ∧ Utf8.decode bytes = .ok t ∧
    Newline.normalize t = source

end Command

def Listing.complaints (l : Listing) : List Report :=
  l.errors.map Report.ofSyntaxError ++
    ((l.lines.map Labels.errors).getD []).map Report.ofLabelError

namespace Session

variable {s : Session}

theorem next_eq (s : Session) :
    s.next = { s with
      run := s.run.next s.program
      log := s.log ++ Command.debugLines s.preferences (s.run.machine.remarks s.program) } := by
  unfold next
  split
  · rfl
  · rename_i quiet
    simp [Command.debugLines, quiet]

/-- The steps of a session are those of its run, and the log grows by what they remark. -/
theorem advance_eq (n : Nat) (s : Session) :
    s.advance n = { s with
      run := s.run.advance s.program n
      log := s.log ++ Command.debugLines s.preferences (s.run.remarks s.program n) } := by
  induction n generalizing s with
  | zero => simp [advance, Run.remarks, Command.debugLines_nil]
  | succ n ih =>
    rw [advance, Run.advance, Run.remarks]
    split
    · simp [Command.debugLines_nil]
    · rw [ih, next_eq, Command.debugLines_append]
      simp only [Session.mk.injEq, true_and]
      exact Array.toList_inj.mp (by simp)

theorem errors_eq (s : Session) :
    (Command.running s).errors = s.log.toList ++ (Command.running s).notice := by
  simp only [Command.errors, Command.notice, Command.ending?, Command.result?, result?]
  cases s.run.stop with
  | none => exact (List.append_nil _).symm
  | some why => cases why <;> rfl

end Session

theorem Program.isEmpty_of_ofLines {ls : List Line} {es : List LabelMistake}
    (failed : ofLines ls = .error es) : es.isEmpty = false := by
  unfold ofLines at failed
  split at failed
  · cases failed
  · rename_i mistaken
    cases failed
    simpa using mistaken

namespace Listing

theorem labelErrors_ofListing (l : Listing) :
    (Assembly.ofListing l).labelErrors = (l.lines.map Labels.errors).getD [] := by
  unfold Assembly.ofListing
  cases l.lines with
  | none => rfl
  | some ls =>
    dsimp only [Option.map_some, Option.getD_some]
    unfold Program.ofLines
    by_cases none : (Labels.errors ls).isEmpty
    · rw [if_pos none, List.isEmpty_iff.mp none]
    · rw [if_neg none]

theorem render_complaints (l : Listing) (source path : Text) :
    l.complaints.map (·.render source path) =
      (Assembly.ofListing l).syntaxReports source path ++
        (Assembly.ofListing l).labelReports source path := by
  rw [Assembly.syntaxReports, Assembly.labelReports, Assembly.syntaxErrors_ofListing,
    labelErrors_ofListing, complaints, List.map_append, List.map_map, List.map_map]
  rfl

theorem complaints_rendered (l : Listing) (source path : Text) :
    List.Forall₂ (fun complaint report => complaint.render? source path = some report) l.complaints
      (l.complaints.map (·.render source path)) := by
  rw [List.forall₂_map_right_iff, List.forall₂_same]
  intro r member
  have annotated : r.annotations ≠ [] := by
    rcases List.mem_append.mp member with ofSyntax | ofLabel
    · obtain ⟨e, -, rfl⟩ := List.mem_map.mp ofSyntax
      exact List.cons_ne_nil _ _
    · obtain ⟨mistake, -, rfl⟩ := List.mem_map.mp ofLabel
      cases mistake <;> exact List.cons_ne_nil _ _
  obtain ⟨_, -, -, rendered⟩ := Report.render_eq annotated source path
  rw [Report.render, rendered, Option.getD_some]

end Listing

namespace Command

variable {path source : Text} {l : Listing} {flags : List Flag}
  {arguments : List Text} {look : Text → Entry}

theorem ofSource_of_refused {why : Refusal} (refused : Listing.ofSource source = .error why)
    (p : Preferences) (path : Text) (input : Stream) (log : Text) :
    ofSource p path source input log =
      .ended ⟨.refused why, [], log ++ debugLines p (Assembly.remarks source)⟩ := by
  have failed : Assembly.ofSource source = .error why := by
    rw [Assembly.ofSource, refused]
    rfl
  simp only [ofSource, failed]

def told (p : Preferences) (path source : Text) (l : Listing) : Text :=
  preamble p path source (l.complaints.map (·.render source (Path.normalize path)))

theorem start_of_selects (selects : Arguments.Selects path flags arguments)
    (look : Text → Entry) (input : Stream) :
    start arguments look input =
      match chooseFile look [path] with
      | .error result => .ended result
      | .ok (path, bytes) => ofFile (.ofFlags flags) path bytes input := by
  rw [start, Arguments.ofList_of_selects selects]
  rfl

theorem start_of_finds (selects : Arguments.Selects path flags arguments)
    (finds : Finds look path source) (input : Stream) :
    start arguments look input =
      ofSource (.ofFlags flags) (Path.normalize path) source input
        (debugLines (.ofFlags flags) ["Running " ++ Path.normalize path]) := by
  obtain ⟨whole, bytes, t, file, decoded, rfl⟩ := finds
  have chosen : chooseFile look [path] = .ok (Path.normalize path, bytes) := by
    simp only [chooseFile, if_neg whole, file, List.isEmpty_nil, if_true]
  simp only [start_of_selects selects, chosen, ofFile, decoded]

/-- After the reports of a source that has been read, its lines decide: without lines there is
nothing to run, and with lines there is a program or something is wrong with their labels. -/
theorem start_of_read (selects : Arguments.Selects path flags arguments)
    (finds : Finds look path source) (read : Listing.ofSource source = .ok l) (input : Stream) :
    start arguments look input =
      match l.lines.map Program.ofLines with
      | none =>
        .ended ⟨.noLines, [], told (.ofFlags flags) path source l ++
          logLine .info "Program not started because no syntax tree was produced"⟩
      | some (.error _) =>
        .ended ⟨.labelErrors, [], told (.ofFlags flags) path source l ++
          logLine .info "Program not started because of label errors"⟩
      | some (.ok program) =>
        .running ⟨.ofFlags flags, program, .opening input,
          (told (.ofFlags flags) path source l).toArray⟩ := by
  have assembled : Assembly.ofSource source = .ok (Assembly.ofListing l) := by
    rw [Assembly.ofSource, read]
    rfl
  have reported : debugLines (.ofFlags flags) ["Running " ++ Path.normalize path] ++
      debugLines (.ofFlags flags) (Assembly.remarks source) ++
      shown (.ofFlags flags) ((Assembly.ofListing l).syntaxReports source (Path.normalize path)) ++
      shown (.ofFlags flags) ((Assembly.ofListing l).labelReports source (Path.normalize path)) =
        told (.ofFlags flags) path source l := by
    rw [← debugLines_append, List.append_assoc, ← shown_append, ← l.render_complaints]
    rfl
  rw [start_of_finds selects finds]
  cases lines : l.lines with
  | none =>
    have whole : Assembly.ofListing l = ⟨l.errors, [], none⟩ := by
      simp only [Assembly.ofListing, lines]
    rw [whole] at assembled reported
    simp only [ofSource, assembled, reported]
    rfl
  | some ls =>
    cases made : Program.ofLines ls with
    | ok program =>
      have whole : Assembly.ofListing l = ⟨l.errors, [], some program⟩ := by
        simp only [Assembly.ofListing, lines, made]
      rw [whole] at assembled reported
      simp only [ofSource, assembled, reported, Option.map_some, made]
      rfl
    | error es =>
      have whole : Assembly.ofListing l = ⟨l.errors, es, none⟩ := by
        simp only [Assembly.ofListing, lines, made]
      have mistaken : es.isEmpty = false := Program.isEmpty_of_ofLines made
      rw [whole] at assembled reported
      simp only [ofSource, assembled, reported, Option.map_some, made, mistaken, Bool.not_false,
        if_true]

theorem shows_running {s : Session} {reports : List Text}
    (told : s.log.toList = preamble s.preferences path source reports) (n : Nat) :
    Shows s.preferences path source reports (running s) n := by
  have errors := Session.errors_eq (s.advance n)
  have log : (s.advance n).log.toList =
      s.log.toList ++ debugLines s.preferences (s.run.remarks s.program n) := by
    rw [Session.advance_eq, Array.toList_appendList]
  rw [log, told] at errors
  exact errors

theorem shows_ended {p : Preferences} {reports : List Text} {result : Result}
    (told : result.errors = preamble p path source reports ++ result.ending.notice) (n : Nat) :
    Shows p path source reports (ended result) n := by
  have quiet : debugLines p ((ended result).details n) = [] := debugLines_nil p
  rw [Shows, quiet, List.append_nil]
  exact told

theorem shows_of_read (selects : Arguments.Selects path flags arguments)
    (finds : Finds look path source) (read : Listing.ofSource source = .ok l) (input : Stream)
    (n : Nat) :
    Shows (.ofFlags flags) path source (l.complaints.map (·.render source (Path.normalize path)))
      (start arguments look input) n := by
  rw [start_of_read selects finds read]
  cases l.lines.map Program.ofLines with
  | none => exact shows_ended rfl n
  | some made =>
    cases made with
    | error es => exact shows_ended rfl n
    | ok program => exact shows_running (List.toList_toArray ..) n

theorem shows_of_refused {why : Refusal} (selects : Arguments.Selects path flags arguments)
    (finds : Finds look path source) (refused : Listing.ofSource source = .error why)
    (input : Stream) (n : Nat) :
    Shows (.ofFlags flags) path source [] (start arguments look input) n := by
  rw [start_of_finds selects finds, ofSource_of_refused refused, ← debugLines_append]
  apply shows_ended
  rw [preamble, shown, List.flatMap_nil, List.append_nil]
  exact (List.append_nil _).symm

end Command

end TapeMachine
