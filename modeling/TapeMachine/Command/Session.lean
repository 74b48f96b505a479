import TapeMachine.Command.Arguments
import TapeMachine.Command.Folder
import TapeMachine.Log
import TapeMachine.Machine.Run
import TapeMachine.Report.Diagnosis
import TapeMachine.Text.Newline

/-! A run of the command. It either ends before the program starts, or goes on as a session
that is advanced step by step until the machine stops. What goes to the error stream depends
on the preferences, and nothing else does. -/
namespace TapeMachine

inductive Ending
  | help
  | usage (e : UsageError)
  | nullInPath
  | unreadable
  | refused (why : Refusal)
  | noLines
  | labelErrors
  | stopped (why : Stop)
  deriving Repr, DecidableEq

def Ending.exitCode : Ending → Nat
  | help | stopped .halted => 0
  | refused _ | noLines | nullInPath => 1
  | usage _ | labelErrors => 2
  | stopped .interrupted => 3
  | stopped (.fault _) => 100
  | unreadable => 101
  | stopped _ => 1

structure Result where
  ending : Ending
  output : Text
  errors : Text
  deriving Repr, DecidableEq

namespace Command

def synopsis : Text := "Usage: tapevm [OPTIONS] PATH\n"

def help : Text :=
  synopsis ++ "\nOptions:\n" ++
    "  -v, --verbose         Sets logging level to debug\n" ++
    "  --color / --no-color  Force or disable colored diagnostics\n" ++
    "  --help                Show this message and exit.\n"

def usage (e : UsageError) : Result :=
  let hint : Text :=
    if e.withSynopsis then synopsis ++ "Try 'tapevm --help' for help.\n\n" else []
  ⟨.usage e, [], hint ++ "Error: " ++ Ansi.plain e.message ++ "\n"⟩

def chooseFile (look : Text → Entry) : List Text → Except Result (Text × List UInt8)
  | [] => .error (usage .missingPath)
  | path :: others =>
    if '\x00' ∈ path then .error ⟨.nullInPath, [], []⟩
    else
      match look path with
      | .absent => .error (usage (.noSuchFile path))
      | .folder => .error (usage (.directory path))
      | .file bytes =>
        if others.isEmpty then .ok (Path.normalize path, bytes)
        else .error (usage (.extra others))

def debugLines (p : Preferences) (messages : List Text) : Text :=
  if p.verbose then messages.flatMap (logLine .debug) else []

def shown (p : Preferences) (reports : List Text) : Text :=
  reports.flatMap fun report => (if p.color = some true then report else Ansi.plain report) ++ "\n"

def hexByte (b : UInt8) : Text := "0x" ++ Escape.hex 2 b.toNat

def complaint (m : Utf8.Malformed) : Text :=
  let place : Text :=
    if m.size = 1 then
      "byte " ++ hexByte m.lead ++ " in position " ++ Decimal.ofNat m.start
    else
      "bytes in position " ++ Decimal.ofNat m.start ++ "-" ++ Decimal.ofNat (m.start + m.size - 1)
  let reason : Text := match m.reason with
    | .notALead => "invalid start byte"
    | .notAContinuation => "invalid continuation byte"
    | .endOfData => "unexpected end of data"
  "'utf-8' codec can't decode " ++ place ++ ": " ++ reason

end Command

structure Session where
  preferences : Preferences
  program : Program
  run : Run
  log : Array Char
  deriving Repr, DecidableEq

namespace Session

def next (s : Session) : Session :=
  let remarked :=
    if s.preferences.verbose then
      Command.debugLines s.preferences (s.run.machine.remarks s.program)
    else []
  { s with run := s.run.next s.program, log := s.log ++ remarked }

def advance : Nat → Session → Session
  | 0, s => s
  | n + 1, s => if s.run.stop.isSome then s else advance n s.next

def result? (s : Session) : Option Result :=
  s.run.stop.map fun why =>
    let last := match why with
      | .fault f => logLine .error ("Execution halted on runtime error: " ++ f.message)
      | .interrupted => logLine .info "Execution halted by the user"
      | _ => []
    ⟨.stopped why, s.run.written.toList, s.log.toList ++ last⟩

end Session

/-- A command after everything that comes before the first instruction. -/
inductive Command
  | ended (result : Result)
  | running (session : Session)
  deriving Repr, DecidableEq

namespace Command

def ofSource (p : Preferences) (path source : Text) (input : Stream) (log : Text) : Command :=
  let log := log ++ debugLines p (Assembly.remarks source)
  match Assembly.ofSource source with
  | .error why => .ended ⟨.refused why, [], log⟩
  | .ok assembly =>
    let log := log ++ shown p (assembly.syntaxReports source path) ++
      shown p (assembly.labelReports source path)
    if !assembly.labelErrors.isEmpty then
      .ended ⟨.labelErrors, [],
        log ++ logLine .info "Program not started because of label errors"⟩
    else
      match assembly.program with
      | none =>
        .ended ⟨.noLines, [],
          log ++ logLine .info "Program not started because no syntax tree was produced"⟩
      | some program =>
        .running ⟨p, program, { machine := { input := { stream := input } } }, log.toArray⟩

def ofFile (p : Preferences) (path : Text) (bytes : List UInt8) (input : Stream) : Command :=
  let log := debugLines p ["Running " ++ path]
  match Utf8.decode bytes with
  | .ok t => ofSource p path (Newline.normalize t) input log
  | .error (bad, _) =>
    .ended ⟨.unreadable, [],
      log ++ logLine .error ("failed to read input file " ++ path ++ ": " ++ complaint bad)⟩

def start (arguments : List Text) (look : Text → Entry) (input : Stream) : Command :=
  match Arguments.ofList arguments with
  | .error e => .ended (usage e)
  | .ok a =>
    if a.help then .ended ⟨.help, help, []⟩
    else
      match chooseFile look a.others with
      | .error result => .ended result
      | .ok (path, bytes) => ofFile a.preferences path bytes input

def advance (n : Nat) : Command → Command
  | ended result => ended result
  | running session => running (session.advance n)

def hasEnded : Command → Bool
  | ended _ => true
  | running session => session.run.stop.isSome

def result? : Command → Option Result
  | ended result => some result
  | running session => session.result?

end Command

end TapeMachine
