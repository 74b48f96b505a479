import TapeMachine.Command.Session

namespace TapeMachine.Main

def look (path : Text) : IO Entry := do
  try
    let bytes ← IO.FS.readBinFile (String.ofList path)
    return .file bytes.toList
  catch
    | .inappropriateType .. => return .folder
    | _ => return .absent

def moreInput (s : Stream) : IO Stream := do
  try
    let line ← (← IO.getStdin).getLine
    return s.feed (Newline.normalize line.toList)
  catch _ => return .broken

def print (output : IO.FS.Stream) (t : Text) : IO Unit := do
  output.putStr (String.ofList t)
  output.flush

def printed (s : Session) : IO Session := do
  print (← IO.getStdout) s.run.written.toList
  print (← IO.getStderr) s.log.toList
  return { s with run := { s.run with written := #[] }, log := #[] }

def withLine (s : Session) : IO Session := do
  let machine := s.run.machine
  let stream ← moreInput machine.input.stream
  return { s with run := { s.run with
    machine := { machine with input := { machine.input with stream := stream } } } }

def needsLine (s : Session) : Bool := s.run.machine.needsLine s.program

def toLine : Nat → Session → Session
  | 0, s => s
  | n + 1, s => if s.run.stop.isSome || needsLine s then s else toLine n s.next

partial def finish (s : Session) : IO UInt32 := do
  let s ← printed (toLine 4096 s)
  match s.result? with
  | some result =>
    print (← IO.getStderr) result.errors
    return result.ending.exitCode.toUInt32
  | none => if needsLine s then finish (← withLine s).next else finish s

end TapeMachine.Main

open TapeMachine in
def main (arguments : List String) : IO UInt32 := do
  let arguments := arguments.map String.toList
  let entry ← match Arguments.ofList arguments with
    | .ok { others := path :: _, .. } => Main.look path
    | _ => pure .absent
  match Command.start arguments (fun _ => entry) (.text []) with
  | .ended result =>
    Main.print (← IO.getStdout) result.output
    Main.print (← IO.getStderr) result.errors
    return result.ending.exitCode.toUInt32
  | .running session => Main.finish session
