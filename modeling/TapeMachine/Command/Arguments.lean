import TapeMachine.Text.Escape
import TapeMachine.Text.Similarity

namespace TapeMachine

/-- What may be asked for. Colour is left to the terminal until it is asked for or forbidden. -/
structure Preferences where
  verbose : Bool := false
  color : Option Bool := none
  deriving Repr, DecidableEq

def Preferences.update (p : Preferences) (verbose color : Option Bool) : Preferences :=
  ⟨verbose.getD p.verbose, color.or p.color⟩

inductive UsageError
  | noSuchOption (name : Text) (alike : List Text)
  | unwantedValue (name : Text)
  | missingPath
  | noSuchFile (path : Text)
  | directory (path : Text)
  | extra (arguments : List Text)
  deriving Repr, DecidableEq

namespace UsageError

def question (alike : List Text) : Text :=
  match (Text.sortedSet alike).map Escape.quoted with
  | [] => []
  | [name] => " Did you mean " ++ name ++ "?"
  | names => " (Did you mean one of: " ++ Text.joinWith ", " names ++ "?)"

def message : UsageError → Text
  | noSuchOption name alike => "No such option " ++ Escape.quoted name ++ "." ++ question alike
  | unwantedValue name => "Option " ++ Escape.quoted name ++ " does not take a value."
  | missingPath => "Missing argument 'PATH'."
  | noSuchFile path =>
    "Invalid value for 'PATH': File " ++ Escape.quoted path ++ " does not exist."
  | directory path => "Invalid value for 'PATH': File " ++ Escape.quoted path ++ " is a directory."
  | extra arguments =>
    (if arguments.length = 1 then "Got unexpected extra argument ("
      else "Got unexpected extra arguments (" : Text) ++ Text.joinWith " " arguments ++ ")"

def withSynopsis : UsageError → Bool
  | unwantedValue _ => false
  | _ => true

end UsageError

inductive Flag
  | verbose
  | color (wanted : Bool)
  | help
  deriving Repr, DecidableEq

namespace Flag

def longNames : List (Text × Flag) :=
  [("--verbose", verbose), ("--color", color true), ("--no-color", color false), ("--help", help)]

def ofLetter? (c : Char) : Option Flag := if c = 'v' then some verbose else none

end Flag

structure Arguments where
  preferences : Preferences := {}
  help : Bool := false
  others : List Text := []
  deriving Repr, DecidableEq

namespace Arguments

def withFlag (a : Arguments) : Flag → Arguments
  | .verbose => { a with preferences := a.preferences.update (some true) none }
  | .color wanted => { a with preferences := a.preferences.update none (some wanted) }
  | .help => { a with help := true }

def withLetters (a : Arguments) : Text → Except UsageError Arguments
  | [] => .ok a
  | c :: rest =>
    match Flag.ofLetter? c with
    | some flag => (a.withFlag flag).withLetters rest
    | none => .error (.noSuchOption ['-', c] [])

def withOption (a : Arguments) (argument : Text) : Except UsageError Arguments :=
  let name := argument.takeWhile (· != '=')
  match Flag.longNames.lookup name with
  | some flag => if '=' ∈ argument then .error (.unwantedValue name) else .ok (a.withFlag flag)
  | none =>
    match argument with
    | '-' :: '-' :: _ =>
      .error (.noSuchOption name (Similarity.closest name (Flag.longNames.map Prod.fst)))
    | _ => a.withLetters (argument.drop 1)

def withAll (a : Arguments) : List Text → Except UsageError Arguments
  | [] => .ok a
  | ['-', '-'] :: rest => .ok { a with others := a.others ++ rest }
  | argument :: rest =>
    match argument with
    | '-' :: _ :: _ =>
      match a.withOption argument with
      | .ok a => a.withAll rest
      | .error e => .error e
    | _ => { a with others := a.others ++ [argument] }.withAll rest

def ofList (arguments : List Text) : Except UsageError Arguments := withAll {} arguments

end Arguments

end TapeMachine
