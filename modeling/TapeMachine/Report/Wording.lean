import TapeMachine.Labels
import TapeMachine.Text.Ansi
import TapeMachine.Text.Escape

namespace TapeMachine

namespace Wording

def tokenNames : List (Text × Text) :=
  [(['\n'], "newline"), ([' '], "space"), ([','], "comma"), (['.'], "dot"),
    (['\''], "single quote"), (['"'], "double quote"), ([Char.ofNat 0x60], "backtick")]

def token (t : Text) : Text :=
  (tokenNames.lookup t).getD ("'" ++ t.flatMap Escape.ascii ++ "'")

def alternatives (names : List Text) : Text :=
  match names.mergeSort Text.notAfter with
  | [] => "something else"
  | [a] => a
  | [a, b] => a ++ " or " ++ b
  | sorted => Text.joinWith ", " sorted.dropLast ++ ", or " ++ sorted.getLast?.getD []

end Wording

def SyntaxError.message (e : SyntaxError) (styled : Bool) : Text :=
  match e.reason with
  | some reason => reason
  | none =>
    let context := match e.context with
      | some context => " while parsing " ++ context
      | none => []
    let found := match e.found with
      | some t => if styled then Ansi.colored .red (Wording.token t) else Wording.token t
      | none => "end of input"
    "Expected " ++ Wording.alternatives e.expected ++ context ++ ", found " ++ found

def LabelMistake.message : LabelMistake → Text
  | .unknown reference => "unknown label `" ++ reference.text ++ "`"
  | .redefined name _ _ => "multiple definitions of label `" ++ name ++ "`"

end TapeMachine
