import TapeMachine.Text.Basic

namespace TapeMachine.Newline

def normalize : Text → Text
  | '\r' :: '\n' :: rest => '\n' :: normalize rest
  | '\r' :: rest => '\n' :: normalize rest
  | c :: rest => c :: normalize rest
  | [] => []

/-- What stands up to the last line end that no later character can change. A carriage
return at the very end is not yet one, for a newline may follow it. -/
def settled (t : Text) : Text :=
  match t.reverse with
  | '\r' :: rest => rest.reverse
  | _ => t

end TapeMachine.Newline
