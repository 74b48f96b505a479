import TapeMachine.Text.Basic

namespace TapeMachine

inductive Level | debug | info | error
  deriving Repr, DecidableEq

def Level.name : Level → Text
  | .debug => "DEBUG"
  | .info => "INFO"
  | .error => "ERROR"

def logLine (level : Level) (message : Text) : Text := level.name ++ ":root:" ++ message ++ "\n"

end TapeMachine
