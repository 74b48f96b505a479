import TapeMachine.Text.Basic

namespace TapeMachine

/-- Offsets from `start` up to, not including, `stop`. -/
structure Span where
  start : Nat
  stop : Nat
  deriving Repr, DecidableEq

def Span.of (start width : Nat) : Span := ⟨start, start + width⟩

/-- A name as it stands in a source. The span may cover more than the name. -/
structure Token where
  text : Text
  span : Span
  deriving Repr, DecidableEq

def Text.at (source : Text) (s : Span) : Text := Text.slice source s.start s.stop

end TapeMachine
