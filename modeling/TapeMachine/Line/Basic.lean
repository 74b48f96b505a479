import TapeMachine.Instr

namespace TapeMachine

inductive Line
  | instr (i : Instr)
  | label (definition : Token)
  | malformed
  deriving Repr, DecidableEq

def Line.instr? : Line → Option Instr
  | .instr i => some i
  | _ => none

/-- What was expected where, what stood there instead (nothing at the end of the source), and
what was being read. A given reason takes the place of the expectations. -/
structure SyntaxError where
  span : Span
  expected : List Text
  found : Option Text
  context : Option Text := none
  unclosed : Option Span := none
  reason : Option Text := none
  deriving Repr, DecidableEq

inductive Refusal
  | oversized (digits : Nat)
  | nothingNoted
  deriving Repr, DecidableEq

def maxDigits : Nat := 4300

inductive Verdict
  | accepted (line : Line)
  | rejected (error : SyntaxError)
  | refused (why : Refusal)
  deriving Repr, DecidableEq

end TapeMachine
