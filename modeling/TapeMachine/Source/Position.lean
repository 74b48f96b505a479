import TapeMachine.Text.Basic

/-! Lines and columns, both counted from one. An offset past the end of a source lies on its
last line. -/
namespace TapeMachine

structure Position where
  line : Nat
  column : Nat
  deriving Repr, DecidableEq

namespace Position

def lineStart (before : Text) : Nat :=
  before.length - (before.reverse.takeWhile (· != '\n')).length

def ofOffset (source : Text) (offset : Nat) : Position :=
  let before := source.take offset
  ⟨before.count '\n' + 1, offset - lineStart before + 1⟩

end Position

/-- The line of a source with the given number, without the carriage returns at its end; an
empty one where the source has no such line. -/
def Text.quotedLine (source : Text) (number : Nat) : Text :=
  trimEnd (· == '\r') ((lines source)[number - 1]?.getD [])

end TapeMachine
