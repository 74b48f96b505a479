import TapeMachine.Source.Span
import TapeMachine.Text.CharClass

namespace TapeMachine

structure Piece where
  text : Text
  offset : Nat
  terminated : Bool
  deriving Repr, DecidableEq

namespace Piece

def blank (p : Piece) : Bool := p.text.all CharClass.space

def stop (p : Piece) : Nat := p.offset + p.text.length

/-- Lines put one after the other, the first at `offset`; a newline ends all but the last. -/
def ofLines (offset : Nat) : List Text → List Piece
  | [] => []
  | [line] => [⟨line, offset, false⟩]
  | line :: more => ⟨line, offset, true⟩ :: ofLines (offset + line.length + 1) more

def ofSource (source : Text) : List Piece := ofLines 0 (Text.lines source)

end Piece

end TapeMachine
