import TapeMachine.Source.Position
import TapeMachine.Source.Span
import TapeMachine.Text.Ansi
import TapeMachine.Text.Decimal

namespace TapeMachine

structure Annotation where
  span : Span
  note : Text
  color : Ansi.Color
  deriving Repr, DecidableEq

structure Report where
  code : Nat
  message : Text
  anchor : Nat
  annotations : List Annotation
  deriving Repr, DecidableEq

inductive Row
  | header (code : Nat) (message : Text)
  | place (path : Text) (position : Position)
  | space
  | quoted (number : Nat) (line : Text)
  | marked (indent width : Nat) (note : Text) (color : Ansi.Color)
  deriving Repr, DecidableEq

def Row.render (gutter : Nat) : Row → Text
  | .header code message =>
    Ansi.boldColored .red ("error[E" ++ Decimal.padded 3 code ++ "]") ++ ": " ++ message
  | .place path position =>
    List.replicate gutter ' ' ++ "--> " ++ path ++ ":" ++ Decimal.ofNat position.line ++ ":" ++
      Decimal.ofNat position.column
  | .space => List.replicate gutter ' ' ++ " |"
  | .quoted number line => Text.alignRight gutter (Decimal.ofNat number) ++ " | " ++ line
  | .marked indent width note color =>
    List.replicate gutter ' ' ++ " | " ++
      Ansi.colored color (List.replicate indent ' ' ++ List.replicate width '^' ++ " " ++ note)

namespace Annotation

def position (source : Text) (a : Annotation) : Position := .ofOffset source a.span.start

/-- At least one caret, also under an empty span. -/
def row (source : Text) (a : Annotation) : Row :=
  .marked ((a.position source).column - 1) (max (a.span.stop - a.span.start) 1) a.note a.color

end Annotation

namespace Report

def lineNumbers (source : Text) (r : Report) : List Nat :=
  ((r.annotations.map fun a => (a.position source).line).mergeSort).eraseDups

def lineRows (source : Text) (r : Report) (number : Nat) : List Row :=
  .quoted number (source.quotedLine number) ::
    (r.annotations.filter fun a => (a.position source).line = number).map (·.row source)

def rows (source path : Text) (r : Report) : List Row :=
  [.header r.code r.message, .place path (.ofOffset source r.anchor), .space] ++
    (r.lineNumbers source).flatMap (r.lineRows source)

def gutter? (source : Text) (r : Report) : Option Nat :=
  (r.lineNumbers source).getLast?.map fun number => (Decimal.ofNat number).length

def render? (source path : Text) (r : Report) : Option Text :=
  (r.gutter? source).map fun gutter =>
    Text.joinWith "\n" ((r.rows source path).map (Row.render gutter)) ++ "\n"

end Report

end TapeMachine
