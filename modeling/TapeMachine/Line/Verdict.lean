import TapeMachine.Line.Form
import TapeMachine.Source.Piece

/-! The verdict on a line. The first form that reads it, or that stops at its numeral, decides.
If every form fails, the ones that came furthest tell what was expected: the kinds of line if
nothing but blanks stands in front of that place, the elements that failed otherwise. -/
namespace TapeMachine

structure Mismatch where
  form : Form
  offset : Nat
  wanted : Element
  deriving Repr, DecidableEq

namespace Mismatch

def indent (t : Text) : Nat := (t.takeWhile CharClass.space).length

def furthest (ms : List Mismatch) : Nat := (ms.map offset).foldl max 0

def atFurthest (ms : List Mismatch) : List Mismatch := ms.filter (·.offset == furthest ms)

def expected (t : Text) (ms : List Mismatch) : List Text :=
  Text.sortedSet <|
    (atFurthest ms).map fun m => if furthest ms = indent t then m.form.kind else m.wanted.name

def context (t : Text) (ms : List Mismatch) : Option Text :=
  if furthest ms = indent t then none else (atFurthest ms).head?.map (·.form.context)

/-- The character at an offset; at the end of a line that is the newline after it. -/
def found (t : Text) (terminated : Bool) (i : Nat) : Option Text :=
  match t[i]? with
  | some c => some [c]
  | none => if terminated then some ['\n'] else none

def toError (ms : List Mismatch) (t : Text) (offset : Nat) (terminated : Bool) : SyntaxError :=
  let found := found t terminated (furthest ms)
  { span := .of (offset + furthest ms) (if found.isSome then 1 else 0)
    expected := expected t ms
    found := found
    context := context t ms }

end Mismatch

namespace Verdict

def overflowReason : Text := "failed to parse integer: number too large to fit in target type"

def ofForm? (t : Text) (offset : Nat) (f : Form) : Option Verdict :=
  match f.read t with
  | .ok notes =>
    match ((Draft.blank offset).notes notes).line with
    | .ok line => some (.accepted line)
    | .error why => some (.refused why)
  | .error (.overflow i literal) =>
    some <| .rejected
      { span := .of (offset + i) literal.length
        expected := []
        found := some literal
        reason := some overflowReason }
  | .error (.oversized digits) => some (.refused (.oversized digits))
  | .error (.mismatch _ _) => none

def mismatch? (t : Text) (f : Form) : Option Mismatch :=
  match f.read t with
  | .error (.mismatch i wanted) => some ⟨f, i, wanted⟩
  | _ => none

def byForms (forms : List Form) (t : Text) (offset : Nat) (terminated : Bool) : Verdict :=
  (forms.findSome? (ofForm? t offset)).getD <|
    .rejected (Mismatch.toError (forms.filterMap (mismatch? t)) t offset terminated)

def ofText (t : Text) (offset : Nat) (terminated : Bool) : Verdict :=
  byForms Form.all t offset terminated

end Verdict

def Piece.verdict (p : Piece) : Verdict := .ofText p.text p.offset p.terminated

end TapeMachine
