import TapeMachine.Line.Verdict

/-! A source read line by line. Blank lines are passed over and a malformed line leaves a mark
in its place, so that what one line is read as never depends on another. Text after the last
newline is no line: it makes the whole source unreadable unless it is blank. -/
namespace TapeMachine

structure Listing where
  lines : Option (List Line)
  errors : List SyntaxError
  deriving Repr, DecidableEq

namespace Listing

def empty : Listing := ⟨some [], []⟩

def unfinished (stop : Nat) : Listing :=
  ⟨none, [{ span := ⟨stop, stop⟩, expected := ["trailing newline"], found := none }]⟩

def withLine (line : Line) (rest : Listing) : Listing :=
  ⟨rest.lines.map (line :: ·), rest.errors⟩

def withError (error : SyntaxError) (rest : Listing) : Listing :=
  ⟨rest.lines.map (.malformed :: ·), error :: rest.errors⟩

def ofPieces : List Piece → Except Refusal Listing
  | [] => .ok empty
  | p :: ps =>
    if p.blank then ofPieces ps
    else if p.terminated then
      match p.verdict with
      | .accepted line => (ofPieces ps).map (withLine line)
      | .rejected error => (ofPieces ps).map (withError error)
      | .refused why => .error why
    else .ok (unfinished p.stop)

def ofSource (source : Text) : Except Refusal Listing := ofPieces (Piece.ofSource source)

def remark? (p : Piece) : Option Text :=
  if p.terminated then
    match p.verdict with
    | .accepted (.instr i) => some ("Parsed " ++ i.render ++ " @ " ++ Decimal.ofNat p.offset)
    | .accepted _ | .refused _ => none
    | .rejected error =>
      some ("Recovering from a parse error @ " ++ Decimal.ofNat error.span.start)
  else some ("Missing newline after the last line @ " ++ Decimal.ofNat p.stop)

def refused (p : Piece) : Bool := p.terminated && p.verdict matches .refused _

def remarks (source : Text) : List Text :=
  (((Piece.ofSource source).filter (!·.blank)).takeWhile (!refused ·)).filterMap remark?

end Listing

end TapeMachine
