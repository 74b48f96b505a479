import TapeMachine.Listing
import TapeMachine.Program

namespace TapeMachine

/-- There is no program if the source has no lines or its labels are not in order. -/
structure Assembly where
  syntaxErrors : List SyntaxError
  labelErrors : List LabelMistake
  program : Option Program
  deriving Repr, DecidableEq

namespace Assembly

def ofListing (listing : Listing) : Assembly :=
  match listing.lines with
  | none => ⟨listing.errors, [], none⟩
  | some ls =>
    match Program.ofLines ls with
    | .ok program => ⟨listing.errors, [], some program⟩
    | .error es => ⟨listing.errors, es, none⟩

def ofSource (source : Text) : Except Refusal Assembly :=
  (Listing.ofSource source).map ofListing

def remarks (source : Text) : List Text :=
  Listing.remarks source ++
    match Listing.ofSource source with
    | .ok listing => (listing.lines.map Labels.remarks).getD []
    | .error _ => []

end Assembly

end TapeMachine
