import TapeMachine.Assembly
import TapeMachine.Report.Layout
import TapeMachine.Report.Wording

namespace TapeMachine

namespace Report

def ofSyntaxError (e : SyntaxError) : Report :=
  { code := 0
    message := e.message true
    anchor := e.span.start
    annotations :=
      ⟨e.span, e.reason.getD "unexpected token", .red⟩ ::
        (e.unclosed.map fun s => ⟨s, "Unclosed delimiter", .yellow⟩).toList }

def ofLabelError (e : LabelMistake) : Report :=
  match e with
  | .unknown reference =>
    { code := 1
      message := e.message
      anchor := reference.span.start
      annotations := [⟨reference.span, "this label is not defined", .red⟩] }
  | .redefined _ first second =>
    { code := 2
      message := e.message
      anchor := second.start
      annotations :=
        [⟨first, "first defined here", .blue⟩, ⟨second, "later defined here", .red⟩] }

def render (source path : Text) (r : Report) : Text := (r.render? source path).getD []

end Report

namespace Assembly

def syntaxReports (c : Assembly) (source path : Text) : List Text :=
  c.syntaxErrors.map fun e => (Report.ofSyntaxError e).render source path

def labelReports (c : Assembly) (source path : Text) : List Text :=
  c.labelErrors.map fun e => (Report.ofLabelError e).render source path

end Assembly

end TapeMachine
