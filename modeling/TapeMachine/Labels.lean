import TapeMachine.Line.Basic

/-! Labels. A label stands for the number of instructions in front of its definition. Of
several definitions of a name the first counts and the others are errors, and so is a jump to
a name without one. -/
namespace TapeMachine

/-- Names and the indices they stand for, each name once, in the order of definition. -/
abbrev SymbolTable := List (Text × Int)

structure Unbound where
  name : Text
  deriving Repr, DecidableEq

inductive LabelMistake
  | unknown (reference : Token)
  | redefined (name : Text) (first second : Span)
  deriving Repr, DecidableEq

namespace SymbolTable

def find (table : SymbolTable) (name : Text) : Except Unbound Int :=
  match table.lookup name with
  | some index => .ok index
  | none => .error ⟨name⟩

def insert (table : SymbolTable) (name : Text) (index : Int) : SymbolTable :=
  if (table.lookup name).isSome then
    table.map fun entry => if entry.1 = name then (name, index) else entry
  else table ++ [(name, index)]

def ofPairs (pairs : List (Text × Int)) : SymbolTable :=
  pairs.foldl (fun table entry => table.insert entry.1 entry.2) []

end SymbolTable

namespace Labels

structure Definition where
  token : Token
  index : Nat
  deriving Repr, DecidableEq

def definitionsFrom (index : Nat) : List Line → List Definition
  | [] => []
  | .instr _ :: rest => definitionsFrom (index + 1) rest
  | .label token :: rest => ⟨token, index⟩ :: definitionsFrom index rest
  | .malformed :: rest => definitionsFrom index rest

def definitions (ls : List Line) : List Definition := definitionsFrom 0 ls

def firsts (ds : List Definition) : List Definition :=
  ds.eraseDupsBy fun a b => a.token.text == b.token.text

/-- An error for each definition of a name that has been `seen` or comes again. -/
def redefinitions (seen : List Token) : List Definition → List LabelMistake
  | [] => []
  | d :: rest =>
    match seen.find? (·.text == d.token.text) with
    | some first => .redefined d.token.text first.span d.token.span :: redefinitions seen rest
    | none => redefinitions (seen ++ [d.token]) rest

def table (ls : List Line) : SymbolTable :=
  (firsts (definitions ls)).map fun d => (d.token.text, (d.index : Int))

def instrs (ls : List Line) : List Instr := ls.filterMap Line.instr?

def unknowns (table : SymbolTable) (is : List Instr) : List Token :=
  (is.filterMap Instr.reference?).filter fun token => (table.lookup token.text).isNone

def errors (ls : List Line) : List LabelMistake :=
  redefinitions [] (definitions ls) ++ (unknowns (table ls) (instrs ls)).map .unknown

def remarks (ls : List Line) : List Text :=
  (table ls).map (fun entry => "Label " ++ entry.1 ++ " @ " ++ Decimal.ofInt entry.2) ++
    (unknowns (table ls) (instrs ls)).map fun token =>
      "Unknown label " ++ token.text ++ " @ " ++ Decimal.ofNat token.span.start

def summary (es : List LabelMistake) : Text := Decimal.ofNat es.length ++ " label error(s)"

end Labels

end TapeMachine
