import TapeMachine.Labels

namespace TapeMachine

def Instr.withTarget (table : SymbolTable) (i : Instr) : Instr :=
  match i.reference? with
  | some token => { i with target := table.lookup token.text }
  | none => i

def Instr.withTarget? (table : SymbolTable) (i : Instr) : Except Unbound Instr :=
  match i.reference? with
  | some token => (table.find token.text).map fun index => { i with target := some index }
  | none => .ok i

structure Program where
  code : Array Instr
  labels : SymbolTable
  deriving Repr, DecidableEq

namespace Program

def ofLines (ls : List Line) : Except (List LabelMistake) Program :=
  if (Labels.errors ls).isEmpty then
    .ok ⟨((Labels.instrs ls).map (·.withTarget (Labels.table ls))).toArray, Labels.table ls⟩
  else .error (Labels.errors ls)

end Program

end TapeMachine
