import TapeMachine.Line.Element

namespace TapeMachine

inductive Form
  | instr (op : Opcode)
  | label
  deriving Repr, DecidableEq

namespace Form

def all : List Form := Opcode.all.map instr ++ [label]

def operands : Opcode → List Element
  | .gol | .gor | .sav | .ret | .inp | .out | .dec => []
  | .get | .put => [.separator, .register]
  | .jmp => [.separator, .reference]
  | .jnz | .jlz => [.separator, .register, .separator, .reference]
  | .set | .add | .mul | .div => [.separator, .value]

def elements : Form → List Element
  | instr op => .keyword op :: operands op ++ [.lineEnd]
  | label => [.definition, .colon, .lineEnd]

def kind : Form → Text
  | instr _ => "instruction"
  | label => "label"

def context : Form → Text
  | instr op => op.keyword ++ " instruction"
  | label => "label"

def read (f : Form) (t : Text) : Except Failure (List Note) := Element.readAll f.elements 0 t

end Form

end TapeMachine
