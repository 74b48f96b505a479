import TapeMachine.Line.Basic

namespace TapeMachine

inductive Note
  | opcode (op : Opcode)
  | register (r : Register)
  | value (v : Value)
  | reference (name : Text) (offset : Nat)
  | definition (name : Text) (offset : Nat)
  deriving Repr, DecidableEq

structure Draft where
  offset : Nat
  op : Option Opcode
  reg : Option Register
  value : Option Value
  label : Option Token
  definition : Option Token
  deriving Repr, DecidableEq

namespace Draft

def blank (offset : Nat) : Draft := ⟨offset, none, none, none, none, none⟩

/-- The span of a definition covers the colon after the name. -/
def note (d : Draft) : Note → Draft
  | .opcode op => { d with op := some op }
  | .register r => { d with reg := some r }
  | .value v => { d with value := some v }
  | .reference name i => { d with label := some ⟨name, .of (d.offset + i) name.length⟩ }
  | .definition name i =>
    { d with definition := some ⟨name, .of (d.offset + i) (name.length + 1)⟩ }

def notes (d : Draft) (ns : List Note) : Draft := ns.foldl note d

/-- A definition outweighs everything else that was noted. -/
def line (d : Draft) : Except Refusal Line :=
  match d.definition, d.op with
  | some definition, _ => .ok (.label definition)
  | none, some op => .ok (.instr ⟨op, d.reg, d.value, d.label, none⟩)
  | none, none => .error .nothingNoted

end Draft

end TapeMachine
