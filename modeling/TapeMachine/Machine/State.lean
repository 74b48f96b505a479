import TapeMachine.Instr
import TapeMachine.Machine.Input
import TapeMachine.Machine.Tape

namespace TapeMachine

/-- `jumped` holds while the instruction pointer has been set by the current instruction. -/
structure Machine where
  x : Int := 0
  acc : Int := 0
  tape : Tape := {}
  cursor : Nat := 0
  ip : Int := 0
  jumped : Bool := false
  input : Input := {}
  deriving Repr, DecidableEq

namespace Machine

def start (input : Text) : Machine := { input := { stream := .text input } }

def cell (m : Machine) : Int := m.tape.get m.cursor

def touch (m : Machine) : Machine := { m with tape := m.tape.extend m.cursor }

def setCell (m : Machine) (v : Int) : Machine := { m with tape := m.tape.put m.cursor v }

def register (m : Machine) (r : Option Register) : Int :=
  if r = some .x then m.x else m.acc

def setRegister (m : Machine) (r : Option Register) (v : Int) : Machine :=
  if r = some .x then { m with x := v } else { m with acc := v }

/-- A register as an operand is always the first one. -/
def valueOf (m : Machine) : Value → Int
  | .number n => n
  | .register _ => m.x

@[simp] theorem cell_setCell (m : Machine) (v : Int) : (m.setCell v).cell = v := by
  simp [setCell, cell, Tape.get_put]

theorem touch_of_lt {m : Machine} (h : m.cursor < m.tape.length) : m.touch = m := by
  rw [touch, Tape.extend_of_lt h]

def summary (m : Machine) : Text :=
  "IP:" ++ Decimal.ofInt m.ip ++ " X:" ++ Decimal.ofInt m.x ++ " ACC:" ++ Decimal.ofInt m.acc ++
    " CUR:" ++ Decimal.ofNat m.cursor ++ " TAPE:[" ++
    Text.joinWith ", " (m.tape.cells.toList.map Decimal.ofInt) ++ "]"

end Machine

end TapeMachine
