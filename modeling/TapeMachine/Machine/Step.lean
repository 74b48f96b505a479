import TapeMachine.Machine.State
import TapeMachine.Program
import TapeMachine.Word

/-! One step of a machine: fetch, perform, go on. A step that stops tells why and leaves the
machine as it is; going on from there tries the same instruction again. -/
namespace TapeMachine

inductive Fault
  | divisionByZero (ip : Int)
  | badReturn (address : Int)
  | inputEnded
  | inputBroken
  deriving Repr, DecidableEq

def Fault.message : Fault → Text
  | .divisionByZero ip => "division by zero at instruction " ++ Decimal.ofInt ip
  | .badReturn address =>
    "`ret` instruction failed: " ++ Decimal.ofInt address ++ " is not an instruction index"
  | .inputEnded => "standard input is closed"
  | .inputBroken => "couldn't read line of stdin"

/-- Why a machine does not go on. The last five cannot happen to a program that was made from
a source. -/
inductive Stop
  | halted
  | fault (f : Fault)
  | interrupted
  | unbound (label : Unbound)
  | noLabel
  | noOperand
  | noInstruction
  | noByte
  deriving Repr, DecidableEq

def NoLine.stop : NoLine → Stop
  | .ended => .fault .inputEnded
  | .broken => .fault .inputBroken
  | .interrupted => .interrupted

def NoByte.stop : NoByte → Stop
  | .line why => why.stop
  | .outside => .noByte

structure Outcome where
  machine : Machine
  written : Text := []
  stop : Option Stop := none
  deriving Repr, DecidableEq

namespace Machine

def done (m : Machine) : Outcome := { machine := m }

def stopped (m : Machine) (why : Stop) : Outcome := { machine := m, stop := some why }

def goto (m : Machine) (index : Int) : Machine := { m with ip := index, jumped := true }

/-- A target decides; without one the label is looked up. -/
def jump (m : Machine) (labels : SymbolTable) (i : Instr) : Outcome :=
  match i.target, i.label with
  | some index, _ => (m.goto index).done
  | none, some token =>
    match labels.find token.text with
    | .ok index => (m.goto index).done
    | .error unbound => m.stopped (.unbound unbound)
  | none, none => m.stopped .noLabel

def withValue (m : Machine) (i : Instr) (f : Int → Outcome) : Outcome :=
  match i.value with
  | some v => f (m.valueOf v)
  | none => m.stopped .noOperand

def readByte (m : Machine) : Outcome :=
  match m.input.next with
  | .ok (byte, rest) => ({ m with input := rest }.setCell byte.toNat).done
  | .error why => m.stopped why.stop

def written (m : Machine) : Text :=
  match Word.scalar? m.cell with
  | some c => "(" ++ Decimal.ofInt m.cell ++ ": " ++ [c] ++ ")"
  | none => []

def divide (m : Machine) (divisor : Int) : Outcome :=
  match Word.quotient? m.cell divisor with
  | some q => (m.setCell (Word.wrap q)).done
  | none => m.stopped (.fault (.divisionByZero m.ip))

def perform (m : Machine) (labels : SymbolTable) (i : Instr) : Outcome :=
  match i.op with
  | .gol => { m with cursor := m.cursor - 1 }.done
  | .gor => { m with cursor := m.cursor + 1 }.done
  | .get => (m.setCell (m.register i.reg)).done
  | .put => (m.touch.setRegister i.reg m.cell).done
  | .jmp => m.jump labels i
  | .jnz => if m.register i.reg ≠ 0 then m.jump labels i else m.done
  | .jlz => if m.register i.reg < 0 then m.jump labels i else m.done
  | .sav => (m.setCell m.ip).done
  | .ret =>
    if m.cell < 0 then m.touch.stopped (.fault (.badReturn m.cell))
    else (m.touch.goto m.cell).done
  | .inp => m.readByte
  | .out => { machine := m.touch, written := m.written }
  | .set => m.withValue i fun v => (m.setCell v).done
  | .add => m.withValue i fun v => (m.setCell (Word.wrap (m.cell + v))).done
  | .mul => m.withValue i fun v => (m.setCell (Word.wrap (m.cell * v))).done
  | .div => m.withValue i m.divide
  | .dec => { m with acc := Word.wrap (m.acc - 1) }.done

def settle (m : Machine) : Machine :=
  if m.jumped then { m with jumped := false } else { m with ip := m.ip + 1 }

end Machine

/-- The instruction at an index; an index below zero counts from the end. -/
def Program.fetch (p : Program) (index : Int) : Option Instr :=
  if 0 ≤ index then p.code[index.toNat]?
  else if 0 ≤ index + p.code.size then p.code[(index + p.code.size).toNat]?
  else none

namespace Machine

def step (p : Program) (m : Machine) : Outcome :=
  if p.code.size ≤ m.ip then m.stopped .halted
  else
    match p.fetch m.ip with
    | none => m.stopped .noInstruction
    | some i =>
      let outcome := m.perform p.labels i
      match outcome.stop with
      | none => { outcome with machine := outcome.machine.settle }
      | some _ => outcome

def remarks (p : Program) (m : Machine) : List Text :=
  if p.code.size ≤ m.ip then ["Halted @ " ++ Decimal.ofInt m.ip]
  else
    match p.fetch m.ip with
    | none => []
    | some i =>
      let skipped := i.op = .out && (Word.scalar? m.cell).isNone
      [m.summary, "  " ++ i.render] ++
        if skipped then ["Skipping output of " ++ Decimal.ofInt m.cell] else []

def needsLine (p : Program) (m : Machine) : Bool :=
  m.ip < p.code.size && (p.fetch m.ip).any (·.op = .inp) && m.input.exhausted

end Machine

end TapeMachine
