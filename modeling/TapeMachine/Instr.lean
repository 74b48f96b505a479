import TapeMachine.Source.Span
import TapeMachine.Text.Decimal

/-! Instructions and their written form. Which operands an instruction has follows from its
opcode when a line is read; the type leaves every operand open, so that a machine may be
given instructions that no line produces. -/
namespace TapeMachine

inductive Opcode
  | gol | gor | get | put | jmp | jnz | jlz | sav | ret | inp | out | set | add | mul | div | dec
  deriving Repr, DecidableEq

namespace Opcode

def all : List Opcode :=
  [gol, gor, get, put, jmp, jnz, jlz, sav, ret, inp, out, set, add, mul, div, dec]

theorem mem_all (op : Opcode) : op ∈ all := by cases op <;> decide

def keyword : Opcode → Text
  | gol => ['g', 'o', 'l']
  | gor => ['g', 'o', 'r']
  | get => ['g', 'e', 't']
  | put => ['p', 'u', 't']
  | jmp => ['j', 'm', 'p']
  | jnz => ['j', 'n', 'z']
  | jlz => ['j', 'l', 'z']
  | sav => ['s', 'a', 'v']
  | ret => ['r', 'e', 't']
  | inp => ['i', 'n', 'p']
  | out => ['o', 'u', 't']
  | set => ['s', 'e', 't']
  | add => ['a', 'd', 'd']
  | mul => ['m', 'u', 'l']
  | div => ['d', 'i', 'v']
  | dec => ['d', 'e', 'c']

theorem keyword_injective {a b : Opcode} (h : a.keyword = b.keyword) : a = b := by
  revert h
  cases a <;> cases b <;> decide

def ofKeyword? (t : Text) : Option Opcode := all.find? (·.keyword == t)

def takesLabel : Opcode → Bool
  | jmp | jnz | jlz => true
  | _ => false

end Opcode

inductive Register
  | x
  | acc
  deriving Repr, DecidableEq

def Register.keyword : Register → Text
  | .x => ['x']
  | .acc => ['a', 'c', 'c']

inductive Value
  | number (n : Int)
  | register (r : Register)
  deriving Repr, DecidableEq

def Value.render : Value → Text
  | .number n => Decimal.ofInt n
  | .register r => r.keyword

/-- `target` is the index that a jump leads to, once its label has been looked up. -/
structure Instr where
  op : Opcode
  reg : Option Register := none
  value : Option Value := none
  label : Option Token := none
  target : Option Int := none
  deriving Repr, DecidableEq

namespace Instr

def operands (i : Instr) : List Text :=
  (i.reg.map Register.keyword).toList ++ (i.value.map Value.render).toList ++
    (i.label.map Token.text).toList

def render (i : Instr) : Text := Text.joinWith [' '] (i.op.keyword :: i.operands)

def reference? (i : Instr) : Option Token := if i.op.takesLabel then i.label else none

end Instr

end TapeMachine
