import Mathlib.Logic.Function.Iterate
import TapeMachine.Machine.Run

/-! Execution with the tape and the order of the instructions left open. An instruction acts on
a store and tells which way to go on; a layout tells what stands at a place and where the ways
lead. The machine is the execution with a stored tape and instructions that are numbered. -/
namespace TapeMachine

structure Access (T : Type) where
  get : T → Nat → Int
  put : T → Nat → Int → T
  touch : T → Nat → T

def Access.stored : Access Tape := ⟨Tape.get, Tape.put, Tape.extend⟩

structure Store (T : Type) where
  x : Int
  acc : Int
  tape : T
  cursor : Nat
  input : Input

inductive Way
  | next
  | label
  | number (k : Nat)
  deriving Repr, DecidableEq

structure Effect (T : Type) where
  store : Store T
  written : Text := []
  way : Way := .next

namespace Store
variable {T : Type}

def start (tape : T) (input : Text) : Store T := ⟨0, 0, tape, 0, { stream := .text input }⟩

def cell (a : Access T) (s : Store T) : Int := a.get s.tape s.cursor

def put (a : Access T) (s : Store T) (v : Int) : Store T :=
  { s with tape := a.put s.tape s.cursor v }

def touch (a : Access T) (s : Store T) : Store T := { s with tape := a.touch s.tape s.cursor }

def register (s : Store T) (r : Option Register) : Int := if r = some .x then s.x else s.acc

def setRegister (s : Store T) (r : Option Register) (v : Int) : Store T :=
  if r = some .x then { s with x := v } else { s with acc := v }

def valueOf (s : Store T) : Value → Int
  | .number n => n
  | .register _ => s.x

def operate (a : Access T) (s : Store T) (operand : Option Value)
    (f : Int → Int → Except Stop Int) : Except Stop (Effect T) :=
  match operand with
  | none => .error .noOperand
  | some v =>
    match f (s.cell a) (s.valueOf v) with
    | .ok result => .ok { store := s.put a result }
    | .error why => .error why

def entry (v : Int) : Text :=
  match Word.scalar? v with
  | some c => "(" ++ Decimal.ofInt v ++ ": " ++ [c] ++ ")"
  | none => []

def divide (here a b : Int) : Except Stop Int :=
  if b = 0 then .error (.fault (.divisionByZero here)) else .ok (Word.wrap (a.tdiv b))

def act (a : Access T) (here : Int) (i : Instr) (s : Store T) : Except Stop (Effect T) :=
  match i.op with
  | .gol => .ok { store := { s with cursor := s.cursor - 1 } }
  | .gor => .ok { store := { s with cursor := s.cursor + 1 } }
  | .get => .ok { store := s.put a (s.register i.reg) }
  | .put => .ok { store := (s.touch a).setRegister i.reg (s.cell a) }
  | .jmp => .ok { store := s, way := .label }
  | .jnz => .ok { store := s, way := if s.register i.reg ≠ 0 then .label else .next }
  | .jlz => .ok { store := s, way := if s.register i.reg < 0 then .label else .next }
  | .sav => .ok { store := s.put a here }
  | .ret =>
    if s.cell a < 0 then .error (.fault (.badReturn (s.cell a)))
    else .ok { store := s.touch a, way := .number (s.cell a).toNat }
  | .inp =>
    match s.input.next with
    | .ok (byte, rest) => .ok { store := { s with input := rest }.put a byte.toNat }
    | .error why => .error why.stop
  | .out => .ok { store := s.touch a, written := entry (s.cell a) }
  | .set => s.operate a i.value fun _ v => .ok v
  | .add => s.operate a i.value fun c v => .ok (Word.wrap (c + v))
  | .mul => s.operate a i.value fun c v => .ok (Word.wrap (c * v))
  | .div => s.operate a i.value (divide here)
  | .dec => .ok { store := { s with acc := Word.wrap (s.acc - 1) } }

/-- Only `ret` goes on by number, and it stores the cell that it has read the number from. -/
theorem act_number {a : Access T} {here : Int} {i : Instr} {s : Store T} {e : Effect T} {k : Nat}
    (acts : s.act a here i = .ok e) (way : e.way = .number k) :
    i.op = .ret ∧ s.cell a = k ∧ e = { store := s.touch a, way := .number k } := by
  cases op : i.op with
  | ret =>
    simp only [act, op] at acts
    split at acts
    · cases acts
    · cases acts
      cases way
      exact ⟨rfl, by omega, rfl⟩
  | jnz | jlz =>
    simp only [act, op] at acts
    cases acts
    dsimp only at way
    split at way <;> cases way
  | gol | gor | get | put | jmp | sav | out | dec =>
    simp only [act, op] at acts
    cases acts
    cases way
  | inp | set | add | mul | div =>
    simp only [act, operate, op] at acts
    repeat' split at acts
    all_goals cases acts
    all_goals cases way

/-- Only jumps go to a label, and a jump changes nothing in the store. -/
theorem act_label {a : Access T} {here : Int} {i : Instr} {s : Store T} {e : Effect T}
    (acts : s.act a here i = .ok e) (way : e.way = .label) :
    i.op.takesLabel ∧ e = { store := s, way := .label } := by
  cases op : i.op with
  | jmp =>
    simp only [act, op] at acts
    cases acts
    exact ⟨rfl, rfl⟩
  | jnz | jlz =>
    simp only [act, op] at acts
    cases acts
    dsimp only at way
    exact ⟨rfl, by rw [way]⟩
  | gol | gor | get | put | sav | out | dec =>
    simp only [act, op] at acts
    cases acts
    cases way
  | ret | inp | set | add | mul | div =>
    simp only [act, operate, op] at acts
    repeat' split at acts
    all_goals cases acts
    all_goals cases way

end Store

/-- How instructions are laid out. `fetch` finds the one to come, together with the place where
it stands, and `follow` goes a way from there. -/
structure Layout (P : Type) where
  fetch : P → Except Stop (P × Instr)
  number : P → Int
  follow : P → Instr → Way → Except Stop P

structure Execution (T P : Type) where
  store : Store T
  place : P
  written : Text := []
  stop : Option Stop := none

namespace Execution
variable {T P : Type}

def start (tape : T) (place : P) (input : Text) : Execution T P :=
  { store := .start tape input, place := place }

def advance (a : Access T) (l : Layout P) (s : Store T) (place : P) :
    Except Stop (Effect T × P) :=
  match l.fetch place with
  | .error why => .error why
  | .ok (here, i) =>
    match s.act a (l.number here) i with
    | .error why => .error why
    | .ok e =>
      match l.follow here i e.way with
      | .error why => .error why
      | .ok there => .ok (e, there)

def next (a : Access T) (l : Layout P) (e : Execution T P) : Execution T P :=
  match advance a l e.store e.place with
  | .ok (effect, place) => ⟨effect.store, place, e.written ++ effect.written, none⟩
  | .error why => { e with stop := some why }

end Execution

def SymbolTable.destination (labels : SymbolTable) (i : Instr) : Except Stop Int :=
  match i.target, i.label with
  | some index, _ => .ok index
  | none, some token =>
    match labels.find token.text with
    | .ok index => .ok index
    | .error unbound => .error (.unbound unbound)
  | none, none => .error .noLabel

theorem Program.fetch_natCast (p : Program) (k : Nat) : p.fetch k = p.code[k]? := by
  rw [fetch, if_pos (Int.natCast_nonneg k), Int.toNat_natCast]

def Program.layout (p : Program) : Layout Int where
  fetch ip :=
    if p.code.size ≤ ip then .error .halted
    else
      match p.fetch ip with
      | some i => .ok (ip, i)
      | none => .error .noInstruction
  number ip := ip
  follow ip i
    | .next => .ok (ip + 1)
    | .label => p.labels.destination i
    | .number k => .ok k

namespace Machine

def store (m : Machine) : Store Tape := ⟨m.x, m.acc, m.tape, m.cursor, m.input⟩

def withStore (m : Machine) (s : Store Tape) : Machine :=
  { m with x := s.x, acc := s.acc, tape := s.tape, cursor := s.cursor, input := s.input }

@[simp] theorem store_withStore (m : Machine) (s : Store Tape) : (m.withStore s).store = s := rfl

@[simp] theorem withStore_store (m : Machine) : m.withStore m.store = m := rfl

theorem store_cell (m : Machine) : m.store.cell .stored = m.cell := rfl

theorem store_valueOf (m : Machine) (v : Value) : m.store.valueOf v = m.valueOf v := by
  cases v <;> rfl

theorem touch_of_cell_neg {m : Machine} (h : m.cell < 0) : m.touch = m := by
  apply touch_of_lt
  apply Nat.lt_of_not_le
  intro unstored
  have zero : m.cell = 0 := by
    simp only [cell, Tape.get, Array.getElem?_eq_none unstored, Option.getD_none]
  omega

theorem jump_eq (m : Machine) (labels : SymbolTable) (i : Instr) :
    m.jump labels i =
      match labels.destination i with
      | .ok index => (m.goto index).done
      | .error why => m.stopped why := by
  cases target : i.target with
  | some index => simp only [jump, SymbolTable.destination, target]
  | none =>
    cases label : i.label with
    | none => simp only [jump, SymbolTable.destination, target, label]
    | some token =>
      simp only [jump, SymbolTable.destination, target, label]
      cases labels.find token.text <;> rfl

def complete (m : Machine) (labels : SymbolTable) (i : Instr) (e : Effect Tape) : Outcome :=
  match e.way with
  | .next => { machine := m.withStore e.store, written := e.written }
  | .label => (m.withStore e.store).jump labels i
  | .number k => ((m.withStore e.store).goto k).done

theorem perform_eq_act (m : Machine) (labels : SymbolTable) (i : Instr) :
    m.perform labels i =
      match m.store.act .stored m.ip i with
      | .ok e => m.complete labels i e
      | .error why => m.stopped why := by
  cases op : i.op with
  | gol | gor | get | sav | out | dec =>
    simp only [perform, Store.act, op]
    rfl
  | put =>
    simp only [perform, Store.act, op]
    unfold setRegister Store.setRegister
    split <;> rfl
  | jmp => simp only [perform, Store.act, op, complete, withStore_store]
  | jnz | jlz =>
    simp only [perform, Store.act, op, complete, withStore_store]
    rw [show m.store.register i.reg = m.register i.reg from rfl]
    split <;> rfl
  | ret =>
    simp only [perform, Store.act, op]
    -- the cell of a bad return is not zero, so it was stored before and looking changes nothing
    by_cases negative : m.cell < 0
    · have below : m.store.cell .stored < 0 := negative
      rw [if_pos negative, if_pos below, touch_of_cell_neg negative]
      rfl
    · have notBelow : ¬ m.store.cell .stored < 0 := negative
      have address : ((m.cell.toNat : Nat) : Int) = m.cell := by omega
      rw [if_neg negative, if_neg notBelow]
      simp only [complete, store_cell, address]
      rfl
  | inp =>
    simp only [perform, Store.act, op, readByte, store]
    cases m.input.next <;> rfl
  | set | add | mul =>
    simp only [perform, Store.act, op, withValue, Store.operate]
    cases i.value <;> rfl
  | div =>
    simp only [perform, Store.act, op, withValue, Store.operate]
    cases i.value with
    | none => rfl
    | some v =>
      simp only [divide, Store.divide, Word.quotient?, Word.quotient_eq_tdiv, store_valueOf,
        store_cell]
      by_cases zero : m.valueOf v = 0
      · simp only [if_pos zero]
      · simp only [if_neg zero]
        rfl

/-- A step is an execution's, as long as no jump has been left unsettled. -/
theorem step_eq_advance {p : Program} {m : Machine} (settled : m.jumped = false) :
    m.step p =
      match Execution.advance .stored p.layout m.store m.ip with
      | .ok (e, ip) => { machine := { m.withStore e.store with ip := ip }, written := e.written }
      | .error why => m.stopped why := by
  unfold step Execution.advance
  by_cases halted : p.code.size ≤ m.ip
  · simp only [Program.layout, if_pos halted]
  · cases fetched : p.fetch m.ip with
    | none => simp only [Program.layout, if_neg halted, fetched]
    | some i =>
      simp only [Program.layout, if_neg halted, fetched, perform_eq_act]
      cases acts : m.store.act .stored m.ip i with
      | error why => rfl
      | ok e =>
        cases way : e.way with
        | next => simp [complete, way, settle, withStore, settled]
        | label =>
          obtain ⟨-, rfl⟩ := Store.act_label acts way
          simp only [complete, withStore_store, jump_eq]
          cases p.labels.destination i with
          | error why => rfl
          | ok index => simp [done, goto, settle, settled]
        | number k =>
          obtain ⟨-, -, rfl⟩ := Store.act_number acts way
          simp [complete, done, goto, settle, withStore, settled]

theorem step_of_act_ok {p : Program} {m : Machine} {i : Instr} {e : Effect Tape}
    (settled : m.jumped = false) (inside : m.ip < p.code.size) (fetched : p.fetch m.ip = some i)
    (acts : m.store.act .stored m.ip i = .ok e) (next : e.way = .next) :
    m.step p =
      { machine := { m.withStore e.store with ip := m.ip + 1 }, written := e.written } := by
  rw [step_eq_advance settled]
  unfold Execution.advance
  simp only [Program.layout, if_neg (Int.not_le.mpr inside), fetched, acts, next]

theorem step_of_act_error {p : Program} {m : Machine} {i : Instr} {why : Stop}
    (settled : m.jumped = false) (inside : m.ip < p.code.size) (fetched : p.fetch m.ip = some i)
    (fails : m.store.act .stored m.ip i = .error why) : m.step p = m.stopped why := by
  rw [step_eq_advance settled]
  unfold Execution.advance
  simp only [Program.layout, if_neg (Int.not_le.mpr inside), fetched, fails]

end Machine

namespace Run

def start (input : Text) : Run := { machine := .start input }

/-- A run after `n` calls for a step, which go on after a step that does not complete. -/
def calls (p : Program) (input : Text) (n : Nat) : Run := (next p)^[n] (start input)

theorem calls_succ (p : Program) (input : Text) (n : Nat) :
    calls p input (n + 1) = (calls p input n).next p :=
  Function.iterate_succ_apply' (next p) n (start input)

def execution (r : Run) : Execution Tape Int :=
  ⟨r.machine.store, r.machine.ip, r.written.toList, r.stop⟩

theorem execution_next {p : Program} {r : Run} (settled : r.machine.jumped = false) :
    (r.next p).execution = r.execution.next .stored p.layout ∧
      (r.next p).machine.jumped = false := by
  unfold next Execution.next
  rw [Machine.step_eq_advance settled]
  simp only [execution]
  cases Execution.advance .stored p.layout r.machine.store r.machine.ip with
  | error why => simp [Machine.stopped, settled]
  | ok result => simp [Machine.withStore, Machine.store, settled]

theorem execution_calls (p : Program) (input : Text) (n : Nat) :
    (calls p input n).execution =
        (Execution.next .stored p.layout)^[n] (.start {} 0 input) ∧
      (calls p input n).machine.jumped = false := by
  induction n with
  | zero => exact ⟨rfl, rfl⟩
  | succ n ih =>
    rw [calls_succ, Function.iterate_succ_apply', ← ih.1]
    exact execution_next ih.2

end Run

/-- An instruction that has completed, and the machine as it was before. -/
structure Completion where
  machine : Machine
  instr : Instr
  deriving Repr, DecidableEq

def Machine.completion? (p : Program) (m : Machine) : Option Completion :=
  if (m.step p).stop.isSome then none
  else (p.fetch m.ip).map fun i => ⟨m, i⟩

def Run.history (p : Program) (input : Text) : Nat → List Completion
  | 0 => []
  | n + 1 => history p input n ++ ((calls p input n).machine.completion? p).toList

end TapeMachine
