import Mathlib.Logic.Function.Basic
import TapeMachine.Proofs.Execution

/-! A tape that stores its cells only when they are used cannot be told from one that has them
all, each zero at first. Reading the stored tape as a function of the cell's number commutes
with everything an instruction does to a tape, and so with every run. -/
namespace TapeMachine

def Access.unbounded : Access (Nat → Int) := ⟨fun t i => t i, Function.update, fun t _ => t⟩

structure Access.Hom {T U : Type} (a : Access T) (b : Access U) (f : T → U) : Prop where
  get : ∀ t i, b.get (f t) i = a.get t i
  put : ∀ t i v, b.put (f t) i v = f (a.put t i v)
  touch : ∀ t i, b.touch (f t) i = f (a.touch t i)

theorem Access.hom_get : Access.Hom .stored .unbounded Tape.get where
  get _ _ := rfl
  put t i v := by
    funext j
    simp only [unbounded, stored, Function.update_apply, Tape.get_put]
    by_cases same : j = i
    · rw [if_pos same, if_pos same.symm]
    · rw [if_neg same, if_neg (Ne.symm same)]
  touch t i := by
    funext j
    exact (Tape.get_extend t i j).symm

variable {T U P : Type}

def Store.map (f : T → U) (s : Store T) : Store U := ⟨s.x, s.acc, f s.tape, s.cursor, s.input⟩

def Effect.map (f : T → U) (e : Effect T) : Effect U := ⟨e.store.map f, e.written, e.way⟩

namespace Store
variable {a : Access T} {b : Access U} {f : T → U}

theorem cell_map (hom : a.Hom b f) (s : Store T) : (s.map f).cell b = s.cell a :=
  hom.get s.tape s.cursor

theorem put_map (hom : a.Hom b f) (s : Store T) (v : Int) :
    (s.map f).put b v = (s.put a v).map f := by
  simp only [put, map, hom.put]

theorem touch_map (hom : a.Hom b f) (s : Store T) : (s.map f).touch b = (s.touch a).map f := by
  simp only [touch, map, hom.touch]

theorem setRegister_map (s : Store T) (r : Option Register) (v : Int) :
    (s.map f).setRegister r v = (s.setRegister r v).map f := by
  unfold setRegister
  split <;> rfl

theorem operate_map (hom : a.Hom b f) (s : Store T) (operand : Option Value)
    (op : Int → Int → Except Stop Int) :
    (s.map f).operate b operand op = (s.operate a operand op).map (Effect.map f) := by
  cases operand with
  | none => rfl
  | some v =>
    have value : (s.map f).valueOf v = s.valueOf v := by cases v <;> rfl
    simp only [operate, cell_map hom, value]
    cases op (s.cell a) (s.valueOf v) with
    | error why => rfl
    | ok result => simp only [put_map hom, Except.map, Effect.map]

theorem act_map (hom : a.Hom b f) (here : Int) (i : Instr) (s : Store T) :
    (s.map f).act b here i = (s.act a here i).map (Effect.map f) := by
  cases op : i.op with
  | gol | gor | jmp | jnz | jlz | dec =>
    simp only [act, op]
    rfl
  | get | sav =>
    simp only [act, op, put_map hom]
    rfl
  | put =>
    simp only [act, op, cell_map hom, touch_map hom, setRegister_map]
    rfl
  | ret =>
    simp only [act, op, cell_map hom, touch_map hom]
    split <;> rfl
  | inp =>
    have input : (s.map f).input = s.input := rfl
    simp only [act, op, input]
    cases s.input.next with
    | error why => rfl
    | ok result =>
      obtain ⟨byte, rest⟩ := result
      have filled : { s.map f with input := rest } = { s with input := rest }.map f := rfl
      simp only [filled, put_map hom]
      rfl
  | out =>
    simp only [act, op, cell_map hom, touch_map hom]
    rfl
  | set | add | mul | div => simp only [act, op, operate_map hom]

end Store

namespace Execution
variable {a : Access T} {b : Access U} {f : T → U}

def map (f : T → U) (e : Execution T P) : Execution U P :=
  ⟨e.store.map f, e.place, e.written, e.stop⟩

theorem advance_map (hom : a.Hom b f) (l : Layout P) (s : Store T) (place : P) :
    advance b l (s.map f) place =
      (advance a l s place).map fun result => (result.1.map f, result.2) := by
  unfold advance
  cases l.fetch place with
  | error why => rfl
  | ok found =>
    obtain ⟨here, i⟩ := found
    simp only [Store.act_map hom]
    cases s.act a (l.number here) i with
    | error why => rfl
    | ok effect =>
      have way : (effect.map f).way = effect.way := rfl
      simp only [Except.map, way]
      cases l.follow here i effect.way <;> rfl

theorem next_map (hom : a.Hom b f) (l : Layout P) (e : Execution T P) :
    (e.next a l).map f = (e.map f).next b l := by
  have store : (e.map f).store = e.store.map f := rfl
  have place : (e.map f).place = e.place := rfl
  simp only [next, store, place, advance_map hom]
  cases advance a l e.store e.place with
  | error why => rfl
  | ok result => rfl

theorem next_iterate_map (hom : a.Hom b f) (l : Layout P) (n : Nat) (e : Execution T P) :
    ((next a l)^[n] e).map f = (next b l)^[n] (e.map f) :=
  Function.Semiconj.iterate_right (next_map hom l) n e

end Execution

/-- The stored tape agrees with the unbounded one at every cell that it stores, and stores every
cell that is not zero; all else is the same, whatever the program. -/
theorem stored_tape_eq_unbounded (p : Program) (input : Text) (n : Nat) :
    let r := Run.calls p input n
    let u := (Execution.next .unbounded p.layout)^[n] (.start (fun _ => 0) 0 input)
    r.machine.x = u.store.x ∧ r.machine.acc = u.store.acc ∧ r.machine.cursor = u.store.cursor ∧
      r.machine.ip = u.place ∧ r.machine.input = u.store.input ∧ r.written.toList = u.written ∧
      r.stop = u.stop ∧ ∀ i, u.store.tape i = r.machine.tape.cells[i]?.getD 0 := by
  intro r u
  have start : (Execution.start {} 0 input).map Tape.get =
      Execution.start (fun _ => 0) (0 : Int) input := rfl
  have same : r.execution.map Tape.get = u := by
    rw [(Run.execution_calls p input n).1, Execution.next_iterate_map Access.hom_get, start]
  rw [← same]
  exact ⟨rfl, rfl, rfl, rfl, rfl, rfl, rfl, fun i => rfl⟩

end TapeMachine
