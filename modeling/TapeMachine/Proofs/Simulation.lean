import TapeMachine.Proofs.Execution

/-! Two layouts of the same instructions. If places can be paired so that instructions of the
same effect stand at paired places and every way leads to paired places again, then executions
agree in everything but the places, for any number of instructions. Of a single step no more than
the instruction fetched and its destination matters. -/
namespace TapeMachine

variable {T P Q : Type}

inductive Agree {α β : Type} (R : α → β → Prop) : Except Stop α → Except Stop β → Prop
  | ok {a : α} {b : β} : R a b → Agree R (.ok a) (.ok b)
  | error (why : Stop) : Agree R (.error why) (.error why)

namespace Layout

/-- The instructions at two places have the same number and effect, and the ways that they may
go lead to related places. -/
structure Matching (l : Layout P) (m : Layout Q) (R : P → Q → Prop) (a : P × Instr)
    (b : Q × Instr) : Prop where
  number : l.number a.1 = m.number b.1
  op : a.2.op = b.2.op
  reg : a.2.reg = b.2.reg
  value : a.2.value = b.2.value
  follow : ∀ way, (way = .label → a.2.op.takesLabel) →
    Agree R (l.follow a.1 a.2 way) (m.follow b.1 b.2 way)

def Simulation (l : Layout P) (m : Layout Q) (R : P → Q → Prop) : Prop :=
  ∀ place place', R place place' → Agree (Matching l m R) (l.fetch place) (m.fetch place')

end Layout

/-- A label and a target make no difference to what an instruction does to the store. -/
theorem Store.act_congr {i j : Instr} (op : i.op = j.op) (reg : i.reg = j.reg)
    (value : i.value = j.value) (a : Access T) (here : Int) (s : Store T) :
    s.act a here i = s.act a here j := by
  unfold act
  rw [op, reg, value]

namespace Execution
variable {a : Access T} {l : Layout P} {m : Layout Q} {R : P → Q → Prop}

structure Related (R : P → Q → Prop) (e : Execution T P) (f : Execution T Q) : Prop where
  store : e.store = f.store
  place : R e.place f.place
  written : e.written = f.written
  stop : e.stop = f.stop

theorem advance_agree (sim : l.Simulation m R) {place : P} {place' : Q} (paired : R place place')
    (s : Store T) :
    Agree (fun x y => x.1 = y.1 ∧ R x.2 y.2) (advance a l s place) (advance a m s place') := by
  have found := sim place place' paired
  unfold advance
  generalize l.fetch place = left at found ⊢
  generalize m.fetch place' = right at found ⊢
  cases found with
  | error why => exact .error why
  | ok same =>
    dsimp only
    rw [same.number, Store.act_congr same.op same.reg same.value]
    cases acts : s.act a _ _ with
    | error why => exact .error why
    | ok e =>
      have jumps : e.way = .label → _ := fun way => same.op ▸ (Store.act_label acts way).1
      have followed := same.follow e.way jumps
      dsimp only
      generalize l.follow _ _ e.way = left at followed ⊢
      generalize m.follow _ _ e.way = right at followed ⊢
      cases followed with
      | error why => exact .error why
      | ok related => exact .ok ⟨rfl, related⟩

theorem next_related (sim : l.Simulation m R) {e : Execution T P} {f : Execution T Q}
    (related : Related R e f) : Related R (e.next a l) (f.next a m) := by
  have step := advance_agree (a := a) sim related.place e.store
  unfold next
  rw [← related.store]
  generalize advance a l e.store e.place = left at step ⊢
  generalize advance a m e.store f.place = right at step ⊢
  cases step with
  | error why => exact ⟨rfl, related.place, related.written, rfl⟩
  | ok result =>
    obtain ⟨effect, paired⟩ := result
    refine ⟨congrArg Effect.store effect, paired, ?_, rfl⟩
    dsimp only
    rw [related.written, effect]

theorem iterate_related (sim : l.Simulation m R) {e : Execution T P} {f : Execution T Q}
    (related : Related R e f) (n : Nat) :
    Related R ((next a l)^[n] e) ((next a m)^[n] f) := by
  induction n with
  | zero => exact related
  | succ n ih =>
    rw [Function.iterate_succ_apply', Function.iterate_succ_apply']
    exact next_related sim ih

end Execution

theorem Program.fetch_map (g : Instr → Instr) (p : Program) (labels : SymbolTable) (index : Int) :
    fetch ⟨p.code.map g, labels⟩ index = (p.fetch index).map g := by
  simp only [fetch, Array.size_map, Array.getElem?_map]
  repeat' split
  all_goals rfl

theorem SymbolTable.destination_of_target {labels : SymbolTable} {i : Instr} {index : Int}
    (target : i.target = some index) : labels.destination i = .ok index := by
  simp only [destination, target]

namespace Machine

theorem perform_congr {labels labels' : SymbolTable} {i j : Instr} (op : i.op = j.op)
    (reg : i.reg = j.reg) (value : i.value = j.value)
    (destination : i.op.takesLabel → labels.destination i = labels'.destination j) (m : Machine) :
    m.perform labels i = m.perform labels' j := by
  rw [perform_eq_act, perform_eq_act, Store.act_congr op reg value]
  cases acts : m.store.act .stored m.ip j with
  | error why => rfl
  | ok e =>
    cases way : e.way with
    | next | number k => simp only [complete, way]
    | label =>
      have jumps : i.op.takesLabel := op ▸ (Store.act_label acts way).1
      simp only [complete, way, jump_eq, destination jumps]

/-- A step depends on a program only through the instruction that it fetches. -/
theorem step_congr {p q : Program} {m : Machine} {i j : Instr} (inside : m.ip < p.code.size)
    (inside' : m.ip < q.code.size) (fetched : p.fetch m.ip = some i)
    (fetched' : q.fetch m.ip = some j) (same : m.perform p.labels i = m.perform q.labels j) :
    m.step p = m.step q := by
  unfold step
  rw [if_neg (Int.not_le.mpr inside), if_neg (Int.not_le.mpr inside'), fetched, fetched']
  simp only [same]

theorem step_map {g : Instr → Instr} {p : Program} {labels : SymbolTable} {m : Machine}
    (same : ∀ i, p.fetch m.ip = some i → m.perform labels (g i) = m.perform p.labels i) :
    m.step ⟨p.code.map g, labels⟩ = m.step p := by
  have size : (p.code.map g).size = p.code.size := Array.size_map
  unfold step
  rw [Program.fetch_map]
  cases fetched : p.fetch m.ip with
  | none => simp only [size, Option.map_none]
  | some i => simp only [size, Option.map_some, same i fetched]

end Machine

end TapeMachine
