import TapeMachine.Proofs.Invariant
import TapeMachine.Proofs.Simulation

namespace TapeMachine

def Instr.unlinked (i : Instr) : Instr := { i with target := none }

def Program.unlinked (p : Program) : Program := { p with code := p.code.map Instr.unlinked }

/-- A jump has the index that its label stands for as its target. -/
def Instr.Follows (labels : SymbolTable) (i : Instr) : Prop :=
  i.op.takesLabel → ∃ token index, i.label = some token ∧ labels.find token.text = .ok index ∧
    i.target = some index

namespace Program

theorem follows_of_ofLines {ls : List Line} {p : Program} (linked : ofLines ls = .ok p)
    (wellFormed : ∀ line ∈ ls, line.WellFormed) : ∀ i ∈ p.code, i.Follows p.labels := by
  rw [(of_ofLines linked).1]
  intro j member jump
  obtain ⟨i, read, rfl⟩ := List.mem_map.mp (List.mem_toArray.mp member)
  rw [Instr.withTarget_op] at jump
  obtain ⟨token, l, label, line, target⟩ := target_of_ofLines linked read
    (Labels.wellFormed_of_mem_instrs wellFormed read) jump
  have found : (Labels.table ls).find token.text = .ok (Labels.before ls l : Int) := by
    rw [SymbolTable.find, Labels.lookup_table, line, Option.map_some]
  have kept : (i.withTarget (Labels.table ls)).label = i.label := by
    unfold Instr.withTarget
    split <;> rfl
  exact ⟨token, _, kept.trans label, found, target⟩

end Program

namespace Machine

theorem perform_unlinked {labels : SymbolTable} {i : Instr} (follows : i.Follows labels)
    (m : Machine) : m.perform labels i.unlinked = m.perform labels i := by
  refine perform_congr (i := i.unlinked) (j := i) rfl rfl rfl ?_ m
  intro jumps
  obtain ⟨token, index, label, found, target⟩ := follows jumps
  rw [SymbolTable.destination_of_target target]
  simp only [SymbolTable.destination, Instr.unlinked, label, found]

theorem step_unlinked {p : Program} (follows : ∀ i ∈ p.code, i.Follows p.labels) (m : Machine) :
    m.step p.unlinked = m.step p := by
  apply step_map
  intro i fetched
  exact perform_unlinked (follows i (Program.mem_of_fetch fetched)) m

end Machine

namespace Run

/-- Any number of calls leads to the same run, with the same machine, the same output and the same
stop, if labels are looked up when jumps are made. -/
theorem calls_unlinked {source : Text} {assembly : Assembly} {p : Program}
    (assembled : Assembly.ofSource source = .ok assembly) (made : assembly.program = some p)
    (input : Text) (n : Nat) : calls p.unlinked input n = calls p input n := by
  obtain ⟨ls, linked, wellFormed⟩ := Assembly.lines_of_program assembled made
  have follows := Program.follows_of_ofLines linked wellFormed
  induction n with
  | zero => rfl
  | succ n ih =>
    rw [calls_succ, calls_succ, ih, next, next, Machine.step_unlinked follows]

theorem calls_unlinked_of_jlz :
    let jump : Instr := { op := .jlz, reg := some .acc, label := some ⟨"top", ⟨17, 20⟩⟩ }
    let p : Program := ⟨#[{ op := .dec }, { jump with target := some 0 }], [("top", 0)]⟩
    (Assembly.ofSource "top:\ndec\njlz acc top\n").map Assembly.program = .ok (some p) ∧
      p.unlinked.code = #[{ op := .dec }, jump] ∧
      calls p.unlinked [] 3 = calls p [] 3 ∧ (calls p [] 3).machine.acc = -2 := by
  intro jump p
  have assembled : Assembly.ofSource "top:\ndec\njlz acc top\n" = .ok ⟨[], [], some p⟩ := rfl
  refine ⟨congrArg (Except.map Assembly.program) assembled, by decide +kernel, ?_, rfl⟩
  exact calls_unlinked assembled rfl [] 3

end Run

end TapeMachine
