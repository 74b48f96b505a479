import TapeMachine.Proofs.Invariant
import TapeMachine.Proofs.Relabeling
import TapeMachine.Proofs.Simulation

namespace TapeMachine

section

variable {f : Text → Text} {h : Span → Span} {p : Program}

theorem Machine.perform_relabel {labels labels' : SymbolTable} {i : Instr} {size : Nat}
    (linked : i.Linked size) (m : Machine) :
    m.perform labels' (i.relabel f h) = m.perform labels i := by
  refine perform_congr (i := i.relabel f h) (j := i) rfl rfl rfl ?_ m
  intro jumps
  obtain ⟨k, target, -⟩ := linked.target jumps
  have target' : (i.relabel f h).target = some (k : Int) := target
  rw [SymbolTable.destination_of_target target, SymbolTable.destination_of_target target']

theorem Machine.step_relabel (linked : ∀ i ∈ p.code, i.Linked p.code.size) (m : Machine) :
    m.step (p.relabel f h) = m.step p := by
  apply step_map
  intro i fetched
  exact perform_relabel (linked i (Program.mem_of_fetch fetched)) m

theorem Run.calls_relabel (linked : ∀ i ∈ p.code, i.Linked p.code.size) (input : Text) (n : Nat) :
    calls (p.relabel f h) input n = calls p input n := by
  induction n with
  | zero => rfl
  | succ n ih => rw [calls_succ, calls_succ, ih, next, next, Machine.step_relabel linked]

end

namespace Program

/-- With other names for the labels of some lines, different ones for different names, there is a
program exactly if there was one; it has the same instructions and targets and the same table, but
for the names, and every run of it is the same run. Otherwise there are the same mistakes, at the
same places and about the new names. -/
theorem renaming_transparent {source : Text} {listing : Listing} {ls : List Line}
    (read : Listing.ofSource source = .ok listing) (lines : listing.lines = some ls)
    {f : Text → Text} (apart : Apart f (Labels.names ls)) :
    let renamed := ls.map (Line.relabel f id)
    ((∃ q, ofLines renamed = .ok q) ↔ ∃ p, ofLines ls = .ok p) ∧
      (∀ p, ofLines ls = .ok p → ∃ q, ofLines renamed = .ok q ∧
        q.code = p.code.map (Instr.relabel f id) ∧
        q.labels = p.labels.map (fun entry => (f entry.1, entry.2)) ∧
        ∀ input n, Run.calls q input n = Run.calls p input n) ∧
      ∀ es, ofLines ls = .error es →
        ofLines renamed = .error (es.map (LabelMistake.relabel f id)) := by
  intro renamed
  have whole : ofLines renamed = _ := ofLines_relabel apart
  have wellFormed := Listing.wellFormed read lines
  cases made : ofLines ls with
  | error es =>
    rw [made] at whole
    refine ⟨?_, nofun, ?_⟩
    · rw [whole]
      constructor
      · rintro ⟨q, impossible⟩
        cases impossible
      · rintro ⟨p, impossible⟩
        cases impossible
    · rintro _ ⟨⟩
      exact whole
  | ok p =>
    rw [made] at whole
    have linked := linked_of_ofLines made wellFormed
    refine ⟨⟨fun _ => ⟨p, rfl⟩, fun _ => ⟨_, whole⟩⟩, ?_, nofun⟩
    rintro _ ⟨⟩
    exact ⟨_, whole, rfl, rfl, fun input n => Run.calls_relabel linked input n⟩

/-- Only the two names that occur have to stay apart: a third one, which does not, is made the same
as one of them. -/
theorem renaming_transparent_of_jlz :
    let f : Text → Text := fun t => if t = ['a'] then ['b'] else ['c']
    let dec : Instr := { op := .dec }
    let jump (name : Text) (start : Nat) : Instr :=
      { op := .jlz, reg := some .acc, label := some ⟨name, ⟨start, start + 1⟩⟩ }
    let ls : List Line :=
      [.label ⟨"a", ⟨0, 2⟩⟩, .instr dec, .instr (jump "b" 15), .instr (jump "a" 25),
        .label ⟨"b", ⟨27, 29⟩⟩]
    (Listing.ofSource "a:\ndec\njlz acc b\njlz acc a\nb:\n").map Listing.lines = .ok (some ls) ∧
      ∃ q, ofLines (ls.map (Line.relabel f id)) = .ok q ∧
        q.labels = [(['b'], 0), (['c'], 3)] ∧
        q.code = #[dec, { jump "c" 15 with target := some 3 },
          { jump "b" 25 with target := some 0 }] ∧
        (Run.calls q [] 3).stop = some .halted := by
  intro f dec jump ls
  have reads : (Listing.ofSource "a:\ndec\njlz acc b\njlz acc a\nb:\n").map Listing.lines =
      .ok (some ls) := by decide +kernel
  have apart : Apart f (Labels.names ls) := by
    have names : Labels.names ls = [['a'], ['b'], ['a'], ['b']] := rfl
    have kept : ∀ a ∈ Labels.names ls, a = ['a'] ∨ a = ['b'] := by simp [names]
    intro a member b member'
    rcases kept a member with rfl | rfl <;> rcases kept b member' with rfl | rfl <;> decide
  have made : ofLines ls = .ok ⟨#[dec, { jump "b" 15 with target := some 3 },
      { jump "a" 25 with target := some 0 }], [("a", 0), ("b", 3)]⟩ := by decide +kernel
  refine ⟨reads, ?_⟩
  cases read : Listing.ofSource "a:\ndec\njlz acc b\njlz acc a\nb:\n" with
  | error why =>
    rw [read] at reads
    cases reads
  | ok listing =>
    rw [read] at reads
    obtain ⟨-, programs, -⟩ := renaming_transparent read (Except.ok.inj reads) apart
    obtain ⟨q, renamed, code, labels, runs⟩ := programs _ made
    refine ⟨q, renamed, ?_, ?_, ?_⟩
    · rw [labels]
      decide +kernel
    · rw [code]
      decide +kernel
    · rw [runs]
      decide +kernel

end Program

end TapeMachine
