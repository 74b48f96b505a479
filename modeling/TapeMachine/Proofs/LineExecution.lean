import TapeMachine.Proofs.Linking
import TapeMachine.Proofs.Simulation

/-! Execution on the lines themselves. Places are lines; a line without an instruction is passed
over, a label leads to the first line that defines it and a number to the line of the instruction
that has it. The program that is made of the lines does the same, instruction by instruction. -/
namespace TapeMachine.Lines
open Labels

def current? : List Line → Nat → Option (Nat × Instr)
  | [], _ => none
  | _ :: ls, l + 1 => (current? ls l).map fun found => (found.1 + 1, found.2)
  | .instr i :: _, 0 => some (0, i)
  | _ :: ls, 0 => (current? ls 0).map fun found => (found.1 + 1, found.2)

def ofNumber? : List Line → Nat → Option Nat
  | [], _ => none
  | .instr _ :: _, 0 => some 0
  | .instr _ :: ls, k + 1 => (ofNumber? ls k).map (· + 1)
  | _ :: ls, k => (ofNumber? ls k).map (· + 1)

/-- Instructions on their lines. A number that no instruction has leads behind the last line. -/
def layout (ls : List Line) : Layout Nat where
  fetch l :=
    match current? ls l with
    | some found => .ok found
    | none => .error .halted
  number l := before ls l
  follow l i
    | .next => .ok (l + 1)
    | .label =>
      match i.label with
      | none => .error .noLabel
      | some token =>
        match definingLine? ls token.text with
        | some l => .ok l
        | none => .error (.unbound ⟨token.text⟩)
    | .number k => .ok ((ofNumber? ls k).getD ls.length)

structure Stands (ls : List Line) (l k : Nat) (i : Instr) : Prop where
  instr : (instrs ls)[before ls l]? = some i
  before_eq : before ls k = before ls l
  before_next : before ls (k + 1) = before ls l + 1

theorem getElem?_instrs_cons (line : Line) (ls : List Line) (k : Nat) :
    (instrs (line :: ls))[line.count + k]? = (instrs ls)[k]? := by
  cases line with
  | instr i =>
    rw [Line.count_instr, Nat.add_comm]
    rfl
  | label token =>
    rw [Line.count_label, Nat.zero_add]
    rfl
  | malformed =>
    rw [Line.count_malformed, Nat.zero_add]
    rfl

theorem length_instrs_cons (line : Line) (ls : List Line) :
    (instrs (line :: ls)).length = line.count + (instrs ls).length := by
  cases line with
  | instr i => exact Nat.add_comm _ _
  | label token => exact (Nat.zero_add _).symm
  | malformed => exact (Nat.zero_add _).symm

theorem Stands.cons {ls : List Line} {l k : Nat} {i : Instr} (h : Stands ls l k i) (line : Line) :
    Stands (line :: ls) (l + 1) (k + 1) i where
  instr := by rw [before_succ_cons, getElem?_instrs_cons, h.instr]
  before_eq := by rw [before_succ_cons, before_succ_cons, h.before_eq]
  before_next := by rw [before_succ_cons, before_succ_cons, h.before_next, Nat.add_assoc]

theorem Stands.zero {ls : List Line} {k : Nat} {i : Instr} {line : Line}
    (h : Stands (line :: ls) 1 k i) (empty : line.count = 0) : Stands (line :: ls) 0 k i := by
  have none : before (line :: ls) 1 = before (line :: ls) 0 := by
    rw [before_succ_cons, empty]
    rfl
  exact ⟨none ▸ h.instr, none ▸ h.before_eq, none ▸ h.before_next⟩

theorem stands_of_current? {ls : List Line} {l k : Nat} {i : Instr}
    (found : current? ls l = some (k, i)) : Stands ls l k i := by
  induction ls generalizing l k with
  | nil => cases found
  | cons line ls ih =>
    have later : ∀ {l}, (current? ls l).map (fun x => (x.1 + 1, x.2)) = some (k, i) →
        Stands (line :: ls) (l + 1) k i := by
      intro l passed
      obtain ⟨⟨k, i⟩, inner, shifted⟩ := Option.map_eq_some_iff.mp passed
      cases shifted
      exact (ih inner).cons line
    cases l with
    | succ l => exact later found
    | zero =>
      cases line with
      | instr j =>
        cases found
        exact ⟨rfl, rfl, rfl⟩
      | label token => exact (later found).zero rfl
      | malformed => exact (later found).zero rfl

theorem before_of_current?_none {ls : List Line} {l : Nat} (none : current? ls l = none) :
    before ls l = (instrs ls).length := by
  induction ls generalizing l with
  | nil => rw [before, List.take_nil]
  | cons line ls ih =>
    cases l with
    | succ l =>
      rw [before_succ_cons, length_instrs_cons, ih (Option.map_eq_none_iff.mp none)]
    | zero =>
      cases line with
      | instr j => cases none
      | label token => exact ih (Option.map_eq_none_iff.mp none)
      | malformed => exact ih (Option.map_eq_none_iff.mp none)

theorem before_of_ofNumber? {ls : List Line} {k l : Nat} (found : ofNumber? ls k = some l) :
    before ls l = k := by
  induction ls generalizing k l with
  | nil => cases found
  | cons line ls ih =>
    cases line with
    | instr i =>
      cases k with
      | zero =>
        cases found
        rfl
      | succ k =>
        obtain ⟨l, inner, rfl⟩ := Option.map_eq_some_iff.mp found
        rw [before_succ_cons, ih inner, Line.count_instr, Nat.add_comm]
    | label token =>
      obtain ⟨l, inner, rfl⟩ := Option.map_eq_some_iff.mp found
      rw [before_succ_cons, ih inner, Line.count_label, Nat.zero_add]
    | malformed =>
      obtain ⟨l, inner, rfl⟩ := Option.map_eq_some_iff.mp found
      rw [before_succ_cons, ih inner, Line.count_malformed, Nat.zero_add]

theorem length_le_of_ofNumber?_none {ls : List Line} {k : Nat} (none : ofNumber? ls k = none) :
    (instrs ls).length ≤ k := by
  induction ls generalizing k with
  | nil => exact Nat.zero_le k
  | cons line ls ih =>
    cases line with
    | instr i =>
      cases k with
      | zero => cases none
      | succ k => exact Nat.succ_le_succ (ih (Option.map_eq_none_iff.mp none))
    | label token => exact ih (Option.map_eq_none_iff.mp none)
    | malformed => exact ih (Option.map_eq_none_iff.mp none)

/-- A place among numbered instructions and one among lines that have equally many instructions
in front of them. Numbers past the end all go with places that have no instruction behind them. -/
def Same (ls : List Line) (ip : Int) (l : Nat) : Prop :=
  ip = before ls l ∨ current? ls l = none ∧ (instrs ls).length ≤ ip

theorem Same.ip_eq {ls : List Line} {ip : Int} {l k : Nat} {i : Instr} (same : Same ls ip l)
    (current : current? ls l = some (k, i)) : ip = before ls l := by
  rcases same with here | ⟨absent, -⟩
  · exact here
  · rw [current] at absent
    cases absent

theorem Same.length_le {ls : List Line} {ip : Int} {l : Nat} (same : Same ls ip l)
    (absent : current? ls l = none) : (instrs ls).length ≤ ip := by
  rcases same with here | ⟨-, past⟩
  · have counted := before_of_current?_none absent
    omega
  · exact past

theorem current?_length (ls : List Line) : current? ls ls.length = none := by
  induction ls with
  | nil => rfl
  | cons line ls ih => exact congrArg (Option.map _) ih

theorem same_ofNumber? (ls : List Line) (k : Nat) :
    Same ls k ((ofNumber? ls k).getD ls.length) := by
  cases found : ofNumber? ls k with
  | some l => exact .inl (congrArg _ (before_of_ofNumber? found).symm)
  | none =>
    refine .inr ⟨current?_length ls, ?_⟩
    exact Int.ofNat_le.mpr (length_le_of_ofNumber?_none found)

theorem layout_simulation {ls : List Line} {p : Program} (linked : Program.ofLines ls = .ok p)
    (wellFormed : ∀ line ∈ ls, line.WellFormed) :
    p.layout.Simulation (layout ls) (Same ls) := by
  intro ip l same
  have made := (Program.of_ofLines linked).1
  have size := Program.size_of_ofLines linked
  cases current : current? ls l with
  | none =>
    have past : (p.code.size : Int) ≤ ip := size ▸ same.length_le current
    simp only [Program.layout, layout, current, if_pos past]
    exact .error .halted
  | some found =>
    obtain ⟨k, i⟩ := found
    have stands := stands_of_current? current
    have here := same.ip_eq current
    have member := List.mem_of_getElem? stands.instr
    have inside : ¬ (p.code.size : Int) ≤ ip := by
      have := (List.getElem?_eq_some_iff.mp stands.instr).1
      rw [here, size]
      omega
    have fetched : p.fetch ip = some (i.withTarget (table ls)) := by
      rw [here, Program.fetch_natCast, made]
      simp [stands.instr]
    simp only [Program.layout, layout, current, if_neg inside, fetched]
    refine .ok ⟨?_, Instr.withTarget_op _ i, Instr.withTarget_reg _ i,
      Instr.withTarget_value _ i, ?_⟩
    · dsimp only
      rw [here, stands.before_eq]
    · intro way jumps
      cases way with
      | next =>
        refine .ok (.inl ?_)
        rw [here, stands.before_next]
        rfl
      | number n => exact .ok (same_ofNumber? ls n)
      | label =>
        have jump : i.op.takesLabel := Instr.withTarget_op (table ls) i ▸ jumps rfl
        obtain ⟨token, d, label, defined, target⟩ := Program.target_of_ofLines linked member
          (wellFormed_of_mem_instrs wellFormed member) jump
        simp only [SymbolTable.destination, target, label, defined]
        exact .ok (.inl rfl)

/-- The machine and the lines of its source agree after any number of instructions, and as long
as an instruction is left the instruction pointer counts the instructions in front of it. -/
theorem run_agrees_with_lines {source : Text} {listing : Listing} {ls : List Line} {p : Program}
    (read : Listing.ofSource source = .ok listing) (lines : listing.lines = some ls)
    (linked : Program.ofLines ls = .ok p) (input : Text) (n : Nat) :
    let r := Run.calls p input n
    let e := (Execution.next .stored (layout ls))^[n] (.start {} 0 input)
    r.machine.x = e.store.x ∧ r.machine.acc = e.store.acc ∧ r.machine.tape = e.store.tape ∧
      r.machine.cursor = e.store.cursor ∧ r.machine.input = e.store.input ∧
      r.written.toList = e.written ∧ r.stop = e.stop ∧
      match current? ls e.place with
      | some (l, _) => r.machine.ip = before ls l
      | none => p.code.size ≤ r.machine.ip := by
  intro r e
  have start : Execution.Related (Same ls) (.start ({} : Tape) 0 input) (.start {} 0 input) :=
    ⟨rfl, .inl rfl, rfl, rfl⟩
  have size := Program.size_of_ofLines linked
  have sim := layout_simulation linked (Listing.wellFormed read lines)
  have related : Execution.Related (Same ls) r.execution e := by
    rw [(Run.execution_calls p input n).1]
    exact Execution.iterate_related sim start n
  have store : r.machine.store = e.store := related.store
  refine ⟨congrArg Store.x store, congrArg Store.acc store, congrArg Store.tape store,
    congrArg Store.cursor store, congrArg Store.input store, related.written, related.stop, ?_⟩
  have same : Same ls r.machine.ip e.place := related.place
  cases current : current? ls e.place with
  | none => exact size ▸ same.length_le current
  | some found =>
    dsimp only
    rw [same.ip_eq current, (stands_of_current? current).before_eq]

theorem run_agrees_with_lines_of_jmp_sav :
    let jump : Instr := { op := .jmp, label := some ⟨"end", ⟨4, 7⟩⟩ }
    let ls : List Line :=
      [.instr jump, .malformed, .instr { op := .sav }, .label ⟨"end", ⟨14, 18⟩⟩,
        .instr { op := .sav }]
    let p : Program :=
      ⟨#[{ jump with target := some 2 }, { op := .sav }, { op := .sav }], [("end", 2)]⟩
    let e := (Execution.next .stored (layout ls))^[2] (.start {} 0 [])
    (Listing.ofSource "jmp end\n?\nsav\nend:\nsav\n").map Listing.lines = .ok (some ls) ∧
      Program.ofLines ls = .ok p ∧ (Run.calls p [] 2).machine.tape = e.store.tape ∧
      e.store.tape = ⟨#[2]⟩ := by
  intro jump ls p e
  have reads : (Listing.ofSource "jmp end\n?\nsav\nend:\nsav\n").map Listing.lines =
      .ok (some ls) := by decide +kernel
  have linked : Program.ofLines ls = .ok p := by decide +kernel
  have number : e.store.tape = ⟨#[2]⟩ := by decide +kernel
  cases read : Listing.ofSource "jmp end\n?\nsav\nend:\nsav\n" with
  | error why =>
    rw [read] at reads
    cases reads
  | ok listing =>
    rw [read] at reads
    have lines : listing.lines = some ls := Except.ok.inj reads
    obtain ⟨-, -, tape, -⟩ := run_agrees_with_lines read lines linked [] 2
    exact ⟨reads, linked, tape, number⟩

end TapeMachine.Lines
