import TapeMachine.Proofs.Concatenation
import TapeMachine.Proofs.Resolution
import TapeMachine.Proofs.Simulation
import TapeMachine.Proofs.Stopping

namespace TapeMachine

namespace Listing

theorem exists_of_reads_append {ps qs : List Piece} {l : Listing} (reads : Reads (ps ++ qs) l)
    (terminated : ∀ p ∈ ps, p.terminated) :
    ∃ first second, Reads ps first ∧ Reads qs second ∧ l = first.append second := by
  induction ps generalizing l with
  | nil => exact ⟨empty, l, .nil, reads, (empty_append l).symm⟩
  | cons p ps ih =>
    have others : ∀ q ∈ ps, q.terminated := fun q member =>
      terminated q (List.mem_cons_of_mem _ member)
    cases reads with
    | blank blank rest =>
      obtain ⟨first, second, here, later, rfl⟩ := ih rest others
      exact ⟨first, second, .blank blank here, later, rfl⟩
    | accepted filled ends verdict rest =>
      obtain ⟨first, second, here, later, rfl⟩ := ih rest others
      exact ⟨_, second, .accepted filled ends verdict here, later, (withLine_append ..).symm⟩
    | rejected filled ends verdict rest =>
      obtain ⟨first, second, here, later, rfl⟩ := ih rest others
      exact ⟨_, second, .rejected filled ends verdict here, later, (withError_append ..).symm⟩
    | unfinished filled ends =>
      have closed := terminated p List.mem_cons_self
      rw [ends] at closed
      cases closed

theorem exists_append_of_ofSource {s t : Text} (closed : s.Closed) {l l' : Listing}
    (read : ofSource s = .ok l) (read' : ofSource (s ++ t) = .ok l') :
    ∃ more, l' = l.append more := by
  obtain ⟨ps, terminated, split⟩ := Piece.ofSource_closed_append closed
  have alone := Piece.ofSource_of_append split
  have reads : Reads (Piece.ofSource s) l := reads_of_ofPieces read
  have reads' : Reads (Piece.ofSource (s ++ t)) l' := reads_of_ofPieces read'
  rw [alone] at reads
  rw [split t] at reads'
  obtain ⟨first, last, here, nothing, rfl⟩ := exists_of_reads_append reads terminated
  obtain ⟨first', more, here', -, rfl⟩ := exists_of_reads_append reads' terminated
  have same : first' = first := by
    have once := (ofPieces_of_reads here').symm.trans (ofPieces_of_reads here)
    exact Except.ok.inj once
  cases nothing with
  | blank blank rest =>
    cases rest
    exact ⟨more, by rw [append_empty, same]⟩
  | accepted filled ends verdict rest => cases filled
  | rejected filled ends verdict rest => cases filled
  | unfinished filled ends => cases filled

end Listing

namespace Labels
variable {ls : List Line}

theorem prefix_definitionsFrom (index : Nat) (ls more : List Line) :
    definitionsFrom index ls <+: definitionsFrom index (ls ++ more) := by
  induction ls generalizing index with
  | nil => exact List.nil_prefix
  | cons line ls ih =>
    cases line with
    | instr i => exact ih (index + 1)
    | label token => exact (List.prefix_cons_inj _).mpr (ih index)
    | malformed => exact ih index

theorem prefix_firsts {ds es : List Definition} (front : ds <+: es) : firsts ds <+: firsts es := by
  induction ds using firsts_induction generalizing es with
  | nil => exact List.nil_prefix
  | cons d ds ih =>
    obtain ⟨rest, rfl⟩ := front
    have kept : except d.token.text ds <+: except d.token.text (ds ++ rest) := by
      unfold except
      rw [List.filter_append]
      exact List.prefix_append _ _
    rw [List.cons_append, firsts_cons, firsts_cons]
    exact (List.prefix_cons_inj d).mpr (ih kept)

theorem prefix_table (ls more : List Line) : table ls <+: table (ls ++ more) :=
  (prefix_firsts (prefix_definitionsFrom 0 ls more)).map _

theorem before_append {l : Nat} (inside : l ≤ ls.length) (more : List Line) :
    before (ls ++ more) l = before ls l := by
  unfold before
  rw [List.take_append_of_le_length inside]

theorem lookup_table_append {name : Text} {l : Nat} (defined : definingLine? ls name = some l)
    (more : List Line) : (table (ls ++ more)).lookup name = (table ls).lookup name := by
  obtain ⟨token, label, -⟩ := label_of_definingLine? defined
  rw [lookup_table, lookup_table, definingLine?_append, defined, Option.some_or, Option.map_some,
    Option.map_some, before_append (Nat.le_of_lt (labelAt?_lt label))]

theorem withTarget_append {i : Instr}
    (known : ∀ token ∈ i.reference?, ∃ l, definingLine? ls token.text = some l) (more : List Line) :
    i.withTarget (table (ls ++ more)) = i.withTarget (table ls) := by
  unfold Instr.withTarget
  cases refers : i.reference? with
  | none => rfl
  | some token =>
    obtain ⟨l, defined⟩ := known token refers
    simp only [lookup_table_append defined more]

end Labels

namespace Program
variable {p q : Program}

/-- The program of some lines is the beginning of the program of these and more, and so is its
table. -/
theorem prefix_of_ofLines {ls more : List Line} (linked : ofLines ls = .ok p)
    (linked' : ofLines (ls ++ more) = .ok q) :
    p.code.toList <+: q.code.toList ∧ p.labels <+: q.labels := by
  obtain ⟨rfl, known⟩ := of_ofLines linked
  obtain ⟨rfl, -⟩ := of_ofLines linked'
  refine ⟨?_, Labels.prefix_table ls more⟩
  have same : (Labels.instrs ls).map (·.withTarget (Labels.table (ls ++ more))) =
      (Labels.instrs ls).map (·.withTarget (Labels.table ls)) := by
    apply List.map_congr_left
    intro i member
    exact Labels.withTarget_append (known i member) more
  have instrs : Labels.instrs (ls ++ more) = Labels.instrs ls ++ Labels.instrs more :=
    List.filterMap_append
  rw [instrs, List.map_append, same]
  exact List.prefix_append _ _

theorem fetch_of_prefix (front : p.code.toList <+: q.code.toList) {ip : Int} (nonneg : 0 ≤ ip)
    (inside : ip < p.code.size) : ip < q.code.size ∧ q.fetch ip = p.fetch ip := by
  have bound : ip.toNat < p.code.toList.length := by
    rw [Array.length_toList]
    omega
  have size : p.code.size ≤ q.code.size := by
    simpa only [Array.length_toList] using front.length_le
  refine ⟨by omega, ?_⟩
  obtain ⟨rest, whole⟩ := front
  rw [fetch, fetch, if_pos nonneg, if_pos nonneg, ← Array.getElem?_toList, ← Array.getElem?_toList,
    ← whole, List.getElem?_append_left bound]

end Program

namespace Machine

/-- Inside the program in front a step is the same, for no jump asks the table. -/
theorem step_of_prefix {p q : Program} {m : Machine} (front : p.code.toList <+: q.code.toList)
    (linked : ∀ i ∈ p.code, i.Linked p.code.size) (nonneg : 0 ≤ m.ip)
    (inside : m.ip < p.code.size) : m.step q = m.step p := by
  obtain ⟨inside', same⟩ := Program.fetch_of_prefix front nonneg inside
  obtain ⟨i, fetched⟩ := Program.exists_fetch nonneg inside
  have destination : i.op.takesLabel → q.labels.destination i = p.labels.destination i := by
    intro jumps
    obtain ⟨k, target, -⟩ := (linked i (Program.mem_of_fetch fetched)).target jumps
    rw [SymbolTable.destination_of_target target, SymbolTable.destination_of_target target]
  exact step_congr inside' inside (same.trans fetched) fetched
    (perform_congr rfl rfl rfl destination m)

end Machine

theorem Run.calls_of_prefix {p q : Program} (front : p.code.toList <+: q.code.toList)
    (linked : ∀ i ∈ p.code, i.Linked p.code.size) {input : Text} {n : Nat}
    (all : (calls p input n).steps = n) : calls q input n = calls p input n := by
  induction n with
  | zero => rfl
  | succ n ih =>
    obtain ⟨before, inside⟩ := inside_of_steps linked all
    have nonneg := (calls_sound linked input n).ip
    rw [calls_succ, calls_succ, ih before, next, next,
      Machine.step_of_prefix front linked nonneg inside]

namespace Assembly

/-- If a closed source makes a program, and with more behind it makes one again, the first program
and its table are the beginnings of the second and its own. Any number of calls that all complete
on the first make the same run of the second. -/
theorem appending_extends {s t : Text} (closed : s.Closed) {a b : Assembly} {p q : Program}
    (assembled : ofSource s = .ok a) (made : a.program = some p)
    (assembled' : ofSource (s ++ t) = .ok b) (made' : b.program = some q) :
    p.code.toList <+: q.code.toList ∧ p.labels <+: q.labels ∧
      ∀ input n, (Run.calls p input n).steps = n → Run.calls q input n = Run.calls p input n := by
  obtain ⟨l, ls, read, lines, linked⟩ := listing_of_program assembled made
  obtain ⟨l', ls', read', lines', linked'⟩ := listing_of_program assembled' made'
  obtain ⟨behind, rfl⟩ := Listing.exists_append_of_ofSource closed read read'
  simp only [Listing.append, lines, Option.bind_some] at lines'
  obtain ⟨more, -, rfl⟩ := Option.map_eq_some_iff.mp lines'
  obtain ⟨code, labels⟩ := Program.prefix_of_ofLines linked linked'
  refine ⟨code, labels, ?_⟩
  intro input n all
  exact Run.calls_of_prefix code (linked_of_program assembled made) all

theorem appending_extends_of_jmp :
    let s : Text := "jmp e\nsav\ne:\n"
    let t : Text := "f:\nout\njmp f\n"
    let jump (name : Text) (start : Nat) (index : Int) : Instr :=
      { op := .jmp, label := some ⟨name, ⟨start, start + 1⟩⟩, target := some index }
    let p : Program := ⟨#[jump "e" 4 2, { op := .sav }], [("e", 2)]⟩
    let q : Program :=
      ⟨#[jump "e" 4 2, { op := .sav }, { op := .out }, jump "f" 24 2], [("e", 2), ("f", 2)]⟩
    s.Closed ∧ (ofSource s).map program = .ok (some p) ∧
      (ofSource (s ++ t)).map program = .ok (some q) ∧ (Run.calls p [] 1).steps = 1 ∧
      Run.calls q [] 1 = Run.calls p [] 1 ∧
      (Run.calls p [] 2).stop = some .halted ∧ (Run.calls q [] 2).stop = none := by
  intro s t jump p q
  have closed : s.Closed := .inr rfl
  have assembled : ofSource s = .ok ⟨[], [], some p⟩ := by decide +kernel
  have assembled' : ofSource (s ++ t) = .ok ⟨[], [], some q⟩ := by decide +kernel
  have all : (Run.calls p [] 1).steps = 1 := by decide +kernel
  obtain ⟨-, -, runs⟩ := appending_extends closed assembled rfl assembled' rfl
  refine ⟨closed, congrArg (Except.map program) assembled, congrArg (Except.map program) assembled',
    all, runs [] 1 all, by decide +kernel, by decide +kernel⟩

end Assembly

end TapeMachine
