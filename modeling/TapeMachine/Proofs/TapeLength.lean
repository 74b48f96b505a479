import TapeMachine.Proofs.Stopping

namespace TapeMachine

def Opcode.usesCell : Opcode → Bool
  | get | put | sav | ret | inp | out | set | add | mul | div => true
  | gol | gor | jmp | jnz | jlz | dec => false

namespace Store
variable {here : Int} {i : Instr} {s : Store Tape} {e : Effect Tape}

theorem length_put (s : Store Tape) (v : Int) :
    (s.put .stored v).tape.length = max s.tape.length (s.cursor + 1) :=
  Tape.length_put s.tape s.cursor v

theorem length_touch (s : Store Tape) :
    (s.touch .stored).tape.length = max s.tape.length (s.cursor + 1) :=
  Tape.length_extend s.tape s.cursor

theorem act_tape (acts : s.act .stored here i = .ok e) (other : i.op.usesCell = false) :
    e.store.tape = s.tape := by
  cases op : i.op with
  | gol | gor | jmp | jnz | jlz | dec =>
    simp only [act, op] at acts
    cases acts
    rfl
  | get | put | sav | ret | inp | out | set | add | mul | div =>
    rw [op] at other
    cases other

theorem act_length (acts : s.act .stored here i = .ok e) (uses : i.op.usesCell = true) :
    e.store.tape.length = max s.tape.length (s.cursor + 1) := by
  cases op : i.op with
  | gol | gor | jmp | jnz | jlz | dec =>
    rw [op] at uses
    cases uses
  | get | sav =>
    simp only [act, op] at acts
    cases acts
    exact length_put s _
  | put =>
    simp only [act, op] at acts
    cases acts
    rw [(setRegister_others _ i.reg _).1, length_touch]
  | ret =>
    simp only [act, op] at acts
    split at acts
    · cases acts
    · cases acts
      exact length_touch s
  | inp =>
    simp only [act, op] at acts
    split at acts
    · cases acts
      exact length_put _ _
    · cases acts
  | out =>
    simp only [act, op] at acts
    cases acts
    exact length_touch s
  | set | add | mul | div =>
    simp only [act, op] at acts
    obtain ⟨result, store⟩ := operate_ok acts
    rw [store, length_put]

theorem act_cursor (acts : s.act .stored here i = .ok e) : e.store.cursor ≤ s.cursor + 1 := by
  cases op : i.op with
  | gol =>
    simp only [act, op] at acts
    cases acts
    exact Nat.le_trans (Nat.sub_le _ _) (Nat.le_succ _)
  | gor =>
    simp only [act, op] at acts
    cases acts
    exact Nat.le_refl _
  | get | sav | out | jmp | jnz | jlz | dec =>
    simp only [act, op] at acts
    cases acts
    exact Nat.le_succ _
  | put =>
    simp only [act, op] at acts
    cases acts
    rw [(setRegister_others _ i.reg _).2.1]
    exact Nat.le_succ _
  | ret | inp =>
    simp only [act, op] at acts
    split at acts <;> cases acts
    exact Nat.le_succ _
  | set | add | mul | div =>
    simp only [act, op] at acts
    obtain ⟨result, store⟩ := operate_ok acts
    rw [store]
    exact Nat.le_succ _

theorem act_length_le (acts : s.act .stored here i = .ok e) :
    s.tape.length ≤ e.store.tape.length ∧
      e.store.tape.length ≤ max s.tape.length (s.cursor + 1) := by
  cases uses : i.op.usesCell with
  | true =>
    rw [act_length acts uses]
    omega
  | false =>
    rw [act_tape acts uses]
    omega

end Store

/-- The cells that completed instructions have used, from the first up to the furthest. -/
def Completion.reach (cs : List Completion) : Nat :=
  ((cs.filter (·.instr.op.usesCell)).map (·.machine.cursor + 1)).foldl max 0

theorem Completion.reach_append (cs : List Completion) (c : Completion) :
    reach (cs ++ [c]) =
      if c.instr.op.usesCell then max (reach cs) (c.machine.cursor + 1) else reach cs := by
  unfold reach
  rw [List.filter_append]
  split
  · rename_i uses
    simp [uses]
  · rename_i other
    simp [other]

namespace Run
variable {p : Program}

namespace Goes
variable {r r' : Run} {done done' : List Completion}

theorem length_eq_reach (goes : Goes p r done r' done')
    (reached : r.machine.tape.length = Completion.reach done) :
    r'.machine.tape.length = Completion.reach done' := by
  cases goes with
  | stopped why => exact reached
  | @completed i e ip inside fetched acts =>
    rw [Completion.reach_append, ← reached]
    split
    · rename_i uses
      exact Store.act_length acts uses
    · rename_i other
      exact congrArg Tape.length (Store.act_tape acts (by simpa using other))

theorem length_le (goes : Goes p r done r' done') :
    r.machine.tape.length ≤ r'.machine.tape.length := by
  cases goes with
  | stopped why => exact Nat.le_refl _
  | completed inside fetched acts => exact (Store.act_length_le acts).1

/-- Both the cursor and the end of the tape get one cell further with an instruction at most. -/
theorem cursor_length_le (goes : Goes p r done r' done')
    (bounded : r.machine.cursor ≤ r.steps ∧ r.machine.tape.length ≤ r.steps) :
    r'.machine.cursor ≤ r'.steps ∧ r'.machine.tape.length ≤ r'.steps := by
  obtain ⟨cursor, length⟩ := bounded
  cases goes with
  | stopped why => exact ⟨cursor, length⟩
  | @completed i e ip inside fetched acts =>
    have moved : e.store.cursor ≤ r.machine.cursor + 1 := Store.act_cursor acts
    have grown : e.store.tape.length ≤ max r.machine.tape.length (r.machine.cursor + 1) :=
      (Store.act_length_le acts).2
    constructor
    · exact Nat.le_trans moved (Nat.succ_le_succ cursor)
    · refine Nat.le_trans grown (Nat.max_le.mpr ⟨?_, Nat.succ_le_succ cursor⟩)
      exact Nat.le_succ_of_le length

theorem tape_kept (goes : Goes p r done r' done')
    (idle : r'.stop.isSome ∨ ∃ i, p.fetch r.machine.ip = some i ∧ i.op.usesCell = false) :
    r'.machine.tape = r.machine.tape := by
  cases goes with
  | stopped why => rfl
  | completed inside fetched acts =>
    rcases idle with stopped | ⟨j, fetched', other⟩
    · cases stopped
    · rw [fetched] at fetched'
      cases fetched'
      exact Store.act_tape acts other

end Goes

theorem length_mono (linked : ∀ i ∈ p.code, i.Linked p.code.size) (input : Text) {n k : Nat}
    (later : n ≤ k) :
    (calls p input n).machine.tape.length ≤ (calls p input k).machine.tape.length := by
  induction later with
  | refl => exact Nat.le_refl _
  | @step k later ih => exact Nat.le_trans ih (calls_cases linked input k).length_le

end Run

/-- After any number of calls the tape is as long as the furthest cell demands that a completed
instruction has used; it never gets shorter and has at most a cell for every completed instruction.
A call that does not complete, or whose instruction uses no cell, leaves it alone. -/
theorem tape_length_exact {source : Text} {assembly : Assembly} {p : Program}
    (assembled : Assembly.ofSource source = .ok assembly) (made : assembly.program = some p)
    (input : Text) (n : Nat) :
    let r := Run.calls p input n
    let completed := Run.history p input n
    let used := completed.filter (·.instr.op.usesCell)
    completed.length = r.steps ∧
      r.machine.tape.length = (used.map (·.machine.cursor + 1)).foldl max 0 ∧
      (∀ k, n ≤ k → r.machine.tape.length ≤ (Run.calls p input k).machine.tape.length) ∧
      r.machine.tape.length ≤ r.steps ∧
      ((Run.calls p input (n + 1)).stop.isSome ∨
          (∃ i, p.fetch r.machine.ip = some i ∧ i.op.usesCell = false) →
        (Run.calls p input (n + 1)).machine.tape = r.machine.tape) := by
  intro r completed used
  have linked := Assembly.linked_of_program assembled made
  have reached : r.machine.tape.length = Completion.reach completed :=
    Run.calls_keep linked rfl Run.Goes.length_eq_reach n
  have bounded : r.machine.cursor ≤ r.steps ∧ r.machine.tape.length ≤ r.steps :=
    Run.calls_keep linked ⟨Nat.le_refl 0, Nat.le_refl 0⟩ Run.Goes.cursor_length_le n
  refine ⟨Run.length_history linked input n, reached, ?_, bounded.2,
    (Run.calls_cases linked input n).tape_kept⟩
  intro k later
  exact Run.length_mono linked input later

theorem tape_length_exact_of_div :
    let zero : Option Value := some (.register .x)
    let p : Program :=
      ⟨#[{ op := .put, reg := some .x }, { op := .gor }, { op := .gor },
        { op := .div, value := zero }], []⟩
    let r := Run.calls p [] 3
    Assembly.ofSource "put x\ngor\ngor\ndiv x\n" = .ok ⟨[], [], some p⟩ ∧
      r.machine.cursor = 2 ∧ r.machine.tape.length = 1 ∧
      (Run.calls p [] 4).stop = some (.fault (.divisionByZero 3)) ∧
      (Run.calls p [] 4).machine.tape = r.machine.tape := by
  intro zero p r
  have assembled : Assembly.ofSource "put x\ngor\ngor\ndiv x\n" = .ok ⟨[], [], some p⟩ := by
    decide +kernel
  have stop : (Run.calls p [] 4).stop = some (.fault (.divisionByZero 3)) := by decide +kernel
  obtain ⟨-, length, -, -, kept⟩ := tape_length_exact assembled rfl [] 3
  refine ⟨assembled, by decide +kernel, ?_, stop, kept (.inl (by rw [stop]; rfl))⟩
  rw [show r.machine.tape.length = _ from length]
  decide +kernel

end TapeMachine
