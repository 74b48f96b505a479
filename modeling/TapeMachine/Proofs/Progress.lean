import TapeMachine.Proofs.Invariant

namespace TapeMachine

namespace Store
variable {T : Type} {a : Access T} {here : Int} {i : Instr} {s : Store T} {why : Stop}

inductive Fails (a : Access T) (here : Int) (i : Instr) (s : Store T) : Stop → Prop
  | division (op : i.op = .div) (zero : i.value.map s.valueOf = some 0) :
      Fails a here i s (.fault (.divisionByZero here))
  | address (op : i.op = .ret) (negative : s.cell a < 0) :
      Fails a here i s (.fault (.badReturn (s.cell a)))
  | ended (op : i.op = .inp) (delivered : s.input.offset = s.input.buffer.size)
      (unread : s.input.stream = .text []) : Fails a here i s (.fault .inputEnded)

theorem operate_error {operand : Option Value} {f : Int → Int → Except Stop Int}
    (present : operand.isSome) (failed : s.operate a operand f = .error why) :
    ∃ v, operand = some v ∧ f (s.cell a) (s.valueOf v) = .error why := by
  obtain ⟨v, rfl⟩ := Option.isSome_iff_exists.mp present
  refine ⟨v, rfl, ?_⟩
  unfold operate at failed
  dsimp only at failed
  split at failed
  · cases failed
  · rename_i computed
    cases failed
    exact computed

theorem divide_error {x y : Int} :
    divide here x y = .error why ↔ y = 0 ∧ why = .fault (.divisionByZero here) := by
  unfold divide
  by_cases zero : y = 0
  · rw [if_pos zero]
    constructor
    · intro failed
      cases failed
      exact ⟨zero, rfl⟩
    · rintro ⟨-, rfl⟩
      rfl
  · rw [if_neg zero]
    constructor
    · intro failed
      cases failed
    · rintro ⟨isZero, -⟩
      exact absurd isZero zero

theorem act_error (wellFormed : i.WellFormed) (failed : s.act a here i = .error why) :
    i.op = .div ∧ i.value.map s.valueOf = some 0 ∧ why = .fault (.divisionByZero here) ∨
      i.op = .ret ∧ s.cell a < 0 ∧ why = .fault (.badReturn (s.cell a)) ∨
      i.op = .inp ∧ ∃ reason, s.input.next = .error reason ∧ why = reason.stop := by
  have operand : i.op.takesValue = true → i.value.isSome := fun takes => by
    rw [wellFormed.value, takes]
  cases op : i.op with
  | div =>
    simp only [act, op] at failed
    obtain ⟨v, value, divided⟩ := operate_error (operand (by rw [op]; rfl)) failed
    obtain ⟨zero, rfl⟩ := divide_error.mp divided
    exact .inl ⟨rfl, by rw [value, Option.map_some, zero], rfl⟩
  | ret =>
    simp only [act, op] at failed
    split at failed
    · rename_i negative
      cases failed
      exact .inr (.inl ⟨rfl, negative, rfl⟩)
    · cases failed
  | inp =>
    simp only [act, op] at failed
    cases next : s.input.next with
    | ok taken =>
      rw [next] at failed
      cases failed
    | error reason =>
      rw [next] at failed
      cases failed
      exact .inr (.inr ⟨rfl, reason, rfl, rfl⟩)
  | set | add | mul =>
    simp only [act, op] at failed
    obtain ⟨v, -, computed⟩ := operate_error (operand (by rw [op]; rfl)) failed
    cases computed
  | gol | gor | get | put | jmp | jnz | jlz | sav | out | dec =>
    simp only [act, op] at failed
    cases failed

theorem fails_of_error {whole : Text} (wellFormed : i.WellFormed) (sound : s.input.Sound whole)
    (failed : s.act a here i = .error why) : Fails a here i s why := by
  rcases act_error wellFormed failed with
    ⟨op, zero, rfl⟩ | ⟨op, negative, rfl⟩ | ⟨op, reason, next, rfl⟩
  · exact .division op zero
  · exact .address op negative
  · rcases Input.next_cases sound with ⟨ended, delivered, unread⟩ | ⟨_, _, delivers, -⟩
    · rw [ended] at next
      cases next
      exact .ended op delivered unread
    · rw [delivers] at next
      cases next

theorem error_of_fails {whole : Text} (sound : s.input.Sound whole) (fails : Fails a here i s why) :
    s.act a here i = .error why := by
  cases fails with
  | division op zero =>
    obtain ⟨v, value, zero⟩ := Option.map_eq_some_iff.mp zero
    have divided : divide here (s.cell a) (s.valueOf v) = .error (.fault (.divisionByZero here)) :=
      divide_error.mpr ⟨zero, rfl⟩
    simp only [act, op, operate, value, divided]
  | address op negative => simp only [act, op, if_pos negative]
  | ended op delivered unread =>
    rcases Input.next_cases sound with ⟨ended, -⟩ | ⟨_, _, -, -, more⟩
    · simp only [act, op, ended]
      rfl
    · exact absurd ⟨delivered, unread⟩ more

theorem act_error_iff {whole : Text} (wellFormed : i.WellFormed) (sound : s.input.Sound whole) :
    s.act a here i = .error why ↔ Fails a here i s why :=
  ⟨fails_of_error wellFormed sound, error_of_fails sound⟩

theorem fails_division : Fails a here i s (.fault (.divisionByZero here)) ↔
    i.op = .div ∧ i.value.map s.valueOf = some 0 := by
  constructor
  · intro fails
    cases fails with
    | division op zero => exact ⟨op, zero⟩
  · rintro ⟨op, zero⟩
    exact .division op zero

theorem fails_address : Fails a here i s (.fault (.badReturn (s.cell a))) ↔
    i.op = .ret ∧ s.cell a < 0 := by
  constructor
  · intro fails
    generalize same : s.cell a = address at fails
    cases fails with
    | address op negative => exact ⟨op, negative⟩
  · rintro ⟨op, negative⟩
    exact .address op negative

theorem fails_ended : Fails a here i s (.fault .inputEnded) ↔
    i.op = .inp ∧ s.input.offset = s.input.buffer.size ∧ s.input.stream = .text [] := by
  constructor
  · intro fails
    cases fails with
    | ended op delivered unread => exact ⟨op, delivered, unread⟩
  · rintro ⟨op, delivered, unread⟩
    exact .ended op delivered unread

end Store

namespace Machine
variable {p : Program} {m : Machine} {whole : Text}

theorem step_halted_iff (linked : ∀ i ∈ p.code, i.Linked p.code.size) (sound : m.Sound whole) :
    (m.step p).stop = some .halted ↔ p.code.size ≤ m.ip := by
  have steps := step_cases linked sound.ip sound.settled
  generalize m.step p = outcome at steps ⊢
  cases steps with
  | halted past => exact ⟨fun _ => past, fun _ => rfl⟩
  | @failed i why inside fetched fails =>
    have wellFormed := (linked i (Program.mem_of_fetch fetched)).toWellFormed
    constructor
    · intro halted
      cases halted
      cases Store.fails_of_error wellFormed sound.input fails
    · intro past
      omega
  | completed inside fetched acts nonneg reached =>
    constructor
    · intro halted
      cases halted
    · intro past
      omega

theorem step_stop_iff (linked : ∀ i ∈ p.code, i.Linked p.code.size) (sound : m.Sound whole)
    {i : Instr} (inside : m.ip < p.code.size) (fetched : p.fetch m.ip = some i) {why : Stop} :
    (m.step p).stop = some why ↔ m.store.Fails .stored m.ip i why := by
  have wellFormed := (linked i (Program.mem_of_fetch fetched)).toWellFormed
  rw [← Store.act_error_iff wellFormed sound.input]
  have steps := step_cases linked sound.ip sound.settled
  generalize m.step p = outcome at steps ⊢
  cases steps with
  | halted past => omega
  | failed _ fetched' fails =>
    rw [fetched] at fetched'
    cases fetched'
    rw [fails, Except.error.injEq, stopped, Option.some.injEq]
  | completed _ fetched' acts nonneg reached =>
    rw [fetched] at fetched'
    cases fetched'
    rw [acts]
    constructor
    · intro stopped
      cases stopped
    · intro failed
      cases failed

end Machine

/-- Whatever a run has come to, the next step completes or stops for one of four reasons, each
of them under its own condition. -/
theorem run_progress {source : Text} {assembly : Assembly} {p : Program}
    (assembled : Assembly.ofSource source = .ok assembly) (made : assembly.program = some p)
    (input : Text) (n : Nat) :
    let m := (Run.calls p input n).machine
    let stop := (m.step p).stop
    0 ≤ m.ip ∧
      (stop = none ∨ stop = some .halted ∨ stop = some (.fault (.divisionByZero m.ip)) ∨
        stop = some (.fault (.badReturn m.cell)) ∨ stop = some (.fault .inputEnded)) ∧
      (stop = some .halted ↔ p.code.size ≤ m.ip) ∧
      ∀ i, m.ip < p.code.size → p.fetch m.ip = some i →
        (stop = some (.fault (.divisionByZero m.ip)) ↔
          i.op = .div ∧ i.value.map m.valueOf = some 0) ∧
        (stop = some (.fault (.badReturn m.cell)) ↔ i.op = .ret ∧ m.cell < 0) ∧
        (stop = some (.fault .inputEnded) ↔
          i.op = .inp ∧ m.input.offset = m.input.buffer.size ∧ m.input.stream = .text []) := by
  intro m stop
  have linked := Assembly.linked_of_program assembled made
  have sound : m.Sound input := Run.calls_sound linked input n
  have halts : stop = some .halted ↔ p.code.size ≤ m.ip := Machine.step_halted_iff linked sound
  have stops : ∀ i, m.ip < p.code.size → p.fetch m.ip = some i → ∀ why,
      stop = some why ↔ m.store.Fails .stored m.ip i why :=
    fun i inside fetched why => Machine.step_stop_iff linked sound inside fetched
  refine ⟨sound.ip, ?_, halts, ?_⟩
  · cases reason : stop with
    | none => exact .inl rfl
    | some why =>
      by_cases past : p.code.size ≤ m.ip
      · rw [← reason, halts.mpr past]
        exact .inr (.inl rfl)
      · obtain ⟨i, fetched⟩ := Program.exists_fetch sound.ip (Int.lt_of_not_ge past)
        cases (stops i (Int.lt_of_not_ge past) fetched why).mp reason with
        | division => exact .inr (.inr (.inl rfl))
        | address => exact .inr (.inr (.inr (.inl rfl)))
        | ended => exact .inr (.inr (.inr (.inr rfl)))
  · intro i inside fetched
    have stops := stops i inside fetched
    have value : m.store.valueOf = m.valueOf := by
      funext v
      cases v <;> rfl
    refine ⟨?_, ?_, ?_⟩
    · rw [stops, Store.fails_division, value]
    · exact (stops _).trans Store.fails_address
    · exact (stops _).trans Store.fails_ended

theorem run_progress_of_div :
    let i : Instr := { op := .div, value := some (.register .x) }
    let p : Program := ⟨#[i], []⟩
    let m := (Run.calls p [] 1).machine
    Assembly.ofSource "div x\n" = .ok ⟨[], [], some p⟩ ∧
      (m.step p).stop = some (.fault (.divisionByZero m.ip)) ∧ (m.step p).stop ≠ some .halted := by
  intro i p m
  have assembled : Assembly.ofSource "div x\n" = .ok ⟨[], [], some p⟩ := by decide +kernel
  have inside : m.ip < p.code.size := by decide
  have fetched : p.fetch m.ip = some i := by decide
  obtain ⟨-, -, halted, reasons⟩ := run_progress assembled rfl [] 1
  obtain ⟨division, -, -⟩ := reasons i inside fetched
  refine ⟨assembled, division.mpr ⟨rfl, by decide⟩, ?_⟩
  intro stop
  exact absurd (halted.mp stop) (by decide)

end TapeMachine
