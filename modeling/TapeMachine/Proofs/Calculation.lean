import TapeMachine.Proofs.Progress
import TapeMachine.Proofs.Stopping
import TapeMachine.Proofs.Words

namespace TapeMachine

def Opcode.compute (op : Opcode) (c operand : Int) : Int :=
  match op with
  | set => operand
  | add => c + operand
  | mul => c * operand
  | div => Word.quotient c operand
  | _ => c

theorem Store.act_compute {T : Type} {a : Access T} {here : Int} {i : Instr} {s : Store T}
    {v : Value} (takes : i.op.takesValue) (value : i.value = some v)
    (fits : Word.InRange (s.valueOf v)) (divides : i.op = .div → s.valueOf v ≠ 0) :
    s.act a here i =
      .ok { store := s.put a (Word.wrap (i.op.compute (s.cell a) (s.valueOf v))) } := by
  cases op : i.op with
  | set => simp only [act, op, operate, value, Opcode.compute, Word.wrap_of_inRange fits]
  | add | mul => simp only [act, op, operate, value, Opcode.compute]
  | div =>
    simp only [act, op, operate, value, Opcode.compute, divide, if_neg (divides op),
      Word.quotient_eq_tdiv]
  | gol | gor | get | put | jmp | jnz | jlz | sav | ret | inp | out | dec =>
    rw [op] at takes
    cases takes

namespace Machine
variable {p : Program} {m : Machine} {i : Instr} {v : Value}

/-- Arithmetic completes unless it divides by zero, and it changes nothing but the cell. -/
theorem step_compute (settled : m.jumped = false) (inside : m.ip < p.code.size)
    (fetched : p.fetch m.ip = some i) (takes : i.op.takesValue) (value : i.value = some v)
    (fits : Word.InRange (m.valueOf v)) (divides : i.op = .div → m.valueOf v ≠ 0) :
    m.step p =
      { machine :=
          { m.setCell (Word.wrap (i.op.compute m.cell (m.valueOf v))) with ip := m.ip + 1 } } := by
  rw [← store_valueOf] at fits divides ⊢
  exact step_of_act_ok settled inside fetched (Store.act_compute takes value fits divides) rfl

end Machine

/-! Stretches of sums and products. -/

/-- `set`, `add` or `mul` with a number that fits into a word or with the first register. -/
structure Instr.Plain (i : Instr) : Prop where
  op : i.op = .set ∨ i.op = .add ∨ i.op = .mul
  operand : ∃ v, i.value = some v ∧ v.Fits

def Instr.exact (x c : Int) (i : Instr) : Int :=
  match i.value with
  | some (.number n) => i.op.compute c n
  | some (.register _) => i.op.compute c x
  | none => c

namespace Instr
variable {i : Instr}

theorem exact_of_value {v : Value} (value : i.value = some v) (m : Machine) (c : Int) :
    i.exact m.x c = i.op.compute c (m.valueOf v) := by
  unfold exact
  rw [value]
  cases v <;> rfl

theorem Plain.takesValue (plain : i.Plain) : i.op.takesValue := by
  rcases plain.op with op | op | op <;> rw [op] <;> rfl

theorem Plain.not_div (plain : i.Plain) : i.op ≠ .div := by
  rcases plain.op with op | op | op <;> rw [op] <;> decide

/-- Whether the cell has been wrapped before makes no difference to what is wrapped then. -/
theorem Plain.wrap_exact (plain : i.Plain) (x c : Int) :
    Word.wrap (i.exact x (Word.wrap c)) = Word.wrap (i.exact x c) := by
  have any (operand : Int) : Word.wrap (i.op.compute (Word.wrap c) operand) =
      Word.wrap (i.op.compute c operand) := by
    rcases plain.op with op | op | op
    · rw [op]
      rfl
    · rw [op]
      exact Word.wrap_add c operand
    · rw [op]
      exact Word.wrap_mul c operand
  obtain ⟨v, value, -⟩ := plain.operand
  unfold exact
  rw [value]
  cases v with
  | number n => exact any n
  | register r => exact any x

end Instr

theorem Value.Fits.inRange {v : Value} (fits : v.Fits) {m : Machine} (x : Word.InRange m.x) :
    Word.InRange (m.valueOf v) := by
  cases v with
  | number n => exact fits
  | register r => exact x

theorem Program.fetch_of_placed {q : Program} {ip : Int} {i : Instr} {is : List Instr}
    (nonneg : 0 ≤ ip) (placed : i :: is <+: q.code.toList.drop ip.toNat) :
    ip < q.code.size ∧ q.fetch ip = some i ∧ is <+: q.code.toList.drop (ip + 1).toNat := by
  obtain ⟨k, rfl⟩ := Int.eq_ofNat_of_zero_le nonneg
  rw [Int.toNat_natCast] at placed
  have inside : k < q.code.toList.length := by
    apply Nat.lt_of_not_le
    intro past
    rw [List.drop_eq_nil_of_le past] at placed
    exact absurd (List.prefix_nil.mp placed) (List.cons_ne_nil i is)
  rw [List.drop_eq_getElem_cons inside, List.cons_prefix_cons] at placed
  obtain ⟨first, others⟩ := placed
  refine ⟨?_, ?_, others⟩
  · rw [Array.length_toList] at inside
    omega
  · rw [Program.fetch_natCast, first]
    simp

namespace Run

/-- What `k` completed instructions have made of a run that change only the cell under the cursor,
to `c`, and do not write. -/
structure Computed (r : Run) (k : Nat) (c : Int) (r' : Run) : Prop where
  machine : r'.machine = { r.machine with tape := r'.machine.tape, ip := r.machine.ip + k }
  cell : r'.machine.cell = c
  others : ∀ j, j ≠ r.machine.cursor → r'.machine.tape.get j = r.machine.tape.get j
  length : r'.machine.tape.length =
    if k = 0 then r.machine.tape.length
    else max r.machine.tape.length (r.machine.cursor + 1)
  steps : r'.steps = r.steps + k
  written : r'.written = r.written

variable {q : Program} {r : Run} {i : Instr} {is : List Instr}

theorem next_plain (plain : i.Plain) (ready : r.machine.Ready) (x : Word.InRange r.machine.x)
    (placed : i :: is <+: q.code.toList.drop r.machine.ip.toNat) :
    r.next q =
      { r with
        machine := { r.machine.setCell (Word.wrap (i.exact r.machine.x r.machine.cell)) with
          ip := r.machine.ip + 1 }
        steps := r.steps + 1
        stop := none } := by
  obtain ⟨inside, fetched, -⟩ := Program.fetch_of_placed ready.ip placed
  obtain ⟨v, value, fits⟩ := plain.operand
  rw [next, Machine.step_compute ready.settled inside fetched plain.takesValue value
    (fits.inRange x) fun div => absurd div plain.not_div, ← Instr.exact_of_value value]
  simp

theorem Computed.cons {k : Nat} {c d : Int} {r' : Run}
    (computed : Computed { r with
      machine := { r.machine.setCell d with ip := r.machine.ip + 1 }
      steps := r.steps + 1
      stop := none } k c r') : Computed r (k + 1) c r' := by
  obtain ⟨machine, cell, others, length, steps, written⟩ := computed
  refine ⟨?_, cell, ?_, ?_, ?_, written⟩
  · have further : r.machine.ip + 1 + k = r.machine.ip + (k + 1 : Nat) := by omega
    rw [further] at machine
    exact machine
  · intro j other
    have before : (r.machine.setCell d).tape.get j = r.machine.tape.get j := by
      rw [Machine.setCell, Tape.get_put, if_neg (Ne.symm other)]
    exact (others j other).trans before
  · have stored : (r.machine.setCell d).tape.length =
        max r.machine.tape.length (r.machine.cursor + 1) := Tape.length_put _ _ _
    have cursor : (r.machine.setCell d).cursor = r.machine.cursor := rfl
    dsimp only at length
    rw [stored, cursor] at length
    rw [if_neg (Nat.succ_ne_zero k)]
    split at length <;> omega
  · dsimp only at steps
    omega

theorem iterate_plain (plain : ∀ i ∈ is, i.Plain) (ready : r.machine.Ready)
    (x : Word.InRange r.machine.x) (placed : is <+: q.code.toList.drop r.machine.ip.toNat)
    {c : Int} (cell : r.machine.cell = Word.wrap c) :
    Computed r is.length (Word.wrap (is.foldl (Instr.exact r.machine.x) c))
      ((next q)^[is.length] r) := by
  induction is generalizing r c with
  | nil => exact ⟨by simp, cell, fun _ _ => rfl, rfl, rfl, rfl⟩
  | cons i is ih =>
    have first := List.forall_mem_cons.mp plain
    have step := next_plain first.1 ready x placed
    -- it makes no difference that the cell has been wrapped before
    rw [cell, first.1.wrap_exact] at step
    obtain ⟨-, -, others⟩ := Program.fetch_of_placed ready.ip placed
    rw [List.length_cons, Function.iterate_succ_apply, step]
    apply Computed.cons
    apply ih first.2
    · exact ⟨by have := ready.ip; dsimp only; omega, ready.settled⟩
    · exact x
    · exact others
    · exact Machine.cell_setCell r.machine (Word.wrap (i.exact r.machine.x c))

end Run

/-- From whatever state a run has come to, a stretch of sums and products in its own program or in
any other leaves in the cell what the exact number is wrapped to, the only word congruent to it. No
other cell changes, and the tape ends with the cell if it did not reach that far. (The program has
to be short enough for its indices to be words: `sav` stores them as they are.) -/
theorem straight_line_exact {source : Text} {assembly : Assembly} {p : Program}
    (assembled : Assembly.ofSource source = .ok assembly) (made : assembly.program = some p)
    (short : p.code.size < 2 ^ 63) (stream : Stream) (n : Nat) {q : Program} {is : List Instr}
    (plain : ∀ i ∈ is, i.Plain)
    (placed : is <+: q.code.toList.drop (Run.after p stream n).machine.ip.toNat) :
    let r := Run.after p stream n
    (∀ v w : Int, Word.wrap v = w ↔ Word.InRange w ∧ w ≡ v [ZMOD 2 ^ 64]) ∧
      r.Computed is.length (Word.wrap (is.foldl (Instr.exact r.machine.x) r.machine.cell))
        ((Run.next q)^[is.length] r) := by
  intro r
  have linked := Assembly.linked_of_program assembled made
  have ready : r.machine.Ready := Run.after_ready linked stream n
  have ranged : r.machine.store.Ranged := Run.after_ranged linked short stream n
  have cell : Word.InRange r.machine.cell := ranged.cell
  refine ⟨fun v w => Word.wrap_eq_iff, ?_⟩
  apply Run.iterate_plain plain ready ranged.x placed
  exact (Word.wrap_of_inRange cell).symm

theorem straight_line_exact_of_add_mul :
    let is : List Instr :=
      [{ op := .set, value := some (.number 9223372036854775807) },
        { op := .add, value := some (.number 1) }, { op := .mul, value := some (.number 3) }]
    let p : Program := ⟨is.toArray, []⟩
    Assembly.ofSource "set 9223372036854775807\nadd 1\nmul 3\n" = .ok ⟨[], [], some p⟩ ∧
      is.foldl (Instr.exact 0) 0 = 27670116110564327424 ∧
      (Run.opening (.text [])).Computed 3 (-9223372036854775808) (Run.after p (.text []) 3) := by
  intro is p
  have assembled :
      Assembly.ofSource "set 9223372036854775807\nadd 1\nmul 3\n" = .ok ⟨[], [], some p⟩ := by
    decide +kernel
  have plain : ∀ i ∈ is, i.Plain := by
    have greatest : Word.InRange 9223372036854775807 := by decide
    have one : Word.InRange 1 := by decide
    have three : Word.InRange 3 := by decide
    simp only [is, List.forall_mem_cons, List.not_mem_nil, false_imp_iff, implies_true, and_true]
    exact ⟨⟨.inl rfl, _, rfl, greatest⟩, ⟨.inr (.inl rfl), _, rfl, one⟩,
      ⟨.inr (.inr rfl), _, rfl, three⟩⟩
  obtain ⟨-, computed⟩ := straight_line_exact (q := p) assembled rfl (by decide) (.text []) 0 plain
    (List.prefix_refl is)
  exact ⟨assembled, by decide, computed⟩

/-- Division leaves in the cell the one number whose remainder is smaller than the divisor and has
the sign of the dividend, from whatever state a run has come to. Only the quotient of the least
word by -1 is changed by wrapping, back into the dividend. -/
theorem division_exact {source : Text} {assembly : Assembly} {p : Program}
    (assembled : Assembly.ofSource source = .ok assembly) (made : assembly.program = some p)
    (short : p.code.size < 2 ^ 63) (stream : Stream) (n : Nat) :
    (∀ a b : Int, b ≠ 0 → ∀ q, Word.quotient a b = q ↔ Word.Remainder a b (a - q * b)) ∧
      let m := (Run.after p stream n).machine
      ∀ i v, m.ip < p.code.size → p.fetch m.ip = some i → i.op = .div → i.value = some v →
        let a := m.cell
        let b := m.valueOf v
        let q := Word.quotient a b
        let stored := if a = -2 ^ 63 ∧ b = -1 then -2 ^ 63 else q
        (b = 0 → m.step p = m.stopped (.fault (.divisionByZero m.ip))) ∧
          (b ≠ 0 → m.step p = { machine := { m.setCell stored with ip := m.ip + 1 } }) ∧
          (Word.wrap q ≠ q ↔ a = -2 ^ 63 ∧ b = -1) := by
  refine ⟨fun a b => Word.quotient_eq_iff, ?_⟩
  intro m i v inside fetched op value a b q stored
  have linked := Assembly.linked_of_program assembled made
  have settled : m.jumped = false := (Run.after_ready linked stream n).settled
  have ranged : m.store.Ranged := Run.after_ranged linked short stream n
  have fits : v.Fits := (linked i (Program.mem_of_fetch fetched)).fits v value
  have operand : m.store.valueOf v = b := m.store_valueOf v
  have word : Word.InRange q ↔ ¬ (a = -2 ^ 63 ∧ b = -1) :=
    Word.quotient_inRange_iff ranged.cell b
  refine ⟨?_, ?_, ?_⟩
  · intro zero
    apply Machine.step_of_act_error settled inside fetched
    have divides : Store.divide m.ip (m.store.cell .stored) b =
        .error (.fault (.divisionByZero m.ip)) := Store.divide_error.mpr ⟨zero, rfl⟩
    simp only [Store.act, op, Store.operate, value, operand, divides]
  · intro nonzero
    have takes : i.op.takesValue := by rw [op]; rfl
    -- only the least word by -1 leaves the words, and wrapping brings that back
    have wrapped : Word.wrap q = stored := by
      unfold stored
      split
      · rename_i least
        rw [show q = Word.quotient (-2 ^ 63) (-1) by rw [← least.1, ← least.2]]
        decide
      · rename_i other
        exact Word.wrap_of_inRange (word.mpr other)
    rw [Machine.step_compute settled inside fetched takes value (fits.inRange ranged.x)
      fun _ => nonzero, op]
    exact congrArg (fun c => ({ machine := { m.setCell c with ip := m.ip + 1 } } : Outcome)) wrapped
  · rw [Ne, Word.wrap_eq_self_iff, word, not_not]

theorem division_exact_of_least :
    let i : Instr := { op := .div, value := some (.number (-1)) }
    let p : Program :=
      ⟨#[{ op := .set, value := some (.number (-9223372036854775808)) }, i], []⟩
    let m := (Run.after p (.text []) 1).machine
    Assembly.ofSource "set -9223372036854775808\ndiv -1\n" = .ok ⟨[], [], some p⟩ ∧
      m.cell = -2 ^ 63 ∧ Word.quotient m.cell (-1) = 2 ^ 63 ∧
      m.step p = { machine := { m.setCell (-2 ^ 63) with ip := 2 } } := by
  intro i p m
  have assembled :
      Assembly.ofSource "set -9223372036854775808\ndiv -1\n" = .ok ⟨[], [], some p⟩ := by
    decide +kernel
  have cell : m.cell = -2 ^ 63 := by decide
  have fetched : p.fetch m.ip = some i := by decide
  obtain ⟨-, divisions⟩ := division_exact assembled rfl (by decide) (.text []) 1
  obtain ⟨-, stores, -⟩ := divisions i (.number (-1)) (by decide) fetched rfl rfl
  have least : m.cell = -2 ^ 63 ∧ m.valueOf (.number (-1)) = -1 := ⟨cell, rfl⟩
  have stored := stores (by decide)
  rw [if_pos least] at stored
  exact ⟨assembled, cell, by decide, stored⟩

end TapeMachine
