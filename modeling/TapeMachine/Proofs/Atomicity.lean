import TapeMachine.Proofs.Progress

/-! Calls that do not complete. Whatever state a call is made in, it stops before it has changed
anything: a byte is asked for before the cell is stored, a divisor is looked at before the cell
is, and the cell that a bad return has looked at is not zero, so it was stored before. -/
namespace TapeMachine

theorem Stream.takeLine_ne_nil {s rest : Stream} {line : Text}
    (took : s.takeLine = .ok (line, rest)) : line ≠ [] := by
  cases s with
  | text unread =>
    cases unread with
    | nil => cases took
    | cons c more =>
      cases took
      exact cutLine_ne_nil (List.cons_ne_nil c more)
  | cut unread =>
    simp only [takeLine] at took
    split at took
    · rename_i whole
      cases took
      exact cutLine_ne_nil (List.ne_nil_of_mem whole)
    · cases took
  | broken | interrupted => cases took

namespace Input

theorem nextLine_nonempty {i filled : Input} (took : i.nextLine = .ok filled) :
    filled.offset = 0 ∧ 0 < filled.buffer.size := by
  unfold nextLine at took
  split at took
  · rename_i line rest read
    cases took
    have bytes := encode_ne_nil (Stream.takeLine_ne_nil read)
    exact ⟨rfl, by simpa using List.length_pos_iff.mpr bytes⟩
  · cases took

theorem next_error {i : Input} {why : NoByte} (inside : i.offset ≤ i.buffer.size)
    (failed : i.next = .error why) :
    ∃ reason, why = .line reason ∧ i.offset = i.buffer.size ∧
      i.stream.takeLine = .error reason := by
  by_cases exhausted : i.offset = i.buffer.size
  · have spent : i.exhausted = true := by simp [Input.exhausted, exhausted]
    unfold next at failed
    rw [if_pos spent] at failed
    cases took : i.nextLine with
    | error reason =>
      rw [took] at failed
      cases failed
      refine ⟨reason, rfl, exhausted, ?_⟩
      unfold nextLine at took
      split at took
      · cases took
      · rename_i unread
        cases took
        exact unread
    | ok filled =>
      rw [took] at failed
      obtain ⟨start, bytes⟩ := nextLine_nonempty took
      have delivered := take_eq filled (by omega)
      dsimp only at failed
      rw [delivered] at failed
      split at failed <;> cases failed
  · have unspent : ¬ i.exhausted = true := by simp [Input.exhausted, exhausted]
    unfold next at failed
    rw [if_neg unspent, take_eq i (by omega)] at failed
    cases failed

end Input

theorem Program.before_of_fetch_none {p : Program} {ip : Int} (inside : ip < p.code.size)
    (absent : p.fetch ip = none) : ip + p.code.size < 0 := by
  unfold fetch at absent
  split at absent
  · rw [Array.getElem?_eq_none_iff] at absent
    omega
  · split at absent
    · rw [Array.getElem?_eq_none_iff] at absent
      omega
    · omega

theorem SymbolTable.destination_error {labels : SymbolTable} {i : Instr} {why : Stop}
    (labelled : i.label.isSome) (failed : labels.destination i = .error why) :
    i.target = none ∧ ∃ token, i.label = some token ∧ labels.lookup token.text = none ∧
      why = .unbound ⟨token.text⟩ := by
  obtain ⟨token, label⟩ := Option.isSome_iff_exists.mp labelled
  unfold destination at failed
  cases target : i.target with
  | some index =>
    rw [target] at failed
    cases failed
  | none =>
    simp only [target, label, find] at failed
    cases found : labels.lookup token.text with
    | some index =>
      rw [found] at failed
      cases failed
    | none =>
      rw [found] at failed
      cases failed
      exact ⟨rfl, token, label, found, rfl⟩

namespace Machine

variable {p : Program} {labels : SymbolTable} {m : Machine} {i : Instr} {why : Stop}

/-- The reasons why a call does not complete, each under its own condition. -/
inductive Raises (p : Program) (m : Machine) : Stop → Prop
  | halted (past : p.code.size ≤ m.ip) : Raises p m .halted
  | outside (before : m.ip + p.code.size < 0) : Raises p m .noInstruction
  | division {i : Instr} (fetched : p.fetch m.ip = some i) (op : i.op = .div)
      (zero : i.value.map m.valueOf = some 0) : Raises p m (.fault (.divisionByZero m.ip))
  | address {i : Instr} (fetched : p.fetch m.ip = some i) (op : i.op = .ret)
      (negative : m.cell < 0) : Raises p m (.fault (.badReturn m.cell))
  | unread {i : Instr} {reason : NoLine} (fetched : p.fetch m.ip = some i) (op : i.op = .inp)
      (delivered : m.input.offset = m.input.buffer.size)
      (none : m.input.stream.takeLine = .error reason) : Raises p m reason.stop
  | unbound {i : Instr} {token : Token} (fetched : p.fetch m.ip = some i)
      (jump : i.op.takesLabel) (unlinked : i.target = none) (label : i.label = some token)
      (missing : p.labels.lookup token.text = none) : Raises p m (.unbound ⟨token.text⟩)

/-- An instruction that stops has failed to act or to find the label that it goes to, and the
machine is still as it was. -/
theorem perform_stopped (stop : (m.perform labels i).stop = some why) :
    m.perform labels i = m.stopped why ∧ (m.store.act .stored m.ip i = .error why ∨
      i.op.takesLabel ∧ labels.destination i = .error why) := by
  rw [perform_eq_act] at stop ⊢
  cases acts : m.store.act .stored m.ip i with
  | error reason =>
    rw [acts] at stop
    cases stop
    exact ⟨rfl, .inl rfl⟩
  | ok e =>
    simp only [acts] at stop ⊢
    cases way : e.way with
    | next =>
      simp only [complete, way] at stop
      cases stop
    | number k =>
      simp only [complete, way] at stop
      cases stop
    | label =>
      -- a jump goes from the store that it was fetched in
      obtain ⟨jump, rfl⟩ := Store.act_label acts way
      simp only [complete, withStore_store, jump_eq] at stop ⊢
      cases destination : labels.destination i with
      | ok index =>
        rw [destination] at stop
        cases stop
      | error reason =>
        rw [destination] at stop
        cases stop
        exact ⟨rfl, .inr ⟨jump, rfl⟩⟩

theorem raises_of_act (fetched : p.fetch m.ip = some i) (wellFormed : i.WellFormed)
    (inside : m.input.offset ≤ m.input.buffer.size)
    (failed : m.store.act .stored m.ip i = .error why) : Raises p m why := by
  rcases Store.act_error wellFormed failed with
    ⟨op, zero, rfl⟩ | ⟨op, negative, rfl⟩ | ⟨op, reason, next, rfl⟩
  · have value : m.store.valueOf = m.valueOf := funext m.store_valueOf
    exact .division fetched op (value ▸ zero)
  · exact .address fetched op negative
  · obtain ⟨reason, rfl, delivered, none⟩ := Input.next_error inside next
    exact .unread fetched op delivered none

/-- A call that does not complete changes nothing and writes nothing, in whatever state it is
made, and it has one of six reasons. -/
theorem step_atomic (shaped : ∀ i, p.fetch m.ip = some i → i.WellFormed)
    (inside : m.input.offset ≤ m.input.buffer.size) (stop : (m.step p).stop = some why) :
    (m.step p).machine = m ∧ (m.step p).written = [] ∧ Raises p m why := by
  unfold step at stop ⊢
  by_cases past : p.code.size ≤ m.ip
  · rw [if_pos past] at stop ⊢
    cases stop
    exact ⟨rfl, rfl, .halted past⟩
  · rw [if_neg past] at stop ⊢
    cases fetched : p.fetch m.ip with
    | none =>
      simp only [fetched] at stop ⊢
      cases stop
      exact ⟨rfl, rfl, .outside (Program.before_of_fetch_none (by omega) fetched)⟩
    | some i =>
      simp only [fetched] at stop ⊢
      cases performed : (m.perform p.labels i).stop with
      | none =>
        simp only [performed] at stop
        cases stop
      | some reason =>
        simp only [performed] at stop ⊢
        cases stop
        have wellFormed := shaped i fetched
        obtain ⟨same, failed | ⟨jump, failed⟩⟩ := perform_stopped performed
        · rw [same]
          exact ⟨rfl, rfl, raises_of_act fetched wellFormed inside failed⟩
        · have labelled : i.label.isSome := by rw [wellFormed.label, jump]
          obtain ⟨unlinked, token, label, missing, rfl⟩ :=
            SymbolTable.destination_error labelled failed
          rw [same]
          exact ⟨rfl, rfl, .unbound fetched jump unlinked label missing⟩

theorem step_atomic_of_div_jlz :
    let p : Program :=
      ⟨#[{ op := .div, value := some (.register .x) },
        { op := .jlz, reg := some .acc, label := some ⟨"out", ⟨14, 17⟩⟩ }], [("in", 0)]⟩
    let m : Machine := { acc := -1, cursor := 4 }
    let n : Machine := { m with ip := 1, jumped := true }
    (m.step p).stop = some (.fault (.divisionByZero 0)) ∧ (m.step p).machine.tape.length = 0 ∧
      (n.step p).stop = some (.unbound ⟨"out"⟩) ∧ (n.step p).machine = n := by
  intro p m n
  have shaped : ∀ i ∈ p.code, i.WellFormed := by
    intro i member
    have either : i = p.code[0] ∨ i = p.code[1] := by simpa [p] using member
    rcases either with rfl | rfl
    · exact ⟨rfl, rfl, rfl, by rintro v ⟨⟩; rfl⟩
    · exact ⟨rfl, rfl, rfl, nofun⟩
  have divided : (m.step p).stop = some (.fault (.divisionByZero 0)) := by decide
  have jumped : (n.step p).stop = some (.unbound ⟨"out"⟩) := by decide
  have first := step_atomic (fun i fetched => shaped i (Program.mem_of_fetch fetched))
    (Nat.le_refl 0) divided
  have second := step_atomic (fun i fetched => shaped i (Program.mem_of_fetch fetched))
    (Nat.le_refl 0) jumped
  refine ⟨divided, ?_, jumped, second.1⟩
  rw [first.1]
  rfl

end Machine

end TapeMachine
