import Mathlib.Algebra.Group.Nat.Defs
import TapeMachine.Proofs.Execution
import TapeMachine.Proofs.Linking

/-! What holds of a machine at all times. Numbers stay in the range of a word because every
result is wrapped and every operand fits; the instruction pointer stays inside the program or
at its end, unless `ret` has just taken it from a cell; the line that is being delivered is
empty only before the first one. -/
namespace TapeMachine

namespace Input

/-- An input whose stream has held `whole` and nothing else. -/
structure Sound (whole : Text) (i : Input) : Prop where
  offset : i.offset ≤ i.buffer.size
  unread : i.buffer = #[] → i.stream = .text whole
  text : ∃ t, i.stream = .text t

variable {whole : Text} {i : Input}

theorem encode_ne_nil {t : Text} (h : t ≠ []) : Utf8.encode t ≠ [] := by
  cases t with
  | nil => exact absurd rfl h
  | cons c rest =>
    intro empty
    have first := (List.append_eq_nil_iff.mp empty).1
    exact String.utf8EncodeChar_ne_nil first

theorem nextLine_ok {filled : Input} {t : Text} (stream : i.stream = .text t)
    (took : i.nextLine = .ok filled) :
    filled.offset = 0 ∧ 0 < filled.buffer.size ∧ ∃ rest, filled.stream = .text rest := by
  unfold nextLine at took
  rw [stream] at took
  cases t with
  | nil => cases took
  | cons c rest =>
    cases took
    refine ⟨rfl, ?_, _, rfl⟩
    have bytes := encode_ne_nil (Stream.cutLine_ne_nil (List.cons_ne_nil c rest))
    simpa [Array.size] using List.length_pos_iff.mpr bytes

theorem sound_of_bytes {t : Text} (inside : i.offset ≤ i.buffer.size) (bytes : 0 < i.buffer.size)
    (stream : i.stream = .text t) : i.Sound whole := by
  refine ⟨inside, ?_, t, stream⟩
  intro empty
  rw [empty] at bytes
  cases bytes

theorem nextLine_error {t : Text} {why : NoLine} (stream : i.stream = .text t) :
    i.nextLine = .error why ↔ t = [] ∧ why = .ended := by
  unfold nextLine
  rw [stream]
  cases t with
  | nil =>
    constructor
    · intro failed
      cases failed
      exact ⟨rfl, rfl⟩
    · rintro ⟨-, rfl⟩
      rfl
  | cons c rest =>
    constructor
    · intro failed
      cases failed
    · rintro ⟨empty, -⟩
      cases empty

theorem take_eq (i : Input) (h : i.offset < i.buffer.size) :
    i.take = .ok (i.buffer[i.offset], { i with offset := i.offset + 1 }) := by
  unfold take
  rw [Array.getElem?_eq_getElem h]

theorem take_sound (sound : i.Sound whole) (inside : i.offset < i.buffer.size) :
    Sound whole { i with offset := i.offset + 1 } :=
  ⟨inside, sound.unread, sound.text⟩

/-- A byte comes out of every line but an exhausted one at the end of the text. -/
theorem next_cases (sound : i.Sound whole) :
    (i.next = .error (.line .ended) ∧ i.offset = i.buffer.size ∧ i.stream = .text []) ∨
      ∃ byte rest, i.next = .ok (byte, rest) ∧ rest.Sound whole ∧
        ¬ (i.offset = i.buffer.size ∧ i.stream = .text []) := by
  by_cases exhausted : i.offset = i.buffer.size
  · have spent : i.exhausted = true := by simp [Input.exhausted, exhausted]
    obtain ⟨t, stream⟩ := sound.text
    unfold next
    rw [if_pos spent]
    cases took : i.nextLine with
    | error why =>
      obtain ⟨rfl, rfl⟩ := (nextLine_error stream).mp took
      exact .inl ⟨rfl, exhausted, stream⟩
    | ok filled =>
      obtain ⟨offset, bytes, rest, later⟩ := nextLine_ok stream took
      have sound : filled.Sound whole := sound_of_bytes (by omega) bytes later
      have unended : ¬ (i.offset = i.buffer.size ∧ i.stream = .text []) := by
        rintro ⟨-, ended⟩
        have failed := (nextLine_error ended).mpr ⟨rfl, rfl⟩
        rw [took] at failed
        cases failed
      refine .inr ?_
      -- only the first line delivers a byte of its own at once
      by_cases first : i.offset = 0
      · have inside : filled.offset < filled.buffer.size := by omega
        simp only [if_pos first]
        exact ⟨_, _, take_eq filled inside, take_sound sound inside, unended⟩
      · simp only [if_neg first]
        exact ⟨10, filled, rfl, sound, unended⟩
  · have inside : i.offset < i.buffer.size := Nat.lt_of_le_of_ne sound.offset exhausted
    have unspent : ¬ i.exhausted = true := by simp [Input.exhausted, exhausted]
    have delivered : i.next = .ok (i.buffer[i.offset], { i with offset := i.offset + 1 }) := by
      unfold next
      rw [if_neg unspent, take_eq i inside]
    exact .inr ⟨_, _, delivered, take_sound sound inside, fun ended => exhausted ended.1⟩

end Input

namespace Program
variable {p : Program} {ip : Int} {i : Instr}

theorem mem_of_fetch (fetched : p.fetch ip = some i) : i ∈ p.code := by
  unfold fetch at fetched
  split at fetched
  · exact Array.mem_of_getElem? fetched
  · split at fetched
    · exact Array.mem_of_getElem? fetched
    · cases fetched

theorem exists_fetch (nonneg : 0 ≤ ip) (inside : ip < p.code.size) :
    ∃ i, p.fetch ip = some i := by
  have bound : ip.toNat < p.code.size := by omega
  refine ⟨p.code[ip.toNat], ?_⟩
  rw [fetch, if_pos nonneg, Array.getElem?_eq_getElem bound]

/-- From a linked instruction every way leads to a place, and to one inside the program or at
its end unless the way is that of `ret`. -/
theorem follow_ok {T : Type} {a : Access T} {s : Store T} {e : Effect T}
    (linked : i.Linked p.code.size) (nonneg : 0 ≤ ip) (inside : ip < p.code.size)
    (acts : s.act a ip i = .ok e) :
    ∃ there, p.layout.follow ip i e.way = .ok there ∧ 0 ≤ there ∧
      (there ≤ p.code.size ∨ i.op = .ret) := by
  cases way : e.way with
  | next => exact ⟨ip + 1, rfl, by omega, .inl (by omega)⟩
  | label =>
    obtain ⟨k, target, bound⟩ := linked.target (Store.act_label acts way).1
    refine ⟨k, ?_, by omega, .inl (by omega)⟩
    simp only [layout, SymbolTable.destination, target]
  | number k => exact ⟨k, rfl, by omega, .inr (Store.act_number acts way).1⟩

end Program

namespace Machine

/-- All that a step of a linked program can do. -/
inductive Steps (p : Program) (m : Machine) : Outcome → Prop
  | halted (past : p.code.size ≤ m.ip) : Steps p m (m.stopped .halted)
  | failed {i : Instr} {why : Stop} (inside : m.ip < p.code.size)
      (fetched : p.fetch m.ip = some i) (fails : m.store.act .stored m.ip i = .error why) :
      Steps p m (m.stopped why)
  | completed {i : Instr} {e : Effect Tape} {ip : Int} (inside : m.ip < p.code.size)
      (fetched : p.fetch m.ip = some i) (acts : m.store.act .stored m.ip i = .ok e)
      (nonneg : 0 ≤ ip) (reached : ip ≤ p.code.size ∨ i.op = .ret)
      (followed : p.layout.follow m.ip i e.way = .ok ip) :
      Steps p m { machine := { m.withStore e.store with ip := ip }, written := e.written }

theorem step_cases {p : Program} {m : Machine} (linked : ∀ i ∈ p.code, i.Linked p.code.size)
    (nonneg : 0 ≤ m.ip) (settled : m.jumped = false) : Steps p m (m.step p) := by
  rw [step_eq_advance settled]
  unfold Execution.advance
  by_cases past : p.code.size ≤ m.ip
  · simp only [Program.layout, if_pos past]
    exact .halted past
  · have inside : m.ip < p.code.size := by omega
    obtain ⟨i, fetched⟩ := Program.exists_fetch nonneg inside
    have fetch : p.layout.fetch m.ip = .ok (m.ip, i) := by
      simp only [Program.layout, if_neg past, fetched]
    have number : p.layout.number m.ip = m.ip := rfl
    simp only [fetch, number]
    cases acts : m.store.act .stored m.ip i with
    | error why => exact .failed inside fetched acts
    | ok e =>
      obtain ⟨there, followed, nonneg, reached⟩ :=
        Program.follow_ok (linked i (Program.mem_of_fetch fetched)) nonneg inside acts
      simp only [followed]
      exact .completed inside fetched acts nonneg reached followed

end Machine

namespace Store
variable {T : Type} {a : Access T} {here : Int} {i : Instr} {s : Store T} {e : Effect T}

theorem setRegister_others (s : Store T) (r : Option Register) (v : Int) :
    (s.setRegister r v).tape = s.tape ∧ (s.setRegister r v).cursor = s.cursor ∧
      (s.setRegister r v).input = s.input := by
  unfold setRegister
  split <;> exact ⟨rfl, rfl, rfl⟩

theorem operate_ok {operand : Option Value} {f : Int → Int → Except Stop Int}
    (acts : s.operate a operand f = .ok e) : ∃ result, e.store = s.put a result := by
  unfold operate at acts
  repeat' split at acts
  all_goals cases acts
  exact ⟨_, rfl⟩

/-- Only `inp` takes anything from the input, and it takes a byte. -/
theorem act_input (acts : s.act a here i = .ok e) :
    (i.op = .inp ∧ ∃ byte, s.input.next = .ok (byte, e.store.input)) ∨
      (i.op ≠ .inp ∧ e.store.input = s.input) := by
  cases op : i.op with
  | inp =>
    simp only [act, op] at acts
    cases taken : s.input.next with
    | error why =>
      rw [taken] at acts
      cases acts
    | ok result =>
      rw [taken] at acts
      cases acts
      exact .inl ⟨rfl, result.1, rfl⟩
  | put =>
    simp only [act, op] at acts
    cases acts
    exact .inr ⟨by decide, (setRegister_others _ i.reg _).2.2⟩
  | set | add | mul | div =>
    simp only [act, op] at acts
    obtain ⟨result, store⟩ := operate_ok acts
    refine .inr ⟨by decide, ?_⟩
    rw [store]
    rfl
  | ret =>
    simp only [act, op] at acts
    split at acts
    · cases acts
    · cases acts
      exact .inr ⟨by decide, rfl⟩
  | gol | gor | get | jmp | jnz | jlz | sav | out | dec =>
    simp only [act, op] at acts
    cases acts
    exact .inr ⟨by decide, rfl⟩

theorem act_input_sound {whole : Text} (acts : s.act a here i = .ok e)
    (sound : s.input.Sound whole) : e.store.input.Sound whole := by
  rcases act_input acts with ⟨-, byte, taken⟩ | ⟨-, untouched⟩
  · rcases Input.next_cases sound with ⟨failed, -⟩ | ⟨_, _, delivered, later, -⟩
    · rw [failed] at taken
      cases taken
    · rw [delivered] at taken
      cases taken
      exact later
  · rw [untouched]
    exact sound

structure Ranged (s : Store Tape) : Prop where
  x : Word.InRange s.x
  acc : Word.InRange s.acc
  cells : ∀ k, Word.InRange (s.tape.get k)

namespace Ranged
variable {s : Store Tape} {v : Int}

theorem start (input : Text) : (Store.start {} input).Ranged := by
  have zero : Word.InRange 0 := by decide
  exact ⟨zero, zero, fun _ => zero⟩

theorem cell (ranged : s.Ranged) : Word.InRange (s.cell .stored) := ranged.cells s.cursor

theorem register (ranged : s.Ranged) (r : Option Register) : Word.InRange (s.register r) := by
  unfold Store.register
  split
  · exact ranged.x
  · exact ranged.acc

theorem valueOf (ranged : s.Ranged) {v : Value} (fits : v.Fits) : Word.InRange (s.valueOf v) := by
  cases v with
  | number n => exact fits
  | register r => exact ranged.x

theorem put (ranged : s.Ranged) (inRange : Word.InRange v) : (s.put .stored v).Ranged where
  x := ranged.x
  acc := ranged.acc
  cells k := by
    have content : (s.put .stored v).tape.get k = if s.cursor = k then v else s.tape.get k :=
      Tape.get_put s.tape s.cursor k v
    rw [content]
    split
    · exact inRange
    · exact ranged.cells k

theorem touch (ranged : s.Ranged) : (s.touch .stored).Ranged where
  x := ranged.x
  acc := ranged.acc
  cells k := by
    have content : (s.touch .stored).tape.get k = s.tape.get k := Tape.get_extend s.tape s.cursor k
    rw [content]
    exact ranged.cells k

theorem setRegister (ranged : s.Ranged) (inRange : Word.InRange v) (r : Option Register) :
    (s.setRegister r v).Ranged := by
  unfold Store.setRegister
  split
  · exact ⟨inRange, ranged.acc, ranged.cells⟩
  · exact ⟨ranged.x, inRange, ranged.cells⟩

theorem operate {operand : Option Value} {f : Int → Int → Except Stop Int} {e : Effect Tape}
    (ranged : s.Ranged) (fits : ∀ v ∈ operand, v.Fits)
    (keeps : ∀ c v r, Word.InRange v → f c v = .ok r → Word.InRange r)
    (acts : s.operate .stored operand f = .ok e) : e.store.Ranged := by
  unfold Store.operate at acts
  split at acts
  · cases acts
  · rename_i v
    split at acts
    · rename_i result computed
      cases acts
      exact ranged.put (keeps _ _ _ (ranged.valueOf (fits v rfl)) computed)
    · cases acts

end Ranged

theorem divide_inRange {a b q : Int} (divides : divide here a b = .ok q) : Word.InRange q := by
  unfold divide at divides
  split at divides
  · cases divides
  · cases divides
    exact Word.wrap_inRange _

theorem act_ranged {s : Store Tape} {e : Effect Tape} (wellFormed : i.WellFormed)
    (index : Word.InRange here) (ranged : s.Ranged) (acts : s.act .stored here i = .ok e) :
    e.store.Ranged := by
  cases op : i.op with
  | gol | gor =>
    simp only [act, op] at acts
    cases acts
    exact ⟨ranged.x, ranged.acc, ranged.cells⟩
  | jmp | jnz | jlz =>
    simp only [act, op] at acts
    cases acts
    exact ranged
  | get =>
    simp only [act, op] at acts
    cases acts
    exact ranged.put (ranged.register i.reg)
  | put =>
    simp only [act, op] at acts
    cases acts
    exact ranged.touch.setRegister ranged.cell i.reg
  | sav =>
    simp only [act, op] at acts
    cases acts
    exact ranged.put index
  | ret =>
    simp only [act, op] at acts
    split at acts
    · cases acts
    · cases acts
      exact ranged.touch
  | inp =>
    simp only [act, op] at acts
    split at acts
    · rename_i byte rest taken
      cases acts
      have filled : Ranged { s with input := rest } := ⟨ranged.x, ranged.acc, ranged.cells⟩
      refine filled.put ?_
      have := byte.toNat_lt
      constructor
      · simp only [Word.minimum]
        omega
      · simp only [Word.maximum]
        omega
    · cases acts
  | out =>
    simp only [act, op] at acts
    cases acts
    exact ranged.touch
  | dec =>
    simp only [act, op] at acts
    cases acts
    exact ⟨ranged.x, Word.wrap_inRange _, ranged.cells⟩
  | set =>
    simp only [act, op] at acts
    refine ranged.operate wellFormed.fits ?_ acts
    intro c v r fits computed
    cases computed
    exact fits
  | add | mul =>
    simp only [act, op] at acts
    refine ranged.operate wellFormed.fits ?_ acts
    intro c v r fits computed
    cases computed
    exact Word.wrap_inRange _
  | div =>
    simp only [act, op] at acts
    exact ranged.operate wellFormed.fits (fun _ _ _ _ => divide_inRange) acts

end Store

namespace Machine

structure Sound (whole : Text) (m : Machine) : Prop where
  ip : 0 ≤ m.ip
  settled : m.jumped = false
  input : m.input.Sound whole

theorem step_sound {p : Program} {m : Machine} {whole : Text}
    (linked : ∀ i ∈ p.code, i.Linked p.code.size) (sound : m.Sound whole) :
    (m.step p).machine.Sound whole := by
  have steps := step_cases linked sound.ip sound.settled
  generalize m.step p = outcome at steps ⊢
  cases steps with
  | halted past => exact sound
  | failed inside fetched fails => exact sound
  | @completed i e ip inside fetched acts nonneg reached =>
    have input : e.store.input.Sound whole := Store.act_input_sound acts sound.input
    exact ⟨nonneg, sound.settled, input⟩

theorem step_ranged {p : Program} {m : Machine} (linked : ∀ i ∈ p.code, i.Linked p.code.size)
    (short : p.code.size < 2 ^ 63) (nonneg : 0 ≤ m.ip) (settled : m.jumped = false)
    (ranged : m.store.Ranged) : (m.step p).machine.store.Ranged := by
  have steps := step_cases linked nonneg settled
  generalize m.step p = outcome at steps ⊢
  cases steps with
  | halted past => exact ranged
  | failed inside fetched fails => exact ranged
  | completed inside fetched acts nonneg' reached =>
    -- what `sav` writes is an index inside the program
    have index : Word.InRange m.ip := by
      constructor
      · simp only [Word.minimum]
        omega
      · simp only [Word.maximum]
        omega
    exact Store.act_ranged (linked _ (Program.mem_of_fetch fetched)).toWellFormed index ranged acts

end Machine

namespace Run
variable {p : Program}

theorem calls_sound (linked : ∀ i ∈ p.code, i.Linked p.code.size) (input : Text) (n : Nat) :
    (calls p input n).machine.Sound input := by
  induction n with
  | zero => exact ⟨Int.le_refl 0, rfl, Nat.le_refl 0, fun _ => rfl, input, rfl⟩
  | succ n ih =>
    rw [calls_succ]
    exact Machine.step_sound linked ih

theorem calls_ranged (linked : ∀ i ∈ p.code, i.Linked p.code.size)
    (short : p.code.size < 2 ^ 63) (input : Text) (n : Nat) :
    (calls p input n).machine.store.Ranged := by
  induction n with
  | zero => exact Store.Ranged.start input
  | succ n ih =>
    have sound := calls_sound linked input n
    rw [calls_succ]
    exact Machine.step_ranged linked short sound.ip sound.settled ih

/-- Only a `ret` that has just completed can have left the program. -/
theorem calls_inside (linked : ∀ i ∈ p.code, i.Linked p.code.size) (input : Text) (n : Nat) :
    (calls p input n).machine.ip ≤ p.code.size ∨
      ∃ c, (history p input n).getLast? = some c ∧ c.instr.op = .ret := by
  induction n with
  | zero => exact .inl (Int.natCast_nonneg _)
  | succ n ih =>
    have sound := calls_sound linked input n
    have steps := Machine.step_cases linked sound.ip sound.settled
    rw [calls_succ]
    unfold history next Machine.completion?
    generalize (calls p input n).machine.step p = outcome at steps ⊢
    cases steps with
    | halted past => simpa [Machine.stopped] using ih
    | failed inside fetched fails => simpa [Machine.stopped] using ih
    | @completed i e ip inside fetched acts nonneg reached =>
      rcases reached with inside | ret
      · exact .inl inside
      · refine .inr ⟨⟨(calls p input n).machine, i⟩, ?_, ret⟩
        simp [fetched]

end Run

theorem Tape.get_of_mem {t : Tape} {v : Int} (stored : v ∈ t.cells) : ∃ k, t.get k = v := by
  obtain ⟨k, bound, rfl⟩ := Array.mem_iff_getElem.mp stored
  exact ⟨k, by rw [get, Array.getElem?_eq_getElem bound, Option.getD_some]⟩

/-- What holds of the machine after any number of calls, completed or not. -/
theorem run_invariant {source : Text} {assembly : Assembly} {p : Program}
    (assembled : Assembly.ofSource source = .ok assembly) (made : assembly.program = some p)
    (short : p.code.size < 2 ^ 63) (input : Text) (n : Nat) :
    let m := (Run.calls p input n).machine
    Word.InRange m.x ∧ Word.InRange m.acc ∧ (∀ v ∈ m.tape.cells, Word.InRange v) ∧
      0 ≤ m.cursor ∧ 0 ≤ m.ip ∧ m.jumped = false ∧ m.input.offset ≤ m.input.buffer.size ∧
      (m.input.buffer = #[] → m.input.stream = .text input) ∧
      (m.ip ≤ p.code.size ∨
        ∃ c, (Run.history p input n).getLast? = some c ∧ c.instr.op = .ret) := by
  intro m
  have linked := Assembly.linked_of_program assembled made
  have sound : m.Sound input := Run.calls_sound linked input n
  have ranged : m.store.Ranged := Run.calls_ranged linked short input n
  have cells : ∀ v ∈ m.tape.cells, Word.InRange v := by
    intro v stored
    obtain ⟨k, rfl⟩ := Tape.get_of_mem stored
    exact ranged.cells k
  exact ⟨ranged.x, ranged.acc, cells, Nat.zero_le _, sound.ip, sound.settled, sound.input.offset,
    sound.input.unread, Run.calls_inside linked input n⟩

theorem run_invariant_of_set_ret :
    let p : Program := ⟨#[{ op := .set, value := some (.number 7) }, { op := .ret }], []⟩
    let m := (Run.calls p [] 2).machine
    Assembly.ofSource "set 7\nret\n" = .ok ⟨[], [], some p⟩ ∧ m.ip = 7 ∧
      (∀ v ∈ m.tape.cells, Word.InRange v) ∧
      ∃ c, (Run.history p [] 2).getLast? = some c ∧ c.instr.op = .ret := by
  intro p m
  have assembled : Assembly.ofSource "set 7\nret\n" = .ok ⟨[], [], some p⟩ := by decide +kernel
  have ip : m.ip = 7 := by decide
  obtain ⟨-, -, cells, -, -, -, -, -, inside | ret⟩ :=
    run_invariant assembled rfl (by decide) [] 2
  · exact absurd inside (by decide)
  · exact ⟨assembled, ip, cells, ret⟩

end TapeMachine
