import TapeMachine.Proofs.Concatenation
import TapeMachine.Proofs.Delivery
import TapeMachine.Proofs.Stopping

/-! Input that comes later. As long as the text to read ends with whole lines, more text behind it
changes nothing of what a step does but the step that finds no line left; and that step leaves the
machine as it is, so that a run which has been given the rest of its input then is the run which
had all of it at once. -/
namespace TapeMachine

namespace Stream

theorem cutLine_append_of_mem {t : Text} (newline : '\n' ∈ t) (more : Text) :
    cutLine (t ++ more) = ((cutLine t).1, (cutLine t).2 ++ more) := by
  induction t with
  | nil => cases newline
  | cons c rest ih =>
    by_cases here : c = '\n'
    · simp [cutLine, here]
    · have later : '\n' ∈ rest := by simpa [Ne.symm here] using newline
      simp [cutLine, here, ih later]

theorem closed_cutLine {t : Text} (closed : t.Closed) : Text.Closed (cutLine t).2 := by
  by_cases rest : (cutLine t).2 = []
  · exact .inl rest
  · refine .inr ?_
    have whole := cutLine_append t
    rcases closed with rfl | last
    · exact absurd rfl rest
    · rwa [← whole, List.getLast?_append_of_ne_nil _ rest] at last

end Stream

theorem Text.Closed.newline_mem {t : Text} (closed : t.Closed) (some : t ≠ []) : '\n' ∈ t := by
  rcases closed with none | last
  · exact absurd none some
  · exact List.mem_of_getLast? last

namespace Input

def WholeLines (i : Input) : Prop := ∃ t : Text, i.stream = .text t ∧ t.Closed

def feed (more : Text) (i : Input) : Input := { i with stream := i.stream.feed more }

variable {i : Input}

theorem take_feed (more : Text) (i : Input) :
    (i.feed more).take = i.take.map fun taken => (taken.1, taken.2.feed more) := by
  unfold take feed
  cases i.buffer[i.offset]? <;> rfl

theorem take_stream {taken : UInt8 × Input} (took : i.take = .ok taken) :
    taken.2.stream = i.stream := by
  unfold take at took
  split at took
  · cases took
    rfl
  · cases took

theorem nextLine_feed {t : Text} (stream : i.stream = .text t) (closed : t.Closed) (some : t ≠ [])
    (more : Text) : (i.feed more).nextLine = i.nextLine.map (feed more) := by
  have fed : (i.feed more).stream = .text (t ++ more) := by
    simp only [feed, stream, Stream.feed]
  have filled : t ++ more ≠ [] := List.append_ne_nil_of_left_ne_nil some more
  have line := Stream.cutLine_append_of_mem (closed.newline_mem some) more
  rw [nextLine_filled stream some, nextLine_filled fed filled, line]
  rfl

/-- More text makes a difference only to the byte for which there is no line left. -/
theorem next_feed (lines : i.WholeLines) (goesOn : i.next ≠ .error (.line .ended)) (more : Text) :
    (i.feed more).next = i.next.map fun taken => (taken.1, taken.2.feed more) := by
  obtain ⟨t, stream, closed⟩ := lines
  have exhausted : (i.feed more).exhausted = i.exhausted := rfl
  have offset : (i.feed more).offset = i.offset := rfl
  unfold next at goesOn ⊢
  rw [exhausted, offset]
  by_cases spent : i.exhausted = true
  · rw [if_pos spent] at goesOn ⊢
    rw [if_pos spent]
    by_cases none : t = []
    · subst none
      rw [(nextLine_error stream).mpr ⟨rfl, rfl⟩] at goesOn
      exact absurd rfl goesOn
    · rw [nextLine_feed stream closed none more]
      cases i.nextLine with
      | error why => rfl
      | ok filled =>
        simp only [Except.map]
        by_cases first : i.offset = 0
        · rw [if_pos first, if_pos first]
          exact take_feed more filled
        · rw [if_neg first, if_neg first]
  · rw [if_neg spent, if_neg spent]
    exact take_feed more i

theorem next_wholeLines {byte : UInt8} {rest : Input} (lines : i.WholeLines)
    (next : i.next = .ok (byte, rest)) : rest.WholeLines := by
  obtain ⟨t, stream, closed⟩ := lines
  unfold Input.next at next
  split at next
  · by_cases none : t = []
    · subst none
      rw [(nextLine_error stream).mpr ⟨rfl, rfl⟩] at next
      cases next
    · rw [nextLine_filled stream none] at next
      dsimp only at next
      refine ⟨(Stream.cutLine t).2, ?_, Stream.closed_cutLine closed⟩
      split at next
      · exact take_stream next
      · cases next
        rfl
  · exact ⟨t, (take_stream next).trans stream, closed⟩

end Input

namespace Store
variable {T : Type} {a : Access T} {here : Int} {i : Instr} {s : Store T}

def feed (more : Text) (s : Store T) : Store T := { s with input := s.input.feed more }

def withInput (s : Store T) (input : Input) : Store T := { s with input := input }

theorem act_withInput (other : i.op ≠ .inp) (a : Access T) (here : Int) (s : Store T)
    (input : Input) : (s.withInput input).act a here i =
      (s.act a here i).map fun e => { e with store := e.store.withInput input } := by
  cases op : i.op with
  | inp => exact absurd op other
  | gol | gor | get | jmp | jnz | jlz | sav | out | dec =>
    simp only [act, op]
    rfl
  | put =>
    simp only [act, op]
    unfold setRegister
    split <;> rfl
  | ret =>
    have cell : (s.withInput input).cell a = s.cell a := rfl
    simp only [act, op, cell]
    split <;> rfl
  | set | add | mul =>
    simp only [act, op, operate]
    cases i.value with
    | none => rfl
    | some v => cases v <;> rfl
  | div =>
    simp only [act, op, operate]
    cases i.value with
    | none => rfl
    | some v =>
      have value : (s.withInput input).valueOf v = s.valueOf v := by cases v <;> rfl
      have cell : (s.withInput input).cell a = s.cell a := rfl
      simp only [value, cell, divide]
      split <;> rfl

theorem act_feed (lines : s.input.WholeLines)
    (goesOn : s.act a here i ≠ .error (.fault .inputEnded)) (more : Text) :
    (s.feed more).act a here i =
      (s.act a here i).map fun e => { e with store := e.store.feed more } := by
  by_cases op : i.op = .inp
  · have input : (s.feed more).input = s.input.feed more := rfl
    have unended : s.input.next ≠ .error (.line .ended) := by
      intro ended
      simp only [act, op, ended] at goesOn
      exact goesOn rfl
    simp only [act, op, input, Input.next_feed lines unended more]
    cases s.input.next with
    | error why => rfl
    | ok taken => rfl
  · have fed := act_withInput op a here s (s.input.feed more)
    refine fed.trans ?_
    cases acts : s.act a here i with
    | error why => rfl
    | ok e =>
      have untouched : e.store.input = s.input := by
        rcases act_input acts with ⟨isInp, -⟩ | ⟨-, untouched⟩
        · exact absurd isInp op
        · exact untouched
      simp only [Except.map, feed, withInput, untouched]

theorem act_wholeLines {e : Effect T} (acts : s.act a here i = .ok e)
    (lines : s.input.WholeLines) : e.store.input.WholeLines := by
  rcases act_input acts with ⟨-, byte, next⟩ | ⟨-, untouched⟩
  · exact Input.next_wholeLines lines next
  · rw [untouched]
    exact lines

end Store

theorem Execution.advance_feed {T P : Type} {a : Access T} {l : Layout P} {s : Store T} {place : P}
    (lines : s.input.WholeLines) (goesOn : advance a l s place ≠ .error (.fault .inputEnded))
    (more : Text) : advance a l (s.feed more) place =
      (advance a l s place).map fun r => ({ r.1 with store := r.1.store.feed more }, r.2) := by
  unfold advance at goesOn ⊢
  cases found : l.fetch place with
  | error why => rfl
  | ok here =>
    simp only [found] at goesOn
    have acts : s.act a (l.number here.1) here.2 ≠ .error (.fault .inputEnded) := by
      intro ended
      rw [ended] at goesOn
      exact goesOn rfl
    simp only [Store.act_feed lines acts more]
    cases s.act a (l.number here.1) here.2 with
    | error why => rfl
    | ok e =>
      simp only [Except.map]
      cases l.follow here.1 here.2 e.way <;> rfl

namespace Machine
variable {p : Program} {m : Machine}

def feed (more : Text) (m : Machine) : Machine := { m with input := m.input.feed more }

theorem step_feed (settled : m.jumped = false) (lines : m.input.WholeLines)
    (goesOn : (m.step p).stop ≠ some (.fault .inputEnded)) (more : Text) :
    (m.feed more).step p = { m.step p with machine := (m.step p).machine.feed more } := by
  have settled' : (m.feed more).jumped = false := settled
  have store : (m.feed more).store = m.store.feed more := rfl
  have ip : (m.feed more).ip = m.ip := rfl
  rw [step_eq_advance settled] at goesOn ⊢
  rw [step_eq_advance settled', store, ip]
  have unended : Execution.advance .stored p.layout m.store m.ip ≠ .error (.fault .inputEnded) := by
    intro ended
    rw [ended] at goesOn
    exact goesOn rfl
  rw [Execution.advance_feed lines unended more]
  cases Execution.advance .stored p.layout m.store m.ip <;> rfl

theorem step_wholeLines {whole : Text} (linked : ∀ i ∈ p.code, i.Linked p.code.size)
    (sound : m.Sound whole) (lines : m.input.WholeLines) :
    (m.step p).machine.input.WholeLines := by
  have steps := step_cases linked sound.ip sound.settled
  generalize m.step p = outcome at steps ⊢
  cases steps with
  | halted past => exact lines
  | failed inside fetched fails => exact lines
  | completed inside fetched acts nonneg reached => exact Store.act_wholeLines acts lines

end Machine

namespace Run
variable {p : Program} {input : Text} {n : Nat}

def feed (more : Text) (r : Run) : Run := { r with machine := r.machine.feed more }

def resume (more : Text) (r : Run) : Run := { r with machine := r.machine.feed more, stop := none }

theorem calls_wholeLines (linked : ∀ i ∈ p.code, i.Linked p.code.size) (closed : input.Closed)
    (n : Nat) : (calls p input n).machine.input.WholeLines := by
  induction n with
  | zero => exact ⟨input, rfl, closed⟩
  | succ n ih =>
    rw [calls_succ]
    exact Machine.step_wholeLines linked (calls_sound linked input n) ih

theorem calls_add (p : Program) (input : Text) (m n : Nat) :
    calls p input (m + n) = (next p)^[n] (calls p input m) := by
  rw [Nat.add_comm]
  exact Function.iterate_add_apply (next p) n m (start input)

theorem calls_append (linked : ∀ i ∈ p.code, i.Linked p.code.size) (closed : input.Closed)
    (more : Text) (goesOn : (calls p input n).stop ≠ some (.fault .inputEnded)) :
    calls p (input ++ more) n = (calls p input n).feed more := by
  induction n with
  | zero => rfl
  | succ n ih =>
    have before : (calls p input n).stop ≠ some (.fault .inputEnded) := by
      intro ended
      rw [calls_succ_of_stop linked ended] at goesOn
      exact goesOn ended
    have settled := (calls_sound linked input n).settled
    rw [calls_succ] at goesOn
    have step := Machine.step_feed settled (calls_wholeLines linked closed n) goesOn more
    have machine : ((calls p input n).feed more).machine =
        (calls p input n).machine.feed more := rfl
    rw [calls_succ, calls_succ, ih before, next, machine, step]
    rfl

theorem resume_eq_calls (linked : ∀ i ∈ p.code, i.Linked p.code.size) (closed : input.Closed)
    (more : Text) (ended : (calls p input n).stop = some (.fault .inputEnded)) :
    (calls p input n).resume more = calls p (input ++ more) (calls p input n).steps := by
  induction n with
  | zero => cases ended
  | succ n ih =>
    cases before : (calls p input n).stop with
    | some why =>
      have same := calls_succ_of_stop linked before
      rw [same] at ended ⊢
      exact ih ended
    | none =>
      -- the first call that finds no line leaves the run as the calls before have made it
      have unended : (calls p input n).stop ≠ some (.fault .inputEnded) := by
        rw [before]
        exact nofun
      have running := steps_of_running linked before
      have fed : calls p (input ++ more) (calls p input n).steps = (calls p input n).feed more := by
        rw [running]
        exact calls_append linked closed more unended
      rw [(calls_cases linked input n).eq_of_stop ended, fed]
      simp only [resume, feed, before]

end Run

/-- Lines that are given to a program one part after the other, the second when it has found the
first to be used up, make the same run as all of them given at once: the same machine and output
after every call, and the same stops. -/
theorem input_resumable {source : Text} {assembly : Assembly} {p : Program}
    (assembled : Assembly.ofSource source = .ok assembly) (made : assembly.program = some p)
    {input : Text} (closed : input.Closed) (more : Text) (n : Nat) :
    let r := Run.calls p input n
    let whole := Run.calls p (input ++ more)
    (r.stop ≠ some (.fault .inputEnded) → whole n = r.feed more) ∧
      (r.stop = some (.fault .inputEnded) →
        ∀ k, (Run.next p)^[k] (r.resume more) = whole (r.steps + k)) := by
  intro r whole
  have linked := Assembly.linked_of_program assembled made
  refine ⟨Run.calls_append linked closed more, ?_⟩
  intro ended k
  have resumed : r.resume more = whole r.steps := Run.resume_eq_calls linked closed more ended
  rw [resumed]
  exact (Run.calls_add p (input ++ more) r.steps k).symm

theorem input_resumable_of_two_lines :
    let inp : Instr := { op := .inp }
    let jmp : Instr := { op := .jmp, label := some ⟨"l", ⟨11, 12⟩⟩, target := some 0 }
    let p : Program := ⟨#[inp, jmp], [("l", 0)]⟩
    let r := Run.calls p ['a', '\n'] 5
    Assembly.ofSource "l:\ninp\njmp l\n" = .ok ⟨[], [], some p⟩ ∧
      r.stop = some (.fault .inputEnded) ∧
      (∀ k, (Run.next p)^[k] (r.resume ['b']) = Run.calls p ['a', '\n', 'b'] (4 + k)) ∧
      ((Run.next p)^[1] (r.resume ['b'])).machine.cell = 10 ∧
      ((Run.next p)^[3] (r.resume ['b'])).machine.cell = 98 := by
  intro inp jmp p r
  have assembled : Assembly.ofSource "l:\ninp\njmp l\n" = .ok ⟨[], [], some p⟩ := by
    decide +kernel
  have closed : Text.Closed ['a', '\n'] := .inr rfl
  have ended : r.stop = some (.fault .inputEnded) := by decide +kernel
  have steps : r.steps = 4 := by decide +kernel
  have resumed (k : Nat) :
      (Run.next p)^[k] (r.resume ['b']) = Run.calls p ['a', '\n', 'b'] (4 + k) := by
    rw [← steps]
    exact (input_resumable assembled rfl closed ['b'] 5).2 ended k
  refine ⟨assembled, ended, resumed, ?_, ?_⟩
  · rw [resumed]
    decide +kernel
  · rw [resumed]
    decide +kernel

end TapeMachine
