import TapeMachine.Proofs.Atomicity
import TapeMachine.Proofs.Stopping

namespace TapeMachine

namespace Stream
variable {s rest : Stream} {line : Text}

theorem takeLine_uninterrupted (took : s.takeLine = .ok (line, rest)) : rest ≠ .interrupted := by
  cases s with
  | text unread =>
    cases unread with
    | nil => cases took
    | cons c more =>
      cases took
      simp
  | cut unread =>
    simp only [takeLine] at took
    split at took
    · cases took
      simp
    · cases took
  | broken | interrupted => cases took

end Stream

namespace Input

/-- An input that is not past its line and whose user does not end the run. -/
structure Steady (i : Input) : Prop where
  offset : i.offset ≤ i.buffer.size
  stream : i.stream ≠ .interrupted

variable {i rest : Input} {byte : UInt8}

theorem takeLine_of_nextLine {filled : Input} (took : i.nextLine = .ok filled) :
    ∃ line, i.stream.takeLine = .ok (line, filled.stream) := by
  unfold nextLine at took
  split at took
  · rename_i line later read
    cases took
    exact ⟨line, read⟩
  · cases took

/-- A byte that comes is one of the line at hand or of the next line of the stream, and no more
has come then than that line has. -/
theorem next_ok (inside : i.offset ≤ i.buffer.size) (delivered : i.next = .ok (byte, rest)) :
    rest.offset ≤ rest.buffer.size ∧
      (rest.stream = i.stream ∨ ∃ line, i.stream.takeLine = .ok (line, rest.stream)) := by
  unfold next at delivered
  by_cases exhausted : i.exhausted = true
  · rw [if_pos exhausted] at delivered
    cases took : i.nextLine with
    | error why =>
      rw [took] at delivered
      cases delivered
    | ok filled =>
      have taken := takeLine_of_nextLine took
      obtain ⟨start, bytes⟩ := nextLine_nonempty took
      simp only [took] at delivered
      split at delivered
      · rw [take_eq filled (by omega)] at delivered
        cases delivered
        exact ⟨by simp only [start]; omega, .inr taken⟩
      · cases delivered
        exact ⟨by omega, .inr taken⟩
  · rw [if_neg exhausted] at delivered
    have unspent : i.offset < i.buffer.size := by
      apply Nat.lt_of_le_of_ne inside
      intro same
      exact exhausted (by simp [Input.exhausted, same])
    rw [take_eq i unspent] at delivered
    cases delivered
    exact ⟨unspent, .inl rfl⟩

theorem next_steady (steady : i.Steady) (delivered : i.next = .ok (byte, rest)) :
    rest.Steady := by
  obtain ⟨inside, stream⟩ := next_ok steady.offset delivered
  refine ⟨inside, ?_⟩
  rcases stream with same | ⟨line, taken⟩
  · rw [same]
    exact steady.stream
  · exact Stream.takeLine_uninterrupted taken

end Input

theorem Store.act_steady {T : Type} {a : Access T} {here : Int} {i : Instr} {s : Store T}
    {e : Effect T} (acts : s.act a here i = .ok e) (steady : s.input.Steady) :
    e.store.input.Steady := by
  rcases act_input acts with ⟨-, byte, taken⟩ | ⟨-, untouched⟩
  · exact Input.next_steady steady taken
  · rw [untouched]
    exact steady

structure Program.Forward (p : Program) : Prop where
  noRet : ∀ i ∈ p.code, i.op ≠ .ret
  target : ∀ (k : Nat) (i : Instr), p.code[k]? = some i → i.op.takesLabel →
    ∀ t ∈ i.target, (k : Int) < t

namespace Program
variable {p : Program} {ip there : Int} {i : Instr}

theorem Forward.follow {T : Type} {a : Access T} {s : Store T} {e : Effect T}
    (forward : p.Forward) (linked : i.Linked p.code.size) (nonneg : 0 ≤ ip)
    (inside : ip < p.code.size) (fetched : p.fetch ip = some i)
    (acts : s.act a ip i = .ok e) (followed : p.layout.follow ip i e.way = .ok there) :
    ip < there ∧ there ≤ p.code.size := by
  have noRet := forward.noRet i (mem_of_fetch fetched)
  obtain ⟨there', followed', -, reached⟩ := follow_ok linked nonneg inside acts
  rw [followed'] at followed
  cases followed
  refine ⟨?_, reached.resolve_right noRet⟩
  cases way : e.way with
  | next =>
    rw [way] at followed'
    cases followed'
    omega
  | label =>
    have jump := (Store.act_label acts way).1
    obtain ⟨k, target, -⟩ := linked.target jump
    obtain ⟨l, rfl⟩ := Int.eq_ofNat_of_zero_le nonneg
    rw [fetch_natCast] at fetched
    have later := forward.target l i fetched jump k target
    rw [way] at followed'
    simp only [layout, SymbolTable.destination, target] at followed'
    cases followed'
    exact later
  | number k => exact absurd (Store.act_number acts way).1 noRet

end Program

namespace Run
variable {p : Program}

/-- A run that has only gone forward: each place that an instruction was executed at lies in front
of the next one and of the place reached. -/
structure Onward (p : Program) (r : Run) (done : List Completion) : Prop where
  rising : (done.map (·.machine.ip) ++ [r.machine.ip]).Pairwise (· < ·)
  nonneg : 0 ≤ r.machine.ip
  inside : r.machine.ip ≤ p.code.size
  steps : r.steps ≤ r.machine.ip
  count : done.length = r.steps

theorem Onward.steps_le {r : Run} {done : List Completion} (onward : Onward p r done) :
    r.steps ≤ p.code.size := by
  have steps := onward.steps
  have inside := onward.inside
  omega

theorem Goes.onward (linked : ∀ i ∈ p.code, i.Linked p.code.size) (forward : p.Forward)
    {r r' : Run} {done done' : List Completion} (goes : Goes p r done r' done')
    (onward : Onward p r done) : Onward p r' done' := by
  have count := goes.length_eq_steps onward.count
  cases goes with
  | stopped why => exact ⟨onward.rising, onward.nonneg, onward.inside, onward.steps, count⟩
  | @completed i e ip inside fetched acts followed =>
    obtain ⟨later, within⟩ := forward.follow (linked i (Program.mem_of_fetch fetched))
      onward.nonneg inside fetched acts followed
    have nonneg := onward.nonneg
    have steps := onward.steps
    refine ⟨?_, ?_, within, ?_, count⟩
    · rw [List.map_append, List.map_singleton]
      apply List.pairwise_append.mpr
      refine ⟨onward.rising, List.pairwise_singleton _ _, ?_⟩
      -- what was in front of the place left is in front of the later one reached
      intro place earlier reached here
      cases List.mem_singleton.mp here
      rcases List.mem_append.mp earlier with before | left
      · have passed : place < r.machine.ip :=
          (List.pairwise_append.mp onward.rising).2.2 place before _ (List.mem_singleton_self _)
        exact Int.lt_trans passed later
      · cases List.mem_singleton.mp left
        exact later
    · dsimp only
      omega
    · dsimp only
      omega

theorem Goes.steady {r r' : Run} {done done' : List Completion} (goes : Goes p r done r' done')
    (steady : r.machine.input.Steady) : r'.machine.input.Steady := by
  cases goes with
  | stopped why => exact steady
  | completed inside fetched acts => exact Store.act_steady acts steady

section
variable (linked : ∀ i ∈ p.code, i.Linked p.code.size) {stream : Stream}
include linked

end

end Run

end TapeMachine
