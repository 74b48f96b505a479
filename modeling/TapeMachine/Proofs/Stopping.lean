import TapeMachine.Proofs.Invariant

/-! Calls that complete and calls that do not, whatever there is to read. One that does not
leaves the run as it is, so that the next one tries the same instruction again and stops for the
same reason: the calls that complete are those in front of the first that does not. -/
namespace TapeMachine

namespace Machine
variable {p : Program} {m : Machine}

/-- What holds of a machine between two calls, even if its input is broken. -/
structure Ready (m : Machine) : Prop where
  ip : 0 ≤ m.ip
  settled : m.jumped = false

theorem step_ready (linked : ∀ i ∈ p.code, i.Linked p.code.size) (ready : m.Ready) :
    (m.step p).machine.Ready := by
  have steps := step_cases linked ready.ip ready.settled
  generalize m.step p = outcome at steps ⊢
  cases steps with
  | halted past => exact ready
  | failed inside fetched fails => exact ready
  | completed inside fetched acts nonneg reached => exact ⟨nonneg, ready.settled⟩

theorem step_of_stop (linked : ∀ i ∈ p.code, i.Linked p.code.size) (ready : m.Ready)
    {why : Stop} (stop : (m.step p).stop = some why) : m.step p = m.stopped why := by
  have steps := step_cases linked ready.ip ready.settled
  generalize m.step p = outcome at steps stop ⊢
  cases steps with
  | halted past =>
    cases stop
    rfl
  | failed inside fetched fails =>
    cases stop
    rfl
  | completed inside fetched acts nonneg reached => cases stop

end Machine

namespace Run

/-- All that one more call can make of a run and of the instructions that it has completed. -/
inductive Goes (p : Program) (r : Run) (done : List Completion) : Run → List Completion → Prop
  | stopped (why : Stop) : Goes p r done { r with stop := some why } done
  | completed {i : Instr} {e : Effect Tape} {ip : Int} (inside : r.machine.ip < p.code.size)
      (fetched : p.fetch r.machine.ip = some i)
      (acts : r.machine.store.act .stored r.machine.ip i = .ok e)
      (followed : p.layout.follow r.machine.ip i e.way = .ok ip) :
      Goes p r done
        { machine := { r.machine.withStore e.store with ip := ip }
          steps := r.steps + 1
          written := r.written ++ e.written
          stop := none }
        (done ++ [⟨r.machine, i⟩])

variable {p : Program}

namespace Goes
variable {r r' : Run} {done done' : List Completion}

theorem steps_le (goes : Goes p r done r' done') : r'.steps ≤ r.steps + 1 := by
  cases goes with
  | stopped why => exact Nat.le_succ _
  | completed inside fetched acts => exact Nat.le_refl _

theorem length_eq_steps (goes : Goes p r done r' done') (counted : done.length = r.steps) :
    done'.length = r'.steps := by
  cases goes with
  | stopped why => exact counted
  | completed inside fetched acts => rw [List.length_append, List.length_singleton, counted]

theorem inside_of_steps (goes : Goes p r done r' done') (more : r.steps < r'.steps) :
    r.machine.ip < p.code.size := by
  cases goes with
  | stopped why => exact absurd more (Nat.lt_irrefl _)
  | completed inside fetched acts => exact inside

theorem steps_of_running (goes : Goes p r done r' done') (running : r'.stop = none) :
    r'.steps = r.steps + 1 := by
  cases goes with
  | stopped why => cases running
  | completed inside fetched acts => rfl

theorem eq_of_stop (goes : Goes p r done r' done') {why : Stop} (stop : r'.stop = some why) :
    r' = { r with stop := some why } := by
  cases goes with
  | stopped why' =>
    cases stop
    rfl
  | completed inside fetched acts => cases stop

end Goes

theorem goes_next (linked : ∀ i ∈ p.code, i.Linked p.code.size) {r : Run}
    (ready : r.machine.Ready) (done : List Completion) :
    Goes p r done (r.next p) (done ++ (r.machine.completion? p).toList) := by
  have steps := Machine.step_cases linked ready.ip ready.settled
  rw [next, Machine.completion?]
  generalize r.machine.step p = outcome at steps ⊢
  cases steps with
  | halted past => simpa [Machine.stopped] using Goes.stopped .halted
  | @failed i why inside fetched fails => simpa [Machine.stopped] using Goes.stopped why
  | completed inside fetched acts nonneg reached followed =>
    simpa [fetched] using Goes.completed inside fetched acts followed

theorem next_of_stop (linked : ∀ i ∈ p.code, i.Linked p.code.size) {r : Run}
    (ready : r.machine.Ready) {why : Stop} (stop : (r.next p).stop = some why) :
    (r.next p).next p = r.next p := by
  have step := Machine.step_of_stop linked ready stop
  rw [(goes_next linked ready []).eq_of_stop stop, next, step]
  simp [Machine.stopped]

def opening (stream : Stream) : Run := { machine := { input := { stream := stream } } }

def after (p : Program) (stream : Stream) (n : Nat) : Run := (next p)^[n] (opening stream)

def completions (p : Program) (stream : Stream) : Nat → List Completion
  | 0 => []
  | n + 1 => completions p stream n ++ ((after p stream n).machine.completion? p).toList

theorem after_succ (p : Program) (stream : Stream) (n : Nat) :
    after p stream (n + 1) = (after p stream n).next p :=
  Function.iterate_succ_apply' (next p) n (opening stream)

section
variable (linked : ∀ i ∈ p.code, i.Linked p.code.size) {stream : Stream}
include linked

theorem after_ready (stream : Stream) (n : Nat) : (after p stream n).machine.Ready := by
  induction n with
  | zero => exact ⟨Int.le_refl 0, rfl⟩
  | succ n ih =>
    rw [after_succ]
    exact Machine.step_ready linked ih

theorem after_ranged (short : p.code.size < 2 ^ 63) (stream : Stream) (n : Nat) :
    (after p stream n).machine.store.Ranged := by
  induction n with
  | zero =>
    have zero : Word.InRange 0 := by decide
    exact ⟨zero, zero, fun _ => zero⟩
  | succ n ih =>
    have ready := after_ready linked stream n
    rw [after_succ]
    exact Machine.step_ranged linked short ready.ip ready.settled ih

theorem after_cases (stream : Stream) (n : Nat) :
    Goes p (after p stream n) (completions p stream n) (after p stream (n + 1))
      (completions p stream (n + 1)) := by
  rw [after_succ, completions]
  exact goes_next linked (after_ready linked stream n) _

theorem after_keep {Kept : Run → List Completion → Prop} (first : Kept (opening stream) [])
    (keeps : ∀ {r r' done done'}, Goes p r done r' done' → Kept r done → Kept r' done') (n : Nat) :
    Kept (after p stream n) (completions p stream n) := by
  induction n with
  | zero => exact first
  | succ n ih => exact keeps (after_cases linked stream n) ih

theorem after_steps_le (stream : Stream) (n : Nat) : (after p stream n).steps ≤ n := by
  induction n with
  | zero => exact Nat.le_refl 0
  | succ n ih =>
    exact Nat.le_trans (after_cases linked stream n).steps_le (Nat.succ_le_succ ih)

/-- A run that has stopped stays as it is. -/
theorem after_succ_of_stop {n : Nat} {why : Stop} (stop : (after p stream n).stop = some why) :
    after p stream (n + 1) = after p stream n := by
  cases n with
  | zero => cases stop
  | succ n =>
    rw [after_succ] at stop
    rw [after_succ, after_succ]
    exact next_of_stop linked (after_ready linked stream n) stop

theorem after_running {n : Nat} (running : (after p stream n).stop = none) :
    (after p stream n).steps = n := by
  induction n with
  | zero => rfl
  | succ n ih =>
    cases before : (after p stream n).stop with
    | some why =>
      rw [after_succ_of_stop linked before, before] at running
      cases running
    | none => rw [(after_cases linked stream n).steps_of_running running, ih before]

end

theorem history_eq (p : Program) (input : Text) (n : Nat) :
    history p input n = completions p (.text input) n := by
  induction n with
  | zero => rfl
  | succ n ih =>
    rw [history, completions, ih]
    rfl

theorem calls_cases (linked : ∀ i ∈ p.code, i.Linked p.code.size) (input : Text) (n : Nat) :
    Goes p (calls p input n) (history p input n) (calls p input (n + 1))
      (history p input (n + 1)) := by
  rw [history_eq, history_eq]
  exact after_cases linked (.text input) n

theorem calls_keep (linked : ∀ i ∈ p.code, i.Linked p.code.size) {input : Text}
    {Kept : Run → List Completion → Prop} (first : Kept (start input) [])
    (keeps : ∀ {r r' done done'}, Goes p r done r' done' → Kept r done → Kept r' done') (n : Nat) :
    Kept (calls p input n) (history p input n) := by
  rw [history_eq]
  exact after_keep linked first keeps n

theorem steps_le (linked : ∀ i ∈ p.code, i.Linked p.code.size) (input : Text) (n : Nat) :
    (calls p input n).steps ≤ n :=
  after_steps_le linked (.text input) n

theorem length_history (linked : ∀ i ∈ p.code, i.Linked p.code.size) (input : Text) (n : Nat) :
    (history p input n).length = (calls p input n).steps :=
  calls_keep linked rfl Goes.length_eq_steps n

theorem inside_of_steps (linked : ∀ i ∈ p.code, i.Linked p.code.size) {input : Text} {n : Nat}
    (all : (calls p input (n + 1)).steps = n + 1) :
    (calls p input n).steps = n ∧ (calls p input n).machine.ip < p.code.size := by
  have goes := calls_cases linked input n
  have bound := steps_le linked input n
  have last := goes.steps_le
  refine ⟨by omega, goes.inside_of_steps ?_⟩
  omega

theorem calls_succ_of_stop (linked : ∀ i ∈ p.code, i.Linked p.code.size) {input : Text} {n : Nat}
    {why : Stop} (stop : (calls p input n).stop = some why) :
    calls p input (n + 1) = calls p input n :=
  after_succ_of_stop linked stop

theorem steps_of_running (linked : ∀ i ∈ p.code, i.Linked p.code.size) {input : Text} {n : Nat}
    (running : (calls p input n).stop = none) : (calls p input n).steps = n :=
  after_running linked running

end Run

end TapeMachine
