import Mathlib.Data.List.DropRight
import TapeMachine.Proofs.Stopping
import TapeMachine.Proofs.Words

namespace TapeMachine

namespace Word

def decrement (v : Int) : Int := wrap (v - 1)

theorem iterate_decrement (v : Int) (d : Nat) :
    decrement^[d] v = if d = 0 then v else wrap (v - d) := by
  induction d with
  | zero => rfl
  | succ d ih =>
    have less : v - (d + 1 : Nat) = v - d - 1 := by omega
    rw [Function.iterate_succ_apply', ih, if_neg (Nat.succ_ne_zero d), less]
    by_cases first : d = 0
    · rw [if_pos first, first]
      simp [decrement]
    · rw [if_neg first]
      exact wrap_sub (v - d) 1

end Word

def Instr.puts (r : Register) (i : Instr) : Bool := i.op == .put && i.reg == some r

theorem Instr.puts_iff {r : Register} {i : Instr} :
    i.puts r = true ↔ i.op = .put ∧ i.reg = some r := by
  simp [puts]

namespace Store
variable {T : Type} {a : Access T} {here : Int} {i : Instr} {s : Store T} {e : Effect T}

theorem act_put (op : i.op = .put) (acts : s.act a here i = .ok e) :
    e.store = (s.touch a).setRegister i.reg (s.cell a) := by
  simp only [act, op] at acts
  cases acts
  rfl

theorem act_dec (op : i.op = .dec) (acts : s.act a here i = .ok e) :
    e.store = { s with acc := Word.decrement s.acc } := by
  simp only [act, op] at acts
  cases acts
  rfl

theorem act_registers (notPut : i.op ≠ .put) (notDec : i.op ≠ .dec)
    (acts : s.act a here i = .ok e) : e.store.x = s.x ∧ e.store.acc = s.acc := by
  cases op : i.op with
  | put => exact absurd op notPut
  | dec => exact absurd op notDec
  | gol | gor | get | jmp | jnz | jlz | sav | out =>
    simp only [act, op] at acts
    cases acts
    exact ⟨rfl, rfl⟩
  | ret | inp =>
    simp only [act, op] at acts
    split at acts <;> cases acts
    exact ⟨rfl, rfl⟩
  | set | add | mul | div =>
    simp only [act, op] at acts
    obtain ⟨result, store⟩ := operate_ok acts
    rw [store]
    exact ⟨rfl, rfl⟩

theorem act_x (acts : s.act a here i = .ok e) :
    e.store.x = if i.puts .x then s.cell a else s.x := by
  by_cases put : i.op = .put
  · rw [act_put put acts]
    unfold setRegister
    by_cases first : i.reg = some .x
    · rw [if_pos first, if_pos (Instr.puts_iff.mpr ⟨put, first⟩)]
    · rw [if_neg first, if_neg fun puts => first (Instr.puts_iff.mp puts).2]
      rfl
  · rw [if_neg fun puts => put (Instr.puts_iff.mp puts).1]
    by_cases dec : i.op = .dec
    · rw [act_dec dec acts]
    · exact (act_registers put dec acts).1

theorem act_acc (wellFormed : i.WellFormed) (acts : s.act a here i = .ok e) :
    e.store.acc =
      if i.puts .acc then s.cell a
      else if i.op = .dec then Word.decrement s.acc else s.acc := by
  by_cases put : i.op = .put
  · have named : i.reg.isSome := by
      rw [wellFormed.reg, put]
      rfl
    obtain ⟨r, reg⟩ := Option.isSome_iff_exists.mp named
    rw [act_put put acts, reg]
    cases r with
    | x =>
      have other : ¬ i.puts .acc = true := by
        rw [Instr.puts_iff, reg]
        simp
      rw [if_neg other, put]
      rfl
    | acc =>
      rw [if_pos (Instr.puts_iff.mpr ⟨put, reg⟩)]
      rfl
  · rw [if_neg fun puts => put (Instr.puts_iff.mp puts).1]
    by_cases dec : i.op = .dec
    · rw [act_dec dec acts, if_pos dec]
    · rw [if_neg dec]
      exact (act_registers put dec acts).2

end Store

namespace Completion

/-- What the last `put` into a register has read, zero where there was none. -/
def lastPut (r : Register) (cs : List Completion) : Int :=
  ((cs.filter (·.instr.puts r)).getLast?.map (·.machine.cell)).getD 0

/-- How many `dec`s have followed the last `put` into the second register. -/
def decrements (cs : List Completion) : Nat :=
  (cs.rtakeWhile fun c => !c.instr.puts .acc).countP (·.instr.op = .dec)

theorem lastPut_append (r : Register) (cs : List Completion) (c : Completion) :
    lastPut r (cs ++ [c]) = if c.instr.puts r then c.machine.cell else lastPut r cs := by
  unfold lastPut
  rw [List.filter_append]
  split
  · rename_i puts
    simp [puts]
  · rename_i other
    simp [other]

theorem decrements_append (cs : List Completion) (c : Completion) :
    decrements (cs ++ [c]) =
      if c.instr.puts .acc then 0
      else if c.instr.op = .dec then decrements cs + 1 else decrements cs := by
  unfold decrements
  rw [List.rtakeWhile_concat]
  by_cases puts : c.instr.puts .acc = true
  · simp [puts]
  · by_cases dec : c.instr.op = .dec <;> simp [puts, dec]

end Completion

namespace Run
open Completion
variable {p : Program}

structure Recorded (r : Run) (done : List Completion) : Prop where
  x : r.machine.x = lastPut .x done
  acc : r.machine.acc = Word.decrement^[decrements done] (lastPut .acc done)

theorem Goes.recorded (linked : ∀ i ∈ p.code, i.Linked p.code.size) {r r' : Run}
    {done done' : List Completion} (goes : Goes p r done r' done') (recorded : r.Recorded done) :
    r'.Recorded done' := by
  cases goes with
  | stopped why => exact ⟨recorded.x, recorded.acc⟩
  | @completed i e ip inside fetched acts =>
    have wellFormed := (linked i (Program.mem_of_fetch fetched)).toWellFormed
    have acc : e.store.acc = if i.puts .acc then r.machine.cell
        else if i.op = .dec then Word.decrement r.machine.acc else r.machine.acc :=
      Store.act_acc wellFormed acts
    constructor
    · rw [lastPut_append, ← recorded.x]
      exact Store.act_x acts
    · rw [lastPut_append, decrements_append]
      by_cases puts : i.puts .acc = true
      · rw [if_pos puts] at acc
        rw [if_pos puts, if_pos puts]
        exact acc
      · rw [if_neg puts] at acc
        rw [if_neg puts, if_neg puts]
        by_cases dec : i.op = .dec
        · rw [if_pos dec, recorded.acc] at acc
          rw [if_pos dec, Function.iterate_succ_apply']
          exact acc
        · rw [if_neg dec, recorded.acc] at acc
          rw [if_neg dec]
          exact acc

theorem Goes.writes (linked : ∀ i ∈ p.code, i.Linked p.code.size) {r r' : Run}
    {done done' : List Completion} (goes : Goes p r done r' done') :
    (r'.machine.x ≠ r.machine.x →
        r'.stop = none ∧ ∃ i, p.fetch r.machine.ip = some i ∧ i.puts .x) ∧
      (r'.machine.acc ≠ r.machine.acc →
        r'.stop = none ∧ ∃ i, p.fetch r.machine.ip = some i ∧ (i.puts .acc ∨ i.op = .dec)) := by
  cases goes with
  | stopped why => exact ⟨fun changed => absurd rfl changed, fun changed => absurd rfl changed⟩
  | @completed i e ip inside fetched acts =>
    have wellFormed := (linked i (Program.mem_of_fetch fetched)).toWellFormed
    have x := Store.act_x acts
    have acc := Store.act_acc wellFormed acts
    constructor
    · intro changed
      refine ⟨rfl, i, fetched, ?_⟩
      by_contra other
      rw [if_neg other] at x
      exact changed x
    · intro changed
      refine ⟨rfl, i, fetched, ?_⟩
      by_contra other
      obtain ⟨notPut, notDec⟩ := not_or.mp other
      rw [if_neg notPut, if_neg notDec] at acc
      exact changed acc

end Run

/-- After any number of calls the first register holds what the last completed `put` has read into
it, and the second what the last one has read into that less the number of completed `dec`s since,
wrapped once. (Nothing is wrapped where none has followed, which makes a difference only to indices
that `sav` finds beyond the words.) Any other call leaves the registers alone. -/
theorem registers_recorded {source : Text} {assembly : Assembly} {p : Program}
    (assembled : Assembly.ofSource source = .ok assembly) (made : assembly.program = some p)
    (stream : Stream) (n : Nat) :
    let r := Run.after p stream n
    let r' := Run.after p stream (n + 1)
    let done := Run.completions p stream n
    let v := Completion.lastPut .acc done
    let d := Completion.decrements done
    r.machine.x = Completion.lastPut .x done ∧
      (p.code.size < 2 ^ 63 → r.machine.acc = Word.wrap (v - d)) ∧
      (r.machine.acc = if d = 0 then v else Word.wrap (v - d)) ∧
      (r'.machine.x ≠ r.machine.x →
        r'.stop = none ∧ ∃ i, p.fetch r.machine.ip = some i ∧ i.puts .x) ∧
      (r'.machine.acc ≠ r.machine.acc →
        r'.stop = none ∧ ∃ i, p.fetch r.machine.ip = some i ∧ (i.puts .acc ∨ i.op = .dec)) := by
  intro r r' done v d
  have linked := Assembly.linked_of_program assembled made
  have recorded : r.Recorded done :=
    Run.after_keep linked ⟨rfl, rfl⟩ (fun goes => goes.recorded linked) n
  have acc : r.machine.acc = if d = 0 then v else Word.wrap (v - d) :=
    recorded.acc.trans (Word.iterate_decrement v d)
  refine ⟨recorded.x, ?_, acc, (Run.after_cases linked stream n).writes linked⟩
  intro short
  have word : Word.InRange r.machine.acc := (Run.after_ranged linked short stream n).acc
  by_cases none : d = 0
  · rw [if_pos none] at acc
    have exact : v - d = r.machine.acc := by omega
    rw [exact, Word.wrap_of_inRange word]
  · rw [if_neg none] at acc
    exact acc

theorem registers_recorded_of_dec :
    let put (r : Register) : Instr := { op := .put, reg := some r }
    let dec : Instr := { op := .dec }
    let p : Program :=
      ⟨#[{ op := .set, value := some (.number (-9223372036854775808)) }, dec, put .acc, put .x,
        dec, dec], []⟩
    let m := (Run.after p (.text []) 6).machine
    Assembly.ofSource "set -9223372036854775808\ndec\nput acc\nput x\ndec\ndec\n" =
        .ok ⟨[], [], some p⟩ ∧
      m.x = -9223372036854775808 ∧ m.acc = Word.wrap (-9223372036854775808 - 2) ∧
      m.acc = 9223372036854775806 := by
  intro put dec p m
  have assembled :
      Assembly.ofSource "set -9223372036854775808\ndec\nput acc\nput x\ndec\ndec\n" =
        .ok ⟨[], [], some p⟩ := by
    decide +kernel
  have x : Completion.lastPut .x (Run.completions p (.text []) 6) = -9223372036854775808 := by
    decide +kernel
  have v : Completion.lastPut .acc (Run.completions p (.text []) 6) = -9223372036854775808 := by
    decide +kernel
  have d : Completion.decrements (Run.completions p (.text []) 6) = 2 := by decide +kernel
  obtain ⟨first, second, -⟩ := registers_recorded assembled rfl (.text []) 6
  have acc := second (by decide)
  rw [v, d] at acc
  exact ⟨assembled, first.trans x, acc, acc.trans (by decide)⟩

end TapeMachine
