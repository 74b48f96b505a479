import TapeMachine.Proofs.Stopping

/-! What a program prints. Each `out` on the code point of a character prints one entry, nothing
else prints anything, and the entries can be told apart again: digits end at the colon behind them,
and behind that an entry goes on for a known number of characters, whichever they are. -/
namespace TapeMachine

namespace Word

/-- The code points of characters. Surrogates are none. -/
def IsScalar (v : Int) : Prop := 0 ≤ v ∧ v ≤ 0x10ffff ∧ ¬ (0xd800 ≤ v ∧ v ≤ 0xdfff)

instance (v : Int) : Decidable (IsScalar v) := inferInstanceAs (Decidable (_ ∧ _))

variable {v : Int} {c : Char}

theorem toNat_of_scalar? (scalar : scalar? v = some c) : v = c.toNat := by
  unfold scalar? at scalar
  split at scalar
  · rename_i valid
    cases scalar
    have code : (Char.ofNat v.toNat).toNat = v.toNat := by
      rw [Char.ofNat, dif_pos valid.2]
      rfl
    omega
  · cases scalar

theorem scalar?_eq_none_iff : scalar? v = none ↔ ¬ IsScalar v := by
  unfold scalar? IsScalar
  rw [ite_eq_right_iff]
  simp only [reduceCtorEq, imp_false, Nat.isValidChar]
  omega

theorem map_toNat_scalars (vs : List Int) :
    (vs.filterMap scalar?).map (fun c => (c.toNat : Int)) = vs.filter (IsScalar ·) := by
  induction vs with
  | nil => rfl
  | cons v vs ih =>
    cases scalar : scalar? v with
    | none =>
      have other := scalar?_eq_none_iff.mp scalar
      rw [List.filterMap_cons_none scalar, List.filter_cons_of_neg (by simpa using other), ih]
    | some c =>
      have code : IsScalar v := by
        by_contra other
        rw [scalar?_eq_none_iff.mpr other] at scalar
        cases scalar
      rw [List.filterMap_cons_some scalar, List.filter_cons_of_pos (by simpa using code),
        List.map_cons, ih, ← toNat_of_scalar? scalar]

end Word

namespace Transcript

def entry (c : Char) : Text := "(" ++ Decimal.ofNat c.toNat ++ ": " ++ [c] ++ ")"

/-- The values that a transcript tells, behind the `digits` of the first. -/
def valuesFrom (digits : Text) : Text → List Int
  | ':' :: ' ' :: _ :: ')' :: rest => Decimal.toNat digits :: valuesFrom [] rest
  | '(' :: rest => valuesFrom [] rest
  | c :: rest => valuesFrom (digits ++ [c]) rest
  | [] => []

def values (t : Text) : List Int := valuesFrom [] t

theorem valuesFrom_digit {c : Char} (digit : c.isDigit) (digits rest : Text) :
    valuesFrom digits (c :: rest) = valuesFrom (digits ++ [c]) rest := by
  rw [valuesFrom]
  · rintro _ _ rfl
    cases digit
  · rintro rfl
    cases digit

theorem valuesFrom_number {number : Text} (all : ∀ c ∈ number, c.isDigit) (digits : Text)
    (c : Char) (rest : Text) :
    valuesFrom digits (number ++ ':' :: ' ' :: c :: ')' :: rest) =
      (Decimal.toNat (digits ++ number) : Int) :: values rest := by
  induction number generalizing digits with
  -- the character behind the colon is passed over unseen: it may be a digit or a bracket itself
  | nil => rw [List.nil_append, List.append_nil, valuesFrom, values]
  | cons d number ih =>
    have digit := all d List.mem_cons_self
    have later := ih fun c member => all c (List.mem_cons_of_mem _ member)
    rw [List.cons_append, valuesFrom_digit digit, later, List.append_assoc, List.singleton_append]

theorem values_entry (c : Char) (rest : Text) :
    values (entry c ++ rest) = (c.toNat : Int) :: values rest := by
  have shape : entry c ++ rest =
      '(' :: (Decimal.ofNat c.toNat ++ ':' :: ' ' :: c :: ')' :: rest) := by
    simp [entry]
  rw [shape, values, valuesFrom, valuesFrom_number fun _ => Decimal.isDigit_of_mem_ofNat,
    List.nil_append, Decimal.toNat_ofNat]

theorem values_entries (cs : List Char) :
    values (cs.flatMap entry) = cs.map fun c => (c.toNat : Int) := by
  induction cs with
  | nil => rfl
  | cons c cs ih => rw [List.flatMap_cons, values_entry, ih, List.map_cons]

end Transcript

namespace Store

theorem entries_eq (vs : List Int) :
    vs.flatMap entry = (vs.filterMap Word.scalar?).flatMap Transcript.entry := by
  induction vs with
  | nil => rfl
  | cons v vs ih =>
    rw [List.flatMap_cons, ih, entry]
    cases scalar : Word.scalar? v with
    | none => rw [List.filterMap_cons_none scalar, List.nil_append]
    | some c =>
      rw [List.filterMap_cons_some scalar, List.flatMap_cons, Word.toNat_of_scalar? scalar]
      rfl

/-- Only `out` writes anything, and it writes the entry of its cell. -/
theorem act_written {T : Type} {a : Access T} {here : Int} {i : Instr} {s : Store T} {e : Effect T}
    (acts : s.act a here i = .ok e) :
    e.written = if i.op = .out then entry (s.cell a) else [] := by
  cases op : i.op with
  | out =>
    simp only [act, op] at acts
    cases acts
    rfl
  | gol | gor | get | put | jmp | jnz | jlz | sav | dec =>
    simp only [act, op] at acts
    cases acts
    rfl
  | ret | inp | set | add | mul | div =>
    simp only [act, operate, op] at acts
    repeat' split at acts
    all_goals cases acts
    all_goals rfl

end Store

def Completion.outs (cs : List Completion) : List Int :=
  (cs.filter (·.instr.op = .out)).map (·.machine.cell)

namespace Run
variable {p : Program}

def Printed (r : Run) (done : List Completion) : Prop :=
  r.written.toList = (Completion.outs done).flatMap Store.entry

theorem Goes.printed {r r' : Run} {done done' : List Completion} (goes : Goes p r done r' done')
    (printed : r.Printed done) : r'.Printed done' := by
  cases goes with
  | stopped why => exact printed
  | @completed i e ip inside fetched acts =>
    have more : (r.written ++ e.written).toList = r.written.toList ++ e.written := by simp
    rw [Printed, more, printed, Store.act_written acts, Completion.outs, Completion.outs,
      List.filter_append, List.map_append, List.flatMap_append]
    congr 1
    by_cases out : i.op = .out
    · rw [if_pos out, List.filter_cons_of_pos (by simpa using out)]
      simp [Machine.store_cell]
    · rw [if_neg out, List.filter_cons_of_neg (by simpa using out)]
      rfl

variable (linked : ∀ i ∈ p.code, i.Linked p.code.size) (stream : Stream) (n : Nat)
include linked

theorem after_written : (after p stream n).written.toList =
    ((Completion.outs (completions p stream n)).filterMap Word.scalar?).flatMap
      Transcript.entry := by
  have printed : (after p stream n).Printed (completions p stream n) :=
    after_keep linked rfl Goes.printed n
  rw [← Store.entries_eq]
  exact printed

theorem values_after_written : Transcript.values (after p stream n).written.toList =
    (Completion.outs (completions p stream n)).filter (Word.IsScalar ·) := by
  rw [after_written linked, Transcript.values_entries, Word.map_toNat_scalars]

end Run

/-- After any number of calls the text that has been written is made of the entries of the
characters whose code points completed `out`s have found, in their order, with nothing for other
values. The code points can be read back from it, so that runs which have printed different values
have written different texts. -/
theorem output_decodable {source : Text} {assembly : Assembly} {p : Program}
    (assembled : Assembly.ofSource source = .ok assembly) (made : assembly.program = some p)
    (stream : Stream) (n : Nat) :
    let written := (Run.after p stream n).written.toList
    let printed := (Completion.outs (Run.completions p stream n)).filter (Word.IsScalar ·)
    (∃ cs : List Char, (cs.map fun c => (c.toNat : Int)) = printed ∧
      written = cs.flatMap Transcript.entry) ∧
    Transcript.values written = printed ∧
    ∀ (source' : Text) (assembly' : Assembly) (p' : Program) (stream' : Stream) (n' : Nat),
      Assembly.ofSource source' = .ok assembly' → assembly'.program = some p' →
      (Completion.outs (Run.completions p' stream' n')).filter (Word.IsScalar ·) ≠ printed →
        (Run.after p' stream' n').written.toList ≠ written := by
  intro written printed
  have linked := Assembly.linked_of_program assembled made
  have told : Transcript.values written = printed := Run.values_after_written linked stream n
  refine ⟨⟨_, Word.map_toNat_scalars _, Run.after_written linked stream n⟩, told, ?_⟩
  intro source' assembly' p' stream' n' assembled' made' different same
  have linked' := Assembly.linked_of_program assembled' made'
  have told' := Run.values_after_written linked' stream' n'
  rw [same, told] at told'
  exact different told'.symm

/-- A closing bracket is printed, then a value without a character is passed over, then the digit
of which another program prints more. -/
theorem output_decodable_of_brackets :
    let out : Instr := { op := .out }
    let set (v : Int) : Instr := { op := .set, value := some (.number v) }
    let p : Program := ⟨#[set 41, out, set 55296, out, set 49, out], []⟩
    let q : Program := ⟨#[set 41, out, set 49, out, out], []⟩
    Assembly.ofSource "set 41\nout\nset 55296\nout\nset 49\nout\n" = .ok ⟨[], [], some p⟩ ∧
      Assembly.ofSource "set 41\nout\nset 49\nout\nout\n" = .ok ⟨[], [], some q⟩ ∧
      (Run.after p (.text []) 6).written.toList = ("(41: ))(49: 1)" : Text) ∧
      Transcript.values "(41: ))(49: 1)" = [41, 49] ∧
      (Run.after q (.text []) 5).written.toList ≠ ("(41: ))(49: 1)" : Text) := by
  intro out set p q
  have first : Assembly.ofSource "set 41\nout\nset 55296\nout\nset 49\nout\n" =
      .ok ⟨[], [], some p⟩ := by
    decide +kernel
  have second : Assembly.ofSource "set 41\nout\nset 49\nout\nout\n" = .ok ⟨[], [], some q⟩ := by
    decide +kernel
  have written : (Run.after p (.text []) 6).written.toList = ("(41: ))(49: 1)" : Text) := by
    decide +kernel
  obtain ⟨-, told, apart⟩ := output_decodable first rfl (.text []) 6
  rw [written] at told apart
  refine ⟨first, second, written, told.trans (by decide +kernel), ?_⟩
  exact apart _ _ q (.text []) 5 second rfl (by decide +kernel)

end TapeMachine
