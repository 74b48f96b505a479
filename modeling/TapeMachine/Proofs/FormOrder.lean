import TapeMachine.Proofs.Expectations

namespace TapeMachine

namespace Text

theorem nil_notAfter (a : Text) : notAfter [] a = true := by
  cases a <;> rfl

theorem notAfter_cons {c d : Char} {a b : Text} :
    notAfter (c :: a) (d :: b) = true ↔ c.toNat < d.toNat ∨ c = d ∧ notAfter a b = true := by
  have same : d = c ↔ d.toNat = c.toNat := ⟨congrArg _, Char.toNat_inj.mp⟩
  simp only [notAfter, List.lex, Bool.not_eq_true', Bool.or_eq_false_iff, decide_eq_false_iff_not,
    Bool.and_eq_false_iff, beq_eq_false_iff_ne, ne_eq, eq_comm (a := c), same]
  by_cases first : d.toNat = c.toNat
  · simp [first]
  · simp only [first, not_false_eq_true, true_or, and_true, false_and, or_false]
    omega

theorem notAfter_total (a b : Text) : (notAfter a b || notAfter b a) = true := by
  rw [Bool.or_eq_true]
  induction a generalizing b with
  | nil => exact .inl (nil_notAfter b)
  | cons c a ih =>
    cases b with
    | nil => exact .inr (nil_notAfter _)
    | cons d b =>
      rw [notAfter_cons, notAfter_cons]
      rcases Nat.lt_trichotomy c.toNat d.toNat with before | same | after
      · exact .inl (.inl before)
      · obtain rfl := Char.toNat_inj.mp same
        exact (ih b).imp (fun less => .inr ⟨rfl, less⟩) fun more => .inr ⟨rfl, more⟩
      · exact .inr (.inl after)

theorem notAfter_trans (a b c : Text) (first : notAfter a b = true) (second : notAfter b c = true) :
    notAfter a c = true := by
  induction a generalizing b c with
  | nil => exact nil_notAfter c
  | cons x a ih =>
    cases b with
    | nil => cases first
    | cons y b =>
      cases c with
      | nil => cases second
      | cons z c =>
        rw [notAfter_cons] at first second ⊢
        rcases first with less | ⟨rfl, first⟩
        · rcases second with less' | ⟨rfl, -⟩
          · exact .inl (Nat.lt_trans less less')
          · exact .inl less
        · exact second.imp id fun ⟨same, second⟩ => ⟨same, ih b c first second⟩

theorem notAfter_antisymm {a b : Text} (first : notAfter a b = true)
    (second : notAfter b a = true) : a = b := by
  induction a generalizing b with
  | nil =>
    cases b with
    | nil => rfl
    | cons d b => cases second
  | cons c a ih =>
    cases b with
    | nil => cases first
    | cons d b =>
      rw [notAfter_cons] at first second
      rcases first with less | ⟨rfl, first⟩
      · rcases second with less' | ⟨rfl, -⟩
        · omega
        · omega
      · rcases second with less | ⟨-, second⟩
        · omega
        · rw [ih first second]

theorem sortedSet_perm {ts us : List Text} (perm : ts.Perm us) : sortedSet ts = sortedSet us := by
  have sorted (vs : List Text) := List.pairwise_mergeSort notAfter_trans notAfter_total vs
  have same : (ts.mergeSort notAfter).Perm (us.mergeSort notAfter) :=
    (List.mergeSort_perm ts _).trans (perm.trans (List.mergeSort_perm us _).symm)
  rw [sortedSet, sortedSet, List.Perm.eq_of_pairwise (fun _ _ _ _ => notAfter_antisymm)
    (sorted ts) (sorted us) same]

end Text

namespace Mismatch

variable {ms ns : List Mismatch}

theorem furthest_perm (perm : ms.Perm ns) : furthest ms = furthest ns := by
  apply Nat.le_antisymm
  · exact furthest_le fun m member => le_furthest (perm.mem_iff.mp member)
  · exact furthest_le fun m member => le_furthest (perm.mem_iff.mpr member)

theorem atFurthest_perm (perm : ms.Perm ns) : (atFurthest ms).Perm (atFurthest ns) := by
  unfold atFurthest
  rw [furthest_perm perm]
  exact perm.filter _

theorem expected_perm (perm : ms.Perm ns) (t : Text) : expected t ms = expected t ns := by
  unfold expected
  rw [furthest_perm perm]
  exact Text.sortedSet_perm ((atFurthest_perm perm).map _)

/-- Only the context tells which of the mismatches came first. -/
theorem toError_perm (perm : ms.Perm ns) (t : Text) (offset : Nat) (terminated : Bool) :
    { toError ms t offset terminated with context := none } =
      { toError ns t offset terminated with context := none } := by
  simp only [toError, furthest_perm perm, expected_perm perm]

end Mismatch

/-- The form reads the line, or stops at a numeral on it: it does not leave the line to others. -/
def Form.Settles (f : Form) (t : Text) : Prop := ∀ i e, f.read t ≠ .error (.mismatch i e)

theorem Form.Settles.decides {f : Form} {t : Text} (settles : f.Settles t) (offset : Nat) :
    ∃ v, f.Decides t offset v := by
  cases read : f.read t with
  | ok ns =>
    obtain ⟨line, drafted, -⟩ := Form.makes_line read offset
    exact ⟨_, .accepted read drafted⟩
  | error why =>
    cases why with
    | mismatch i e => exact absurd read (settles i e)
    | overflow i w => exact ⟨_, .overflow read⟩
    | oversized digits => exact ⟨_, .oversized read⟩

namespace Verdict

def withoutContext : Verdict → Verdict
  | rejected e => rejected { e with context := none }
  | v => v

theorem byForms_of_decides {forms : List Form} {f : Form} {t : Text} {offset : Nat} {v : Verdict}
    (member : f ∈ forms) (decides : f.Decides t offset v) (terminated : Bool) :
    byForms forms t offset terminated = v := by
  unfold byForms
  cases first : forms.findSome? (ofForm? t offset) with
  | none =>
    have undecided := List.findSome?_eq_none_iff.mp first f member
    rw [ofForm?_eq_some.mpr decides] at undecided
    cases undecided
  | some u =>
    obtain ⟨g, -, byForm⟩ := List.exists_of_findSome?_eq_some first
    -- no two forms decide the same line
    obtain rfl := Form.eq_of_decides decides (ofForm?_eq_some.mp byForm)
    exact Option.some.inj (byForm.symm.trans (ofForm?_eq_some.mpr decides))

theorem byForms_of_undecided {forms : List Form} {t : Text} {offset : Nat}
    (undecided : ∀ f ∈ forms, ofForm? t offset f = none) (terminated : Bool) :
    byForms forms t offset terminated =
      .rejected (Mismatch.toError (forms.filterMap (mismatch? t)) t offset terminated) := by
  rw [byForms, List.findSome?_eq_none_iff.mpr undecided, Option.getD_none]

/-- At most one form reads a line or stops at a numeral on it, and the verdict on the line is the
same, apart from what was being read, in whatever order the forms are tried. -/
theorem byForms_perm {forms : List Form} (perm : forms.Perm Form.all) (t : Text) :
    (∀ f g : Form, f.Settles t → g.Settles t → f = g) ∧
    ∀ offset terminated, (byForms forms t offset terminated).withoutContext =
      (ofText t offset terminated).withoutContext := by
  constructor
  · intro f g settles settles'
    obtain ⟨u, decides⟩ := settles.decides 0
    obtain ⟨v, decides'⟩ := settles'.decides 0
    exact Form.eq_of_decides decides decides'
  · intro offset terminated
    have everyForm (f : Form) : f ∈ forms := perm.mem_iff.mpr f.mem_all
    rcases ofText_cases t offset terminated with ⟨f, decides⟩ | ⟨undecided, mismatched⟩
    · rw [byForms_of_decides (everyForm f) decides terminated]
    · have none : ∀ f ∈ forms, ofForm? t offset f = none := by
        intro f _
        apply Option.eq_none_iff_forall_ne_some.mpr
        intro v decided
        exact undecided f v (ofForm?_eq_some.mp decided)
      rw [byForms_of_undecided none terminated, mismatched]
      have failures : (forms.filterMap (mismatch? t)).Perm (Form.all.filterMap (mismatch? t)) :=
        perm.filterMap _
      exact congrArg rejected (Mismatch.toError_perm failures t offset terminated)

/-- A dollar sign neither ends a keyword nor goes on with a name. What is expected in front of it
does not depend on the order, but which of the two was being read does. -/
theorem byForms_perm_of_reverse :
    let t : Text := "gol$"
    Form.all.reverse.Perm Form.all ∧
      (ofText t 0 true).withoutContext = (byForms Form.all.reverse t 0 true).withoutContext ∧
      ofText t 0 true ≠ byForms Form.all.reverse t 0 true := by
  intro t
  have perm : Form.all.reverse.Perm Form.all := List.reverse_perm _
  refine ⟨perm, ((byForms_perm perm t).2 0 true).symm, ?_⟩
  have undecided : ∀ f ∈ Form.all, ofForm? t 0 f = none := by decide +kernel
  have undecided' : ∀ f ∈ Form.all.reverse, ofForm? t 0 f = none :=
    fun f member => undecided f (perm.mem_iff.mp member)
  have forward : Mismatch.context t (Form.all.filterMap (mismatch? t)) =
      (some "gol instruction" : Option Text) := by decide +kernel
  have backward : Mismatch.context t (Form.all.reverse.filterMap (mismatch? t)) =
      (some "label" : Option Text) := by decide +kernel
  rw [ofText, byForms_of_undecided undecided, byForms_of_undecided undecided']
  intro same
  have context := congrArg SyntaxError.context (Verdict.rejected.inj same)
  rw [Mismatch.toError, Mismatch.toError, forward, backward] at context
  exact absurd context (by decide)

end Verdict

end TapeMachine
