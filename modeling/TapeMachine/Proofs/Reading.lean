import TapeMachine.Proofs.Tokens
import TapeMachine.Proofs.WellFormed

namespace TapeMachine

open Text

/-- A numeral that a text holds as a word of its own, behind a blank. -/
structure Text.Literal (t : Text) (i : Nat) (w : Text) (n : Int) : Prop where
  numeral : Numeral w n
  whole : ∃ before c behind, t = before ++ c :: (w ++ behind) ∧ before.length + 1 = i ∧
    CharClass.padding c ∧ Stops CharClass.word behind

theorem Text.Literal.digitCount_le {t w : Text} {i : Nat} {n : Int} (literal : t.Literal i w n) :
    Element.digitCount w ≤ t.length := by
  obtain ⟨-, before, c, behind, rfl, -⟩ := literal
  have inside : (w ++ behind).length ≤ (before ++ c :: (w ++ behind)).length := by
    simp only [List.length_append, List.length_cons]
    omega
  have front : w.length ≤ (w ++ behind).length := by simp
  exact Nat.le_trans List.countP_le_length (Nat.le_trans front inside)

namespace Form

inductive Fails (t : Text) : Failure → Prop
  | mismatch {i : Nat} {e : Element} (inside : i ≤ t.length) : Fails t (.mismatch i e)
  | overflow {i : Nat} {w : Text} {n : Int} (literal : t.Literal i w n)
      (outside : ¬ Word.InRange n) : Fails t (.overflow i w)
  | oversized {i : Nat} {w : Text} {n : Int} (literal : t.Literal i w n)
      (long : maxDigits < Element.digitCount w) : Fails t (.oversized (Element.digitCount w))

theorem mem_all (f : Form) : f ∈ all := by
  cases f with
  | instr op => exact List.mem_append_left _ (List.mem_map_of_mem op.mem_all)
  | label => exact List.mem_append_right _ List.mem_cons_self

theorem elements_of_value {f : Form} (member : .value ∈ f.elements) :
    ∃ op, f = instr op ∧ op.takesValue ∧
      f.elements = [.keyword op, .separator, .value, .lineEnd] := by
  cases f with
  | label => simp [elements] at member
  | instr op =>
    refine ⟨op, rfl, ?_⟩
    cases op with
    | set | add | mul | div => exact ⟨rfl, rfl⟩
    | _ => simp [elements, operands] at member

end Form

namespace Element

theorem Fails.mismatch_of_ne {e : Element} {i : Nat} {t : Text} {why : Failure}
    (fails : e.Fails i t why) (other : e ≠ .value) : ∃ j, why = .mismatch j e := by
  cases fails with
  | mismatch => exact ⟨_, rfl⟩
  | overflow | oversized => exact absurd rfl other

theorem readAll_error_later {e : Element} {es : List Element} {offset : Nat} {t : Text}
    {why : Failure} (failed : readAll (e :: es) offset t = .error why)
    (other : e ≠ .value) (fatal : ∀ i e, why ≠ .mismatch i e) :
    ∃ first, e.read offset t = .ok first ∧ readAll es first.offset first.rest = .error why := by
  rcases readAll_cons_error failed with here | later
  · obtain ⟨gap, behind, -, -, fails⟩ := read_error here
    obtain ⟨j, rfl⟩ := fails.mismatch_of_ne other
    exact absurd rfl (fatal j e)
  · exact later

/-- A form that takes a value fails for good only at the value, behind its keyword and a
separator. -/
theorem value_reached {op : Opcode} {t : Text} {why : Failure}
    (failed : readAll [.keyword op, .separator, .value, .lineEnd] 0 t = .error why)
    (fatal : ∀ i e, why ≠ .mismatch i e) : ∃ before lead gap trail behind,
      t = before ++ (op.keyword ++ (lead ++ (gap ++ (trail ++ behind)))) ∧
      (∀ c ∈ before, CharClass.padding c) ∧ (∀ c ∈ lead, CharClass.separatorPadding c) ∧
      (gap ≠ [] ∧ ∀ c ∈ gap, CharClass.gap c) ∧ (∀ c ∈ trail, CharClass.padding c) ∧
      Fails .value (before ++ op.keyword ++ lead ++ gap ++ trail).length behind why := by
  obtain ⟨first, keyword, rest⟩ := readAll_error_later failed nofun fatal
  obtain ⟨second, separator, last⟩ := readAll_error_later rest nofun fatal
  obtain ⟨before, w, split, padded, ⟨rfl, -⟩, -, moved⟩ := read_ok_iff.mp keyword
  obtain ⟨lead, gap, split', leads, ⟨nonempty, gaps, -⟩, -, moved'⟩ := read_ok_iff.mp separator
  rcases readAll_cons_error last with here | ⟨third, -, beyond⟩
  · obtain ⟨trail, behind, split'', trails, fails⟩ := read_error here
    refine ⟨before, lead, gap, trail, behind, by rw [split, split', split''], padded, leads,
      ⟨nonempty, gaps⟩, trails, ?_⟩
    rw [moved', moved, Nat.zero_add] at fails
    simpa only [List.length_append] using fails
  · obtain ⟨_, -, impossible⟩ := readAll_error_later beyond nofun fatal
    cases impossible

theorem value_fails {op : Opcode} {t : Text} {why : Failure}
    (failed : readAll [.keyword op, .separator, .value, .lineEnd] 0 t = .error why)
    (fatal : ∀ i e, why ≠ .mismatch i e) : ∃ before c behind, t = before ++ c :: behind ∧
      CharClass.padding c ∧ Fails .value (before.length + 1) behind why := by
  obtain ⟨indent, lead, gap, trail, behind, split, -, -, ⟨nonempty, blank⟩, padded, fails⟩ :=
    value_reached failed fatal
  obtain ⟨front, c, closed, last⟩ := exists_last_blank nonempty blank padded
  refine ⟨indent ++ op.keyword ++ lead ++ front, c, behind, ?_, last, ?_⟩
  · rw [split, ← List.append_assoc gap trail, closed]
    simp
  · rw [List.append_assoc _ gap, closed, ← List.append_assoc, List.length_append,
      List.length_singleton] at fails
    exact fails

end Element

theorem Form.fails_of_value {before behind : Text} {c : Char} {i : Nat} {why : Failure}
    (blank : CharClass.padding c) (place : before.length + 1 = i)
    (fails : Element.Fails .value i behind why) : Fails (before ++ c :: behind) why := by
  cases fails with
  | mismatch reached inside =>
    refine .mismatch ?_
    rw [List.length_append, List.length_cons]
    omega
  | overflow numeral stops outside =>
    exact .overflow ⟨numeral, before, c, _, rfl, place, blank, stops⟩ outside
  | oversized numeral stops long =>
    exact .oversized ⟨numeral, before, c, _, rfl, place, blank, stops⟩ long

theorem Form.fails_of_error {f : Form} {t : Text} {why : Failure}
    (failed : f.read t = .error why) : Fails t why := by
  obtain ⟨e, member, before, behind, split, fails⟩ := Element.readAll_error failed
  cases why with
  | mismatch i wanted =>
    cases fails with
    | mismatch reached inside =>
      rw [Nat.zero_add, ← List.length_append, ← split] at inside
      exact .mismatch inside
  | overflow | oversized =>
    have value : e = .value := by
      cases fails
      rfl
    obtain ⟨op, -, -, elements⟩ := elements_of_value (value ▸ member)
    unfold Form.read at failed
    rw [elements] at failed
    obtain ⟨front, c, rest, rfl, blank, fails⟩ := Element.value_fails failed nofun
    exact fails_of_value blank rfl fails

def SyntaxError.ofOverflow (start : Nat) (literal : Text) : SyntaxError where
  span := .of start literal.length
  expected := []
  found := some literal
  reason := some Verdict.overflowReason

inductive Form.Decides (f : Form) (t : Text) (offset : Nat) : Verdict → Prop
  | accepted {ns : List Note} {line : Line} (read : f.read t = .ok ns)
      (drafted : ((Draft.blank offset).notes ns).line = .ok line) :
      Decides f t offset (.accepted line)
  | overflow {i : Nat} {w : Text} (failed : f.read t = .error (.overflow i w)) :
      Decides f t offset (.rejected (.ofOverflow (offset + i) w))
  | oversized {digits : Nat} (failed : f.read t = .error (.oversized digits)) :
      Decides f t offset (.refused (.oversized digits))

namespace Verdict

theorem ofForm?_eq_some {f : Form} {t : Text} {offset : Nat} {v : Verdict} :
    ofForm? t offset f = some v ↔ f.Decides t offset v := by
  constructor
  · intro decided
    unfold ofForm? at decided
    cases read : f.read t with
    | ok ns =>
      obtain ⟨line, drafted, -⟩ := Form.makes_line read offset
      rw [read] at decided
      simp only [drafted] at decided
      cases decided
      exact .accepted read drafted
    | error why =>
      rw [read] at decided
      cases why with
      | mismatch => cases decided
      | overflow i w =>
        cases decided
        exact .overflow read
      | oversized digits =>
        cases decided
        exact .oversized read
  · intro decides
    cases decides with
    | accepted read drafted => simp only [ofForm?, read, drafted]
    | overflow failed | oversized failed => simp only [ofForm?, failed, SyntaxError.ofOverflow]

/-- A form decides about a line, or they all fail on it and the verdict is their mismatches. -/
theorem ofText_cases (t : Text) (offset : Nat) (terminated : Bool) :
    (∃ f : Form, f.Decides t offset (ofText t offset terminated)) ∨
    (∀ (f : Form) v, ¬ f.Decides t offset v) ∧ ofText t offset terminated =
      .rejected (Mismatch.toError (Form.all.filterMap (mismatch? t)) t offset terminated) := by
  unfold ofText byForms
  cases decided : Form.all.findSome? (ofForm? t offset) with
  | some v =>
    obtain ⟨f, -, byForm⟩ := List.exists_of_findSome?_eq_some decided
    exact .inl ⟨f, ofForm?_eq_some.mp byForm⟩
  | none =>
    refine .inr ⟨?_, rfl⟩
    intro f v decides
    have undecided := List.findSome?_eq_none_iff.mp decided f (Form.mem_all f)
    rw [ofForm?_eq_some.mpr decides] at undecided
    cases undecided

theorem read_of_accepted {t : Text} {offset : Nat} {terminated : Bool} {line : Line}
    (accepted : ofText t offset terminated = .accepted line) :
    ∃ (f : Form) (ns : List Note), f.read t = .ok ns ∧
      ((Draft.blank offset).notes ns).line = .ok line := by
  rcases ofText_cases t offset terminated with ⟨f, decides⟩ | ⟨-, mismatched⟩
  · rw [accepted] at decides
    cases decides with
    | accepted read drafted => exact ⟨f, _, read, drafted⟩
  · rw [accepted] at mismatched
    cases mismatched

theorem failed_of_rejected {t : Text} {offset : Nat} {terminated : Bool} {e : SyntaxError}
    (rejected : ofText t offset terminated = .rejected e) :
    (∃ (f : Form) (i : Nat) (w : Text), f.read t = .error (.overflow i w) ∧
      e = .ofOverflow (offset + i) w) ∨
    e = Mismatch.toError (Form.all.filterMap (mismatch? t)) t offset terminated := by
  rcases ofText_cases t offset terminated with ⟨f, decides⟩ | ⟨-, mismatched⟩
  · rw [rejected] at decides
    cases decides with
    | overflow failed => exact .inl ⟨f, _, _, failed, rfl⟩
  · rw [rejected] at mismatched
    cases mismatched
    exact .inr rfl

theorem failed_of_refused {t : Text} {offset : Nat} {terminated : Bool} {why : Refusal}
    (refused : ofText t offset terminated = .refused why) :
    ∃ (f : Form) (digits : Nat), f.read t = .error (.oversized digits) ∧
      why = .oversized digits := by
  rcases ofText_cases t offset terminated with ⟨f, decides⟩ | ⟨-, mismatched⟩
  · rw [refused] at decides
    cases decides with
    | oversized failed => exact ⟨f, _, failed, rfl⟩
  · rw [refused] at mismatched
    cases mismatched

end Verdict

namespace Listing

/-- What each line of a source adds to what is read from the lines behind it. -/
inductive Reads : List Piece → Listing → Prop
  | nil : Reads [] empty
  | blank {p : Piece} {ps : List Piece} {l : Listing} (blank : p.blank) (rest : Reads ps l) :
      Reads (p :: ps) l
  | accepted {p : Piece} {ps : List Piece} {l : Listing} {line : Line} (filled : p.blank = false)
      (terminated : p.terminated) (verdict : p.verdict = .accepted line) (rest : Reads ps l) :
      Reads (p :: ps) (withLine line l)
  | rejected {p : Piece} {ps : List Piece} {l : Listing} {e : SyntaxError}
      (filled : p.blank = false) (terminated : p.terminated) (verdict : p.verdict = .rejected e)
      (rest : Reads ps l) : Reads (p :: ps) (withError e l)
  | unfinished {p : Piece} {ps : List Piece} (filled : p.blank = false)
      (open_ : p.terminated = false) : Reads (p :: ps) (unfinished p.stop)

theorem reads_of_ofPieces {ps : List Piece} {listing : Listing}
    (read : ofPieces ps = .ok listing) : Reads ps listing := by
  induction ps generalizing listing with
  | nil =>
    cases read
    exact .nil
  | cons p ps ih =>
    unfold ofPieces at read
    cases blank : p.blank with
    | true =>
      rw [if_pos blank] at read
      exact .blank blank (ih read)
    | false =>
      rw [if_neg (by simp [blank])] at read
      cases terminated : p.terminated with
      | false =>
        rw [if_neg (by simp [terminated])] at read
        cases read
        exact .unfinished blank terminated
      | true =>
        rw [if_pos terminated] at read
        cases verdict : p.verdict with
        | refused why =>
          rw [verdict] at read
          cases read
        | accepted line =>
          cases rest : ofPieces ps with
          | error why =>
            rw [verdict, rest] at read
            cases read
          | ok l =>
            rw [verdict, rest] at read
            cases read
            exact .accepted blank terminated verdict (ih rest)
        | rejected e =>
          cases rest : ofPieces ps with
          | error why =>
            rw [verdict, rest] at read
            cases read
          | ok l =>
            rw [verdict, rest] at read
            cases read
            exact .rejected blank terminated verdict (ih rest)

theorem ofPieces_of_reads {ps : List Piece} {listing : Listing} (reads : Reads ps listing) :
    ofPieces ps = .ok listing := by
  induction reads with
  | nil => rfl
  | blank blank rest ih =>
    unfold ofPieces
    rw [if_pos blank, ih]
  | accepted filled terminated verdict rest ih | rejected filled terminated verdict rest ih =>
    unfold ofPieces
    rw [if_neg (by simp [filled]), if_pos terminated, verdict, ih]
    rfl
  | unfinished filled ends =>
    unfold ofPieces
    rw [if_neg (by simp [filled]), if_neg (by simp [ends])]

theorem exists_reads {ps : List Piece}
    (decided : ∀ p ∈ ps, p.terminated → ∀ why, p.verdict ≠ .refused why) : ∃ l, Reads ps l := by
  induction ps with
  | nil => exact ⟨_, .nil⟩
  | cons p ps ih =>
    obtain ⟨l, rest⟩ := ih fun q member => decided q (List.mem_cons_of_mem _ member)
    cases blank : p.blank with
    | true => exact ⟨l, .blank blank rest⟩
    | false =>
      cases terminated : p.terminated with
      | false => exact ⟨_, .unfinished blank terminated⟩
      | true =>
        cases verdict : p.verdict with
        | accepted line => exact ⟨_, .accepted blank terminated verdict rest⟩
        | rejected e => exact ⟨_, .rejected blank terminated verdict rest⟩
        | refused why => exact absurd verdict (decided p List.mem_cons_self terminated why)

end Listing

end TapeMachine
