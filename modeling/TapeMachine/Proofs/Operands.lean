import TapeMachine.Proofs.Printing
import TapeMachine.Proofs.Recovery

namespace TapeMachine

open Text

/-- A numeral in the place of the value that the instruction of the line takes. It does not matter
what follows it, as long as no word goes on there. -/
structure Text.NumericOperand (t : Text) (i : Nat) (w : Text) (n : Int) : Prop where
  numeral : Numeral w n
  place : ∃ before op gap behind, t = before ++ (Opcode.keyword op ++ (gap ++ (w ++ behind))) ∧
    before.length + op.keyword.length + gap.length = i ∧ (∀ c ∈ before, Blank c) ∧
    op.takesValue ∧ Separator gap ∧ Stops CharClass.word behind

namespace Element

variable {e : Element} {es : List Element} {offset : Nat} {t : Text} {first : Reading}
  {why : Failure}

theorem readAll_error_of_first (failed : e.read offset t = .error why) :
    readAll (e :: es) offset t = .error why := by
  simp only [readAll, failed, bind, Except.bind]

theorem readAll_error_of_later (read : e.read offset t = .ok first)
    (failed : readAll es first.offset first.rest = .error why) :
    readAll (e :: es) offset t = .error why := by
  simp only [readAll, read, failed, bind, Except.bind]

theorem value_error {w behind : Text} {n : Int} (numeral : Numeral w n)
    (stops : Stops CharClass.word behind) (failed : number offset w = .error why) :
    Element.value.token offset (w ++ behind) = .error why := by
  have notX : afterWord? Register.x.keyword (w ++ behind) = none :=
    afterWord?_x_of_numeral numeral behind
  simp only [token, notX, numeral?_append numeral stops, failed]
  rfl

theorem number_of_long {w : Text} (long : maxDigits < digitCount w) :
    number offset w = .error (.oversized (digitCount w)) := if_pos long

theorem number_of_outside {w : Text} {n : Int} (numeral : Numeral w n)
    (short : digitCount w ≤ maxDigits) (outside : ¬ Word.InRange n) :
    number offset w = .error (.overflow offset w) := by
  unfold number
  rw [if_neg (Nat.not_lt_of_le short), numeral.toInt]
  exact if_neg outside

end Element

namespace Form

open Element

theorem elements_of_takesValue {op : Opcode} (takes : op.takesValue) :
    (instr op).elements = [.keyword op, .separator, .value, .lineEnd] := by
  cases op with
  | set | add | mul | div => rfl
  | _ => cases takes

theorem read_of_operand {t w : Text} {i : Nat} {n : Int} {why : Failure}
    (operand : t.NumericOperand i w n) (failed : number i w = .error why) :
    ∃ f : Form, f.read t = .error why := by
  obtain ⟨numeral, before, op, gap, behind, rfl, place, blanks, takes, separator, stops⟩ := operand
  refine ⟨instr op, ?_⟩
  have keyword : (Element.keyword op).read 0 (before ++ (op.keyword ++ (gap ++ (w ++ behind)))) =
      .ok ⟨[.opcode op], 0 + before.length + op.keyword.length, gap ++ (w ++ behind)⟩ :=
    read_ok_iff.mpr ⟨before, op.keyword, rfl, fun c member => (blanks c member).padding,
      ⟨rfl, rfl⟩, separator.stops, rfl⟩
  have ends : Stops CharClass.padding (w ++ behind) := by
    obtain ⟨c, rest, rfl, digit | rfl⟩ := numeral.head
    · exact CharClass.not_padding_of_word (CharClass.word_of_isDigit digit)
    · rfl
  obtain ⟨j, trail, read, trails, moved⟩ := separator_complete separator ends
    (0 + before.length + op.keyword.length)
  have value : Element.value.read j (trail ++ (w ++ behind)) = .error why := by
    have skipped : ∀ c ∈ trail, Element.value.skips c := fun c member => (trails c member).padding
    rw [read_append skipped ends]
    refine value_error numeral stops ?_
    rwa [moved, Nat.zero_add, place]
  rw [Form.read, elements_of_takesValue takes]
  exact readAll_error_of_later keyword (readAll_error_of_later read (readAll_error_of_first value))

/-- A line is refused only for an operand with too many digits. -/
theorem operand_of_oversized {f : Form} {t : Text} {digits : Nat} (oneLine : '\n' ∉ t)
    (failed : f.read t = .error (.oversized digits)) :
    ∃ i w n, t.NumericOperand i w n ∧ maxDigits < digitCount w ∧ digits = digitCount w := by
  have member : .value ∈ f.elements := by
    obtain ⟨e, member, before, behind, -, fails⟩ := readAll_error failed
    cases fails
    exact member
  obtain ⟨op, rfl, takes, elements⟩ := elements_of_value member
  rw [Form.read, elements] at failed
  obtain ⟨before, lead, gap, trail, behind, rfl, padded, leads, ⟨nonempty, gaps⟩, trails, fails⟩ :=
    value_reached failed (by simp)
  have blank : ∀ w : Text, (∀ c ∈ w, CharClass.padding c) → '\n' ∉ w → ∀ c ∈ w, Blank c := by
    intro w padding free c member
    rcases padding_iff.mp (padding c member) with blank | rfl
    · exact blank
    · exact absurd member free
  simp only [List.mem_append, not_or] at oneLine
  obtain ⟨inFront, -, -, -, inTrail, -⟩ := oneLine
  cases fails with
  | oversized numeral stops long =>
    have separator : Separator (lead ++ (gap ++ trail)) :=
      ⟨lead, gap, trail, rfl, leads, nonempty, gaps, blank trail trails inTrail⟩
    exact ⟨_, _, _, ⟨numeral, before, op, lead ++ (gap ++ trail), _, by simp, rfl,
      blank before padded inFront, takes, separator, stops⟩, long, rfl⟩

end Form

namespace Verdict

variable {t w : Text} {i : Nat} {n : Int}

theorem refused_of_operand (operand : t.NumericOperand i w n)
    (long : maxDigits < Element.digitCount w) (offset : Nat) (terminated : Bool) :
    ofText t offset terminated = .refused (.oversized (Element.digitCount w)) := by
  obtain ⟨f, failed⟩ := Form.read_of_operand operand (Element.number_of_long long)
  exact ofText_eq (.oversized failed) terminated

theorem rejected_of_operand (operand : t.NumericOperand i w n)
    (short : Element.digitCount w ≤ maxDigits) (outside : ¬ Word.InRange n) (offset : Nat)
    (terminated : Bool) : ofText t offset terminated = .rejected (.ofOverflow (offset + i) w) := by
  obtain ⟨f, failed⟩ :=
    Form.read_of_operand operand (Element.number_of_outside operand.numeral short outside)
  exact ofText_eq (.overflow failed) terminated

theorem operand_of_refused {offset : Nat} {terminated : Bool} {why : Refusal} (oneLine : '\n' ∉ t)
    (refused : ofText t offset terminated = .refused why) : ∃ i w n, t.NumericOperand i w n ∧
      maxDigits < Element.digitCount w ∧ why = .oversized (Element.digitCount w) := by
  obtain ⟨f, digits, failed, rfl⟩ := failed_of_refused refused
  obtain ⟨i, w, n, operand, long, rfl⟩ := Form.operand_of_oversized oneLine failed
  exact ⟨i, w, n, operand, long, rfl⟩

end Verdict

namespace Piece

/-- The errors about a line: none about a blank one, and about one that no newline ends only that
there is none. -/
def errors (p : Piece) : List SyntaxError :=
  if p.blank then []
  else if p.terminated then
    match p.verdict with
    | .rejected e => [e]
    | .accepted _ | .refused _ => []
  else (Listing.unfinished p.stop).errors

theorem errors_of_rejected {p : Piece} {e : SyntaxError} (filled : p.blank = false)
    (terminated : p.terminated) (rejected : p.verdict = .rejected e) : p.errors = [e] := by
  simp [errors, filled, terminated, rejected]

/-- Only the last line of a source may lack its newline. -/
theorem ofLines_pairwise (offset : Nat) (ls : List Text) :
    (ofLines offset ls).Pairwise fun p _ => p.terminated := by
  induction ls generalizing offset with
  | nil => exact .nil
  | cons l ls ih =>
    cases ls with
    | nil => exact List.pairwise_singleton _ _
    | cons next ls =>
      rw [ofLines_cons (List.cons_ne_nil next ls)]
      exact .cons (fun _ _ => rfl) (ih _)

theorem filled_of_operand {p : Piece} {w : Text} {i : Nat} {n : Int}
    (operand : p.text.NumericOperand i w n) : p.blank = false := by
  obtain ⟨-, before, op, gap, behind, split, -⟩ := operand
  obtain ⟨c, word, spelled, start, -⟩ := Form.keyword_identifier op
  have filled := CharClass.not_space_of_word (CharClass.word_of_wordStart start)
  simp [blank, split, spelled, filled]

end Piece

namespace Listing

variable {ps : List Piece} {l : Listing}

theorem last_of_open {p : Piece} (ordered : (p :: ps).Pairwise fun p _ => p.terminated)
    (open_ : p.terminated = false) : ps = [] := by
  cases ps with
  | nil => rfl
  | cons q ps =>
    have closed := List.rel_of_pairwise_cons ordered List.mem_cons_self
    rw [open_] at closed
    cases closed

theorem errors_of_reads (reads : Reads ps l) (ordered : ps.Pairwise fun p _ => p.terminated) :
    l.errors = ps.flatMap Piece.errors := by
  induction reads with
  | nil => rfl
  | blank blank rest ih =>
    rw [List.flatMap_cons, ← ih ordered.of_cons]
    simp [Piece.errors, blank]
  | accepted filled terminated verdict rest ih =>
    rw [List.flatMap_cons, ← ih ordered.of_cons]
    simp [Piece.errors, filled, terminated, verdict, withLine]
  | rejected filled terminated verdict rest ih =>
    rw [List.flatMap_cons, ← ih ordered.of_cons, Piece.errors_of_rejected filled terminated verdict]
    rfl
  | @unfinished p ps filled open_ =>
    simp [last_of_open ordered open_, Piece.errors, filled, open_]

theorem lines_eq_none_of_reads (reads : Reads ps l) :
    l.lines = none ↔ ∃ p ∈ ps, p.blank = false ∧ p.terminated = false := by
  induction reads with
  | nil => simp [empty]
  | blank blank rest ih => simp [ih, blank]
  | accepted filled terminated verdict rest ih | rejected filled terminated verdict rest ih =>
    simp [withLine, withError, ih, terminated]
  | unfinished filled open_ => simp [unfinished, filled, open_]

theorem error_of_map {α β : Type} {f : α → β} {x : Except Refusal α} {why : Refusal}
    (failed : x.map f = .error why) : x = .error why := by
  cases x with
  | ok a => cases failed
  | error other =>
    cases failed
    rfl

theorem ofPieces_of_refused {p : Piece} {why : Refusal} (filled : p.blank = false)
    (terminated : p.terminated) (refused : p.verdict = .refused why) :
    ofPieces (p :: ps) = .error why := by
  unfold ofPieces
  rw [if_neg (by simp [filled]), if_pos terminated, refused]

theorem refused_of_ofPieces {why : Refusal} (failed : ofPieces ps = .error why) :
    ∃ p ∈ ps, p.terminated ∧ p.verdict = .refused why := by
  induction ps with
  | nil => cases failed
  | cons p ps ih =>
    have later (rest : ofPieces ps = .error why) :
        ∃ q ∈ p :: ps, q.terminated ∧ q.verdict = .refused why := by
      obtain ⟨q, member, refused⟩ := ih rest
      exact ⟨q, List.mem_cons_of_mem _ member, refused⟩
    unfold ofPieces at failed
    split at failed
    · exact later failed
    · split at failed
      · rename_i terminated
        split at failed
        · exact later (error_of_map failed)
        · exact later (error_of_map failed)
        · rename_i refused
          cases failed
          exact ⟨p, List.mem_cons_self, terminated, refused⟩
      · cases failed

theorem ne_refused_of_reads (reads : Reads ps l) (ordered : ps.Pairwise fun p _ => p.terminated) :
    ∀ p ∈ ps, p.blank = false → p.terminated → ∀ why, p.verdict ≠ .refused why := by
  induction reads with
  | nil => nofun
  | blank blank rest ih =>
    intro p member filled
    rcases List.mem_cons.mp member with rfl | later
    · rw [blank] at filled
      cases filled
    · exact ih ordered.of_cons p later filled
  | accepted filled terminated verdict rest ih | rejected filled terminated verdict rest ih =>
    intro p member filled terminated why
    rcases List.mem_cons.mp member with rfl | later
    · rw [verdict]
      nofun
    · exact ih ordered.of_cons p later filled terminated why
  | unfinished filled open_ =>
    intro p member filled terminated
    rw [last_of_open ordered open_] at member
    obtain rfl := List.mem_singleton.mp member
    rw [open_] at terminated
    cases terminated

/-- What is read of a source accounts for each of its lines by itself, in their order. There are no
lines if the last one, with something on it, lacks its newline. -/
structure Accounts (l : Listing) (source : Text) : Prop where
  errors : l.errors = (Piece.ofSource source).flatMap Piece.errors
  lines : ∀ ls, l.lines = some ls →
    List.Forall₂ Piece.Gives ((Piece.ofSource source).filter (!·.blank)) ls
  unread : l.lines = none ↔ ∃ p ∈ Piece.ofSource source, p.blank = false ∧ p.terminated = false

theorem accounts_of_reads {source : Text} (reads : Reads (Piece.ofSource source) l) :
    l.Accounts source :=
  ⟨errors_of_reads reads (Piece.ofLines_pairwise 0 _), fun _ => gives_of_reads reads,
    lines_eq_none_of_reads reads⟩

end Listing

/-- No operand on the lines of the source has more digits than are looked at. -/
def Text.Legible (source : Text) : Prop :=
  ∀ p ∈ Piece.ofSource source, p.terminated → ∀ i w n, p.text.NumericOperand i w n →
    Element.digitCount w ≤ maxDigits

structure Piece.OutOfRange (p : Piece) (source : Text) (i : Nat) (w : Text) (e : SyntaxError) :
    Prop where
  only : p.errors = [e]
  reason : ∃ reason, e.reason = some reason ∧ ("failed to parse integer" : Text) <+: reason
  found : e.found = some w
  span : e.span = .of (p.offset + i) w.length
  shows : e.span.Shows source p w

theorem Piece.outOfRange {source w : Text} {p : Piece} {i : Nat} {n : Int}
    (member : p ∈ ofSource source) (terminated : p.terminated)
    (operand : p.text.NumericOperand i w n) (short : Element.digitCount w ≤ maxDigits)
    (outside : ¬ Word.InRange n) : p.OutOfRange source i w (.ofOverflow (p.offset + i) w) := by
  have rejected := Verdict.rejected_of_operand operand short outside p.offset p.terminated
  have stands : StandsAt p.text w i := by
    obtain ⟨-, before, op, gap, behind, split, place, -⟩ := operand
    refine ⟨before ++ (op.keyword ++ gap), behind, by simp [split], ?_⟩
    simpa [Nat.add_assoc] using place
  exact ⟨errors_of_rejected (filled_of_operand operand) terminated rejected,
    ⟨_, rfl, by decide⟩, rfl, rfl, shows member (stands.extend _)⟩

namespace Assembly

theorem ofSource_eq_error {source : Text} {why : Refusal} :
    ofSource source = .error why ↔ Listing.ofSource source = .error why := by
  unfold ofSource
  cases Listing.ofSource source with
  | ok l => simp [Except.map]
  | error why => simp [Except.map]

theorem syntaxErrors_ofListing (l : Listing) : (ofListing l).syntaxErrors = l.errors := by
  unfold ofListing
  split
  · rfl
  · split <;> rfl

theorem legible_of_reads {source : Text} {l : Listing}
    (reads : Listing.Reads (Piece.ofSource source) l) : source.Legible := by
  intro p member terminated i w n operand
  by_contra long
  have refused :=
    Verdict.refused_of_operand operand (Nat.lt_of_not_le long) p.offset p.terminated
  exact Listing.ne_refused_of_reads reads (Piece.ofLines_pairwise 0 _) p member
    (Piece.filled_of_operand operand) terminated _ refused

theorem exists_reads_of_legible {source : Text} (legible : source.Legible) :
    ∃ l, Listing.Reads (Piece.ofSource source) l := by
  apply Listing.exists_reads
  intro p member terminated why refused
  obtain ⟨i, w, n, operand, long, -⟩ :=
    Verdict.operand_of_refused (Piece.newline_not_mem member) refused
  exact absurd (legible p member terminated i w n operand) (Nat.not_le_of_lt long)

/-- A source can be compiled exactly if no operand has more digits than are looked at, and such an
operand is the only thing that is ever in the way. If a source can be compiled, there is one error
for each operand that is out of range, about the whole numeral, and every other line is read and
reported by itself. -/
theorem ofSource_decided (source : Text) :
    ((∃ a, ofSource source = .ok a) ↔ source.Legible) ∧
    (∀ why, ofSource source = .error why → ∃ p ∈ Piece.ofSource source, p.terminated ∧
      ∃ i w n, p.text.NumericOperand i w n ∧ maxDigits < Element.digitCount w ∧
        why = .oversized (Element.digitCount w)) ∧
    ∀ a, ofSource source = .ok a → ∃ l : Listing, ofListing l = a ∧ a.syntaxErrors = l.errors ∧
      l.Accounts source ∧
      ∀ p ∈ Piece.ofSource source, p.terminated → ∀ i w n, p.text.NumericOperand i w n →
        ¬ Word.InRange n → ∃ e, p.OutOfRange source i w e := by
  refine ⟨⟨?_, ?_⟩, ?_, ?_⟩
  · rintro ⟨a, assembled⟩
    obtain ⟨l, read, -⟩ := ofSource_eq_ok.mp assembled
    exact legible_of_reads (Listing.reads_of_ofPieces read)
  · intro legible
    obtain ⟨l, reads⟩ := exists_reads_of_legible legible
    exact ⟨ofListing l, ofSource_eq_ok.mpr ⟨l, Listing.ofPieces_of_reads reads, rfl⟩⟩
  · intro why failed
    obtain ⟨p, member, terminated, refused⟩ :=
      Listing.refused_of_ofPieces (ofSource_eq_error.mp failed)
    exact ⟨p, member, terminated,
      Verdict.operand_of_refused (Piece.newline_not_mem member) refused⟩
  · intro a assembled
    obtain ⟨l, read, rfl⟩ := ofSource_eq_ok.mp assembled
    have reads := Listing.reads_of_ofPieces read
    refine ⟨l, rfl, syntaxErrors_ofListing l, Listing.accounts_of_reads reads, ?_⟩
    intro p member terminated i w n operand outside
    have short := legible_of_reads reads p member terminated i w n operand
    exact ⟨_, Piece.outOfRange member terminated operand short outside⟩

theorem ofSource_set {digits : Text} (all : ∀ c ∈ digits, c.isDigit)
    (long : maxDigits < digits.length) :
    ofSource ("set " ++ (digits ++ ['\n'])) = .error (.oversized digits.length) := by
  have count : Element.digitCount digits = digits.length := List.countP_eq_length.mpr all
  have nonempty : digits ≠ [] := List.ne_nil_of_length_pos (Nat.zero_lt_of_lt long)
  have operand : Text.NumericOperand ("set " ++ digits) 4 digits _ :=
    ⟨.natural nonempty all, [], .set, [' '], [], by simp; rfl, rfl, nofun, rfl, separator_space,
      rfl⟩
  have free : '\n' ∉ ("set " ++ digits : Text) := by
    intro member
    rcases List.mem_append.mp member with keyword | digit
    · exact absurd keyword (by decide)
    · exact absurd (all '\n' digit) (by decide)
  have lines : Text.lines ("set " ++ (digits ++ ['\n'])) = ["set " ++ digits, []] := by
    have alone : ∀ l ∈ ["set " ++ digits], '\n' ∉ l := by simpa using free
    simpa [unlines] using lines_unlines_append alone []
  have refused := Verdict.refused_of_operand operand (by rwa [count]) 0 true
  rw [count] at refused
  rw [ofSource_eq_error, Listing.ofSource, Piece.ofSource, lines]
  exact Listing.ofPieces_of_refused (Piece.filled_of_operand operand) rfl refused

theorem ofSource_undecided_of_set :
    let digits : Text := List.replicate 4301 '1'
    let source : Text := "set " ++ (digits ++ ['\n'])
    ofSource source = .error (.oversized 4301) ∧ ¬ ∃ a, ofSource source = .ok a := by
  intro digits source
  have refused : ofSource source = .error (.oversized digits.length) := by
    apply ofSource_set
    · intro c member
      rw [List.eq_of_mem_replicate member]
      rfl
    · rw [List.length_replicate]
      decide
  rw [List.length_replicate] at refused
  refine ⟨refused, ?_⟩
  rintro ⟨a, assembled⟩
  rw [refused] at assembled
  cases assembled

end Assembly

end TapeMachine
