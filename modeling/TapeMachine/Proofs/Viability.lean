import TapeMachine.Proofs.Accounting
import TapeMachine.Proofs.FormOrder

/-! How far a rejected line could be read. What stands in front of the error is the start of a line
that is accepted, and it still is one with any token behind it that the error expects there. -/
namespace TapeMachine

open Text

theorem Text.Stops.behind {p : Char → Bool} {gap rest rest' : Text} (stops : Stops p (gap ++ rest))
    (stops' : Stops p rest') : Stops p (gap ++ rest') := by
  cases gap with
  | nil => exact stops'
  | cons c gap => exact stops

def Text.Accepted (t : Text) : Prop :=
  ∀ offset terminated, ∃ line, Verdict.ofText t offset terminated = .accepted line

def Text.Viable (t : Text) : Prop := ∃ more, (t ++ more).Accepted

theorem Text.Accepted.viable {t : Text} (accepted : t.Accepted) : t.Viable :=
  ⟨[], by rwa [List.append_nil]⟩

theorem Text.Viable.front {t w : Text} (viable : Viable (t ++ w)) : t.Viable := by
  obtain ⟨more, accepted⟩ := viable
  rw [List.append_assoc] at accepted
  exact ⟨w ++ more, accepted⟩

inductive Expectation
  | instruction
  | label
  | register
  | number
  | colon
  | blank
  | newline
  deriving Repr, DecidableEq

namespace Expectation

def name : Expectation → Text
  | instruction => "instruction"
  | label => "label"
  | register => "register"
  | number => "number or x"
  | colon => "':'"
  | blank => "horizontal whitespace"
  | newline => "trailing newline"

/-- The line may end behind `t` if a newline is expected there. With any other expectation, each
token of that kind may stand behind `t`. -/
def Justified : Expectation → Text → Prop
  | instruction, t => ∀ op : Opcode, Viable (t ++ op.keyword)
  | label, t => ∀ w, Identifier w → Viable (t ++ w)
  | register, t => ∀ r : Register, Viable (t ++ r.keyword)
  | number, t => ∀ w v, Operand w v → Element.digitCount w ≤ maxDigits → Viable (t ++ w)
  | colon, t => Viable (t ++ [':'])
  | blank, t => Viable (t ++ [' '])
  | newline, t => t.Accepted

theorem Justified.viable {x : Expectation} {t : Text} (justified : x.Justified t) : t.Viable := by
  cases x with
  | instruction => exact (justified .gol).front
  | label => exact (justified ['a'] ⟨'a', [], rfl, rfl, nofun⟩).front
  | register => exact (justified .x).front
  | number => exact (justified ['x'] _ .x (by decide)).front
  | colon | blank => exact justified.front
  | newline => exact Accepted.viable justified

end Expectation

/-- Where and at which element reading stops: no token of it stands there, or a numeral that does
not fit into a word. -/
inductive Failure.At : Failure → Nat → Element → Prop
  | mismatch (i : Nat) (e : Element) : At (.mismatch i e) i e
  | overflow (i : Nat) (literal : Text) : At (.overflow i literal) i .value

namespace Element

def Writes (e : Element) (w : Text) : Prop := ∀ i, ∃ ns, e.Lexeme i w ns

theorem Lexeme.writes {e : Element} {i : Nat} {w : Text} {ns : List Note}
    (lexeme : e.Lexeme i w ns) : e.Writes w := by
  intro j
  cases e with
  | keyword op => exact ⟨_, lexeme.1, rfl⟩
  | separator => exact ⟨_, lexeme.1, lexeme.2.1, rfl⟩
  | register =>
    obtain ⟨r, spelled, -⟩ := lexeme
    exact ⟨_, r, spelled, rfl⟩
  | value =>
    obtain ⟨v, operand, short, -⟩ := lexeme
    exact ⟨_, v, operand, short, rfl⟩
  | reference | definition => exact ⟨_, lexeme.1, rfl⟩
  | colon | lineEnd => exact ⟨_, lexeme.1, rfl⟩

theorem separator_writes : Writes .separator [' '] := by
  intro i
  have blank : ∀ c ∈ [' '], CharClass.gap c := List.forall_mem_singleton.mpr rfl
  exact ⟨_, List.cons_ne_nil _ _, blank, rfl⟩

theorem exists_writes (e : Element) : ∃ w, e.Writes w := by
  have name : Identifier ['a'] := ⟨'a', [], rfl, rfl, nofun⟩
  cases e with
  | keyword op => exact ⟨op.keyword, fun _ => ⟨_, rfl, rfl⟩⟩
  | separator => exact ⟨_, separator_writes⟩
  | register => exact ⟨_, fun _ => ⟨_, .x, rfl, rfl⟩⟩
  | value => exact ⟨['x'], fun _ => ⟨_, _, .x, by decide, rfl⟩⟩
  | reference | definition => exact ⟨['a'], fun _ => ⟨_, name, rfl⟩⟩
  | colon | lineEnd => exact ⟨_, fun _ => ⟨_, rfl, rfl⟩⟩

def Completes (es : List Element) (t : Text) : Prop := ∀ i, ∃ ns, readAll es i t = .ok ns

variable {a e : Element} {es : List Element} {offset i : Nat} {gap w rest t : Text} {why : Failure}

theorem Completes.cons (skipped : ∀ c ∈ gap, e.skips c) (writes : e.Writes w)
    (stops : Stops e.tail rest) (later : Completes es rest) :
    Completes (e :: es) (gap ++ (w ++ rest)) := by
  intro i
  obtain ⟨first, lexeme⟩ := writes (i + gap.length)
  obtain ⟨others, read⟩ := later (i + gap.length + w.length)
  have here : e.read i (gap ++ (w ++ rest)) = .ok ⟨first, _, rest⟩ :=
    read_ok_iff.mpr ⟨gap, w, rfl, skipped, lexeme, stops, rfl⟩
  exact ⟨_, readAll_cons_ok_iff.mpr ⟨_, others, here, read, rfl⟩⟩

structure Adjoins (a e : Element) : Prop where
  unkeyed : ∀ op, e ≠ .keyword op
  apart : ∀ w rest, e.Writes w → Stops e.tail rest → Stops a.tail (w ++ rest)

theorem adjoins_lineEnd (a : Element) : Adjoins a .lineEnd := by
  refine ⟨nofun, ?_⟩
  intro w rest writes stops
  obtain ⟨_, rfl, -⟩ := writes 0
  cases rest with
  | nil => rfl
  | cons c rest => cases stops

theorem adjoins_separator (free : ∀ c, CharClass.gap c → a.tail c = false) :
    Adjoins a .separator := by
  refine ⟨nofun, ?_⟩
  intro w rest writes _
  obtain ⟨_, nonempty, gaps, -⟩ := writes 0
  obtain ⟨c, w, rfl⟩ := List.exists_cons_of_ne_nil nonempty
  exact free c (gaps c List.mem_cons_self)

theorem adjoins_operand (unkeyed : ∀ op, e ≠ .keyword op) (padded : e.skips = CharClass.padding) :
    Adjoins .separator e := by
  refine ⟨unkeyed, ?_⟩
  intro w rest writes stops
  obtain ⟨_, lexeme⟩ := writes 0
  have free := lexeme_stops lexeme stops
  rw [padded] at free
  exact free.mono fun _ => CharClass.padding_of_gap

theorem adjoins_colon : Adjoins .definition .colon := by
  refine ⟨nofun, ?_⟩
  intro w rest writes _
  obtain ⟨_, rfl, -⟩ := writes 0
  rfl

theorem exists_completion (chain : (a :: es).IsChain Adjoins) :
    ∃ rest, Stops a.tail rest ∧ Completes es rest := by
  induction es generalizing a with
  | nil => exact ⟨[], rfl, fun _ => ⟨_, rfl⟩⟩
  | cons e es ih =>
    obtain ⟨adjoins, later⟩ := List.isChain_cons_cons.mp chain
    obtain ⟨rest, stops, completes⟩ := ih later
    obtain ⟨w, writes⟩ := exists_writes e
    have unskipped : ∀ c ∈ ([] : Text), e.skips c := List.forall_mem_nil _
    refine ⟨w ++ rest, adjoins.apart w rest writes stops, ?_⟩
    exact .cons unskipped writes stops completes

theorem number_error_at {e : Element} (failed : number offset w = .error why)
    (stopped : why.At i e) : i = offset ∧ e = .value := by
  unfold number at failed
  split at failed
  · cases failed
    cases stopped
  · dsimp only at failed
    split at failed <;> cases failed
    cases stopped
    exact ⟨rfl, rfl⟩

theorem token_error_at {e e' : Element} (unkeyed : ∀ op, e ≠ .keyword op)
    (failed : e.token offset t = .error why) (stopped : why.At i e') : i = offset ∧ e' = e := by
  cases e with
  | keyword op => exact absurd rfl (unkeyed op)
  | value =>
    simp only [token] at failed
    split at failed
    · cases failed
    · rename_i w _ _
      cases number : number offset w with
      | ok n =>
        rw [number] at failed
        cases failed
      | error why' =>
        rw [number] at failed
        cases failed
        exact number_error_at number stopped
    · cases failed
      cases stopped
      exact ⟨rfl, rfl⟩
  | separator | register | reference | definition | colon | lineEnd =>
    simp only [token] at failed
    split at failed <;> cases failed
    cases stopped
    exact ⟨rfl, rfl⟩

/-- Where reading stops at an element, any token of the element can stand instead of what stands
there, and something behind it that the other elements read. -/
theorem resumes {e : Element} (chain : (a :: es).IsChain Adjoins) (stops : Stops a.tail t)
    (failed : readAll es offset t = .error why) (stopped : why.At i e) :
    (∀ op, e ≠ .keyword op) ∧ ∃ front behind, t = front ++ behind ∧ offset + front.length = i ∧
      ∀ w, e.Writes w → ∃ rest, Stops e.tail rest ∧ Stops a.tail (front ++ (w ++ rest)) ∧
        Completes es (front ++ (w ++ rest)) := by
  induction es generalizing a offset t with
  | nil => cases failed
  | cons b es ih =>
    obtain ⟨adjoins, later⟩ := List.isChain_cons_cons.mp chain
    rcases readAll_cons_error failed with here | ⟨first, read, unread⟩
    · obtain ⟨gap, behind, rfl, skipped, free⟩ := exists_run b.skips t
      rw [read_append skipped free] at here
      obtain ⟨rfl, rfl⟩ := token_error_at adjoins.unkeyed here stopped
      refine ⟨adjoins.unkeyed, gap, behind, rfl, rfl, ?_⟩
      intro w writes
      obtain ⟨rest, ends, completes⟩ := exists_completion later
      exact ⟨rest, ends, stops.behind (adjoins.apart w rest writes ends),
        .cons skipped writes ends completes⟩
    · obtain ⟨gap, v, rfl, skipped, lexeme, ends, moved⟩ := read_ok_iff.mp read
      obtain ⟨unkeyed, front, behind, split, place, continues⟩ := ih later ends unread
      refine ⟨unkeyed, gap ++ (v ++ front), behind, ?_, ?_, ?_⟩
      · rw [split]
        simp only [List.append_assoc]
      · simp only [List.length_append]
        omega
      · intro w writes
        obtain ⟨rest, last, ends, completes⟩ := continues w writes
        simp only [List.append_assoc]
        exact ⟨rest, last, stops.behind (adjoins.apart v _ lexeme.writes ends),
          .cons skipped lexeme.writes ends completes⟩

end Element

namespace Form

open Element

theorem accepted_of_completes {f : Form} {t : Text} (completes : Completes f.elements t) :
    t.Accepted := by
  intro offset terminated
  obtain ⟨ns, read⟩ := completes 0
  obtain ⟨line, drafted, -⟩ := Form.makes_line read offset
  exact ⟨line, Verdict.ofText_eq (.accepted read drafted) terminated⟩

theorem chain (f : Form) : f.elements.IsChain Adjoins := by
  have keyword (op : Opcode) : Adjoins (.keyword op) .separator :=
    adjoins_separator fun _ => CharClass.not_keywordTail_of_gap
  have register : Adjoins .register .separator :=
    adjoins_separator fun c blank => stops_word (t := [c]) (CharClass.not_keywordTail_of_gap blank)
  have operand {e : Element} (unkeyed : ∀ op, e ≠ .keyword op)
      (padded : e.skips = CharClass.padding) : [.separator, e, .lineEnd].IsChain Adjoins :=
    .cons_cons (adjoins_operand unkeyed padded) (.cons_cons (adjoins_lineEnd e) (.singleton _))
  cases f with
  | label => exact .cons_cons adjoins_colon (.cons_cons (adjoins_lineEnd _) (.singleton _))
  | instr op =>
    cases op with
    | gol | gor | sav | ret | inp | out | dec =>
      exact .cons_cons (adjoins_lineEnd _) (.singleton _)
    | get | put | jmp | set | add | mul | div => exact .cons_cons (keyword _) (operand nofun rfl)
    | jnz | jlz =>
      exact .cons_cons (keyword _) (.cons_cons (adjoins_operand nofun rfl)
        (.cons_cons register (operand nofun rfl)))

theorem viable_of_opening {f : Form} {gap w : Text} (padded : ∀ c ∈ gap, CharClass.padding c)
    (writes : f.opening.Writes w) : Viable (gap ++ w) := by
  obtain ⟨es, elements⟩ := f.elements_eq
  obtain ⟨rest, stops, completes⟩ := exists_completion (elements ▸ f.chain)
  refine ⟨rest, accepted_of_completes (f := f) ?_⟩
  rw [elements, List.append_assoc]
  rw [← f.opening_skips] at padded
  exact .cons padded writes stops completes

theorem viable_of_keyword {gap : Text} (padded : ∀ c ∈ gap, CharClass.padding c) (op : Opcode) :
    Viable (gap ++ op.keyword ++ [' ']) := by
  obtain ⟨rest, completes⟩ : ∃ rest, Completes (operands op ++ [.lineEnd]) (' ' :: rest) := by
    have operands : operands op = [] ∨ ∃ es, operands op = .separator :: es := by
      cases op <;> simp [operands]
    rcases operands with bare | ⟨es, separated⟩
    · rw [bare]
      have blank : ∀ c ∈ [' '], Element.lineEnd.skips c := List.forall_mem_singleton.mpr rfl
      exact ⟨[], .cons blank (fun _ => ⟨_, rfl, rfl⟩) rfl fun _ => ⟨_, rfl⟩⟩
    · have chain := (instr op).chain
      rw [elements, separated] at chain
      obtain ⟨rest, stops, completes⟩ := exists_completion (List.isChain_cons_cons.mp chain).2
      rw [separated]
      have unskipped : ∀ c ∈ ([] : Text), Element.separator.skips c := List.forall_mem_nil _
      exact ⟨rest, .cons unskipped separator_writes stops completes⟩
  refine ⟨rest, accepted_of_completes (f := instr op) ?_⟩
  simp only [List.append_assoc]
  have stops : Stops (Element.keyword op).tail (' ' :: rest) := rfl
  exact .cons padded (fun _ => ⟨_, rfl, rfl⟩) stops completes

/-- Behind its first element, a form stops where each token of the next element could still stand,
with something behind it that makes the line complete. -/
theorem resumes {f : Form} {t : Text} {first : Reading} {why : Failure} {i : Nat} {e : Element}
    (opened : f.opening.read 0 t = .ok first) (failed : f.read t = .error why)
    (stopped : why.At i e) :
    (∀ op, e ≠ .keyword op) ∧ ∀ w, e.Writes w →
      ∃ rest, Stops e.tail rest ∧ Accepted (t.take i ++ (w ++ rest)) := by
  obtain ⟨es, elements⟩ := f.elements_eq
  rw [Form.read, elements] at failed
  rcases readAll_cons_error failed with here | ⟨first', read, later⟩
  · rw [opened] at here
    cases here
  · cases opened.symm.trans read
    obtain ⟨gap, v, rfl, skipped, lexeme, ends, moved⟩ := read_ok_iff.mp opened
    obtain ⟨unkeyed, front, behind, split, place, continues⟩ :=
      Element.resumes (elements ▸ f.chain) ends later stopped
    refine ⟨unkeyed, ?_⟩
    intro w writes
    obtain ⟨rest, last, stops, completes⟩ := continues w writes
    have taken : (gap ++ (v ++ first.rest)).take i = gap ++ (v ++ front) := by
      rw [split, ← List.append_assoc, ← List.append_assoc, ← List.append_assoc]
      apply List.take_left'
      simp only [List.length_append]
      omega
    refine ⟨rest, last, accepted_of_completes (f := f) ?_⟩
    rw [taken, elements]
    simp only [List.append_assoc]
    exact .cons skipped lexeme.writes stops completes

end Form

def Element.expectation : Element → Expectation
  | keyword _ | separator => .blank
  | register => .register
  | value => .number
  | reference | definition => .label
  | colon => .colon
  | lineEnd => .newline

theorem Element.name_expectation (e : Element) : e.expectation.name = e.name := by
  cases e <;> rfl

theorem Element.justified_of_writes {e : Element} {t : Text} (unkeyed : ∀ op, e ≠ .keyword op)
    (continues : ∀ w, e.Writes w → ∃ rest, Stops e.tail rest ∧ Accepted (t ++ (w ++ rest))) :
    e.expectation.Justified t := by
  have viable {w : Text} (writes : e.Writes w) : Viable (t ++ w) := by
    obtain ⟨rest, -, accepted⟩ := continues w writes
    rw [← List.append_assoc] at accepted
    exact ⟨rest, accepted⟩
  cases e with
  | keyword op => exact absurd rfl (unkeyed op)
  | separator => exact viable separator_writes
  | register => exact fun r => viable fun _ => ⟨_, r, rfl, rfl⟩
  | value => exact fun w v operand short => viable fun _ => ⟨_, v, operand, short, rfl⟩
  | reference | definition => exact fun w name => viable fun _ => ⟨_, name, rfl⟩
  | colon => exact viable fun _ => ⟨_, rfl, rfl⟩
  | lineEnd =>
    obtain ⟨rest, ends, accepted⟩ := continues [] fun _ => ⟨_, rfl, rfl⟩
    cases rest with
    | cons c rest => cases ends
    | nil =>
      rw [List.append_nil, List.append_nil] at accepted
      exact accepted

namespace Form

theorem justified_of_mismatch {f : Form} {t : Text} {i : Nat} {e : Element}
    (failed : f.read t = .error (.mismatch i e))
    (behind : (t.takeWhile CharClass.padding).length < i) :
    e.expectation.Justified (t.take i) := by
  cases opened : f.opening.read 0 t with
  | ok first =>
    obtain ⟨unkeyed, continues⟩ := f.resumes opened failed (.mismatch i e)
    exact Element.justified_of_writes unkeyed continues
  | error why =>
    obtain ⟨es, elements⟩ := f.elements_eq
    rw [Form.read, elements, Element.readAll_error_of_first opened] at failed
    cases failed
    obtain ⟨gap, rest, rfl, padded, stops⟩ := exists_run CharClass.padding t
    rw [takeWhile_append padded stops] at behind
    rw [← f.opening_skips] at padded stops
    rw [Element.read_append padded stops] at opened
    cases f with
    | label =>
      have unkeyed : ∀ op, label.opening ≠ .keyword op := by
        intro op same
        cases same
      have start := (Element.token_error_at unkeyed opened (.mismatch i e)).1
      omega
    | instr op =>
      -- only a keyword that something else follows is told behind its start
      simp only [opening, Element.token] at opened
      split at opened
      · cases opened
        omega
      · rename_i starts
        split at opened <;> cases opened
        have starts : op.keyword.isPrefixOf rest := by simpa using starts
        obtain ⟨more, rfl⟩ := List.isPrefixOf_iff_prefix.mp starts
        rw [← List.append_assoc, List.take_left' (by simp)]
        exact viable_of_keyword padded op

end Form

namespace Mismatch

theorem mem_expected {t name : Text} {ms : List Mismatch} (member : name ∈ expected t ms) :
    ∃ m ∈ ms, m.offset = furthest ms ∧
      name = if furthest ms = indent t then m.form.kind else m.wanted.name := by
  rw [expected, sortedSet, List.mem_eraseDups, List.mem_mergeSort] at member
  obtain ⟨m, atFurthest, rfl⟩ := List.mem_map.mp member
  obtain ⟨member, same⟩ := List.mem_filter.mp atFurthest
  exact ⟨m, member, by simpa using same, rfl⟩

theorem expected_ne_nil {ms : List Mismatch} (some : ms ≠ []) (t : Text) : expected t ms ≠ [] := by
  obtain ⟨m, member⟩ := List.exists_mem_of_ne_nil _ (atFurthest_ne_nil some)
  refine List.ne_nil_of_mem (a := if furthest ms = indent t then m.form.kind else m.wanted.name) ?_
  rw [expected, sortedSet, List.mem_eraseDups, List.mem_mergeSort]
  exact List.mem_map_of_mem member

end Mismatch

namespace Verdict

variable {t : Text} {offset : Nat} {terminated : Bool}

theorem read_of_mismatch? {f : Form} {m : Mismatch} (mismatched : mismatch? t f = some m) :
    f.read t = .error (.mismatch m.offset m.wanted) := by
  unfold mismatch? at mismatched
  split at mismatched
  · rename_i failed
    cases mismatched
    exact failed
  · cases mismatched

theorem failed_of_undecided {f : Form} (undecided : ∀ v, ¬ f.Decides t offset v) :
    ∃ m ∈ Form.all.filterMap (mismatch? t), f.read t = .error (.mismatch m.offset m.wanted) := by
  have unsettled : ¬ f.Settles t := by
    intro settles
    obtain ⟨v, decides⟩ := settles.decides offset
    exact undecided v decides
  simp only [Form.Settles, not_forall, not_not] at unsettled
  obtain ⟨i, e, failed⟩ := unsettled
  refine ⟨⟨f, i, e⟩, List.mem_filterMap.mpr ⟨f, f.mem_all, ?_⟩, failed⟩
  rw [mismatch?, failed]

theorem justified_of_not_enters {name : Text} (none : Form.label.enters t = false)
    (member : name ∈ Mismatch.expected t (Form.all.filterMap (mismatch? t))) :
    ∃ x : Expectation, x.name = name ∧
      x.Justified (t.take (Mismatch.furthest (Form.all.filterMap (mismatch? t)))) := by
  obtain ⟨m, failed, here, rfl⟩ := Mismatch.mem_expected member
  obtain ⟨f, -, mismatched⟩ := List.mem_filterMap.mp failed
  cases (Form.mismatch?_of_not_enters none f).symm.trans mismatched
  obtain ⟨gap, rest, rfl, padded, stops⟩ := exists_run CharClass.padding t
  rw [← here]
  dsimp only
  rw [takeWhile_append padded stops, List.take_left]
  have label : Expectation.label.Justified gap := fun w name =>
    Form.viable_of_opening (f := .label) padded fun _ => ⟨_, name, rfl⟩
  have instruction : Expectation.instruction.Justified gap := fun op =>
    Form.viable_of_opening (f := .instr op) padded fun _ => ⟨_, rfl, rfl⟩
  have blank : Expectation.blank.Justified gap := by
    have padded : ∀ c ∈ gap ++ [' '], CharClass.padding c := by
      intro c member
      rcases List.mem_append.mp member with inGap | last
      · exact padded c inGap
      · rw [List.mem_singleton.mp last]
        rfl
    exact (Form.viable_of_keyword padded .gol).front.front
  cases f with
  | label =>
    refine ⟨.label, ?_, label⟩
    split <;> rfl
  | instr op =>
    split
    · exact ⟨.instruction, rfl, instruction⟩
    · exact ⟨.blank, rfl, blank⟩

theorem justified_of_enters {name : Text} (enters : Form.label.enters t)
    (undecided : ∀ (f : Form) v, ¬ f.Decides t offset v)
    (member : name ∈ Mismatch.expected t (Form.all.filterMap (mismatch? t))) :
    ∃ x : Expectation, x.name = name ∧
      x.Justified (t.take (Mismatch.furthest (Form.all.filterMap (mismatch? t)))) := by
  obtain ⟨m, failed, here, rfl⟩ := Mismatch.mem_expected member
  obtain ⟨f, -, mismatched⟩ := List.mem_filterMap.mp failed
  -- the name of a label could be read, so that some form came further than the blanks
  have behind : (t.takeWhile CharClass.padding).length < m.offset := by
    obtain ⟨named, failed', read⟩ := failed_of_undecided (undecided .label)
    have further := Mismatch.le_furthest failed'
    have beyond := Form.offset_of_enters enters read
    omega
  have other := (Mismatch.context_isSome_iff (List.ne_nil_of_mem failed)).mp
    (context_of_enters enters undecided true)
  rw [if_neg other, ← here]
  exact ⟨_, m.wanted.name_expectation,
    Form.justified_of_mismatch (read_of_mismatch? mismatched) behind⟩

/-- What stands in front of the error about a line can be completed to a line that is accepted,
also with any token behind it that is expected there. Something is expected unless the error gives
a reason. -/
theorem expectations_justified {e : SyntaxError}
    (rejected : ofText t offset terminated = .rejected e) :
    ∃ p, e.span.start = offset + p ∧ p ≤ t.length ∧ Viable (t.take p) ∧
      (e.reason = none → e.expected ≠ []) ∧
      ∀ name ∈ e.expected, ∃ x : Expectation, x.name = name ∧ x.Justified (t.take p) := by
  obtain ⟨p, start, inside⟩ := start_of_rejected rejected
  refine ⟨p, start, inside, ?_⟩
  rcases ofText_cases t offset terminated with ⟨f, decides⟩ | ⟨undecided, mismatched⟩
  · rw [rejected] at decides
    obtain ⟨first, opened⟩ := Form.enters_iff.mp (enters_of_decides decides)
    cases decides with
    | @overflow i w failed =>
      obtain rfl : i = p := Nat.add_left_cancel start
      obtain ⟨-, continues⟩ := f.resumes opened failed (.overflow i w)
      obtain ⟨w, writes⟩ := Element.exists_writes .value
      obtain ⟨rest, -, accepted⟩ := continues w writes
      exact ⟨⟨_, accepted⟩, nofun, nofun⟩
  · rw [rejected] at mismatched
    cases mismatched
    obtain rfl := Nat.add_left_cancel start
    obtain ⟨m, failed, -⟩ := failed_of_undecided (undecided .label)
    have expected := Mismatch.expected_ne_nil (List.ne_nil_of_mem failed) t
    have justified : ∀ name ∈ Mismatch.expected t (Form.all.filterMap (mismatch? t)),
        ∃ x : Expectation, x.name = name ∧
          x.Justified (t.take (Mismatch.furthest (Form.all.filterMap (mismatch? t)))) := by
      intro name member
      cases enters : Form.label.enters t with
      | true => exact justified_of_enters enters undecided member
      | false => exact justified_of_not_enters enters member
    obtain ⟨name, member⟩ := List.exists_mem_of_ne_nil _ expected
    obtain ⟨x, -, holds⟩ := justified name member
    exact ⟨holds.viable, fun _ => expected, justified⟩

theorem expectations_justified_of_jnz :
    let t : Text := "jnz acc $"
    let read : Text := "jnz acc "
    ∃ e, ofText t 0 true = .rejected e ∧ e.span.start = read.length ∧
      e.expected = (["label"] : List Text) ∧ Viable read ∧ Expectation.label.Justified read := by
  intro t read
  have undecided : ∀ f ∈ Form.all, ofForm? t 0 f = none := by decide +kernel
  have rejected := byForms_of_undecided undecided true
  have expected : Mismatch.expected t (Form.all.filterMap (mismatch? t)) =
      (["label"] : List Text) := by
    rw [Mismatch.expected, sortedSet_of_pairwise (by decide +kernel)]
    decide +kernel
  obtain ⟨p, start, -, viable, -, justified⟩ := expectations_justified rejected
  obtain rfl : 8 = p := by
    have furthest : Mismatch.furthest (Form.all.filterMap (mismatch? t)) = 8 := by decide +kernel
    have place := Nat.add_left_cancel start
    rw [furthest] at place
    exact place
  refine ⟨_, rejected, start, expected, viable, ?_⟩
  obtain ⟨x, name, holds⟩ := justified "label" (by simp [Mismatch.toError, expected])
  cases x with
  | label => exact holds
  | instruction | register | number | colon | blank | newline => exact absurd name (by decide)

end Verdict

end TapeMachine
