import Mathlib.Data.List.TakeWhile
import TapeMachine.Line.Form

/-! What the elements of a line read. An element skips some characters, takes a token and leaves
a rest that does not go on with the token; if it fails, it fails at a place of the text, and only
a numeral is ever too large or too long. -/
namespace TapeMachine

namespace Text

/-- No character of the class `p` stands at the start. -/
def Stops (p : Char → Bool) (t : Text) : Prop := t.head?.any p = false

variable {p q : Char → Bool} {t w : Text}

@[simp] theorem stops_cons {c : Char} : Stops p (c :: t) ↔ p c = false := Iff.rfl

theorem Stops.mono (stops : Stops p t) (covers : ∀ c, q c → p c) : Stops q t := by
  cases t with
  | nil => rfl
  | cons c t =>
    cases within : q c with
    | false => exact within
    | true =>
      have notThere : p c = false := stops
      rw [covers c within] at notThere
      cases notThere

theorem takeWhile_append (all : ∀ c ∈ w, p c) (stops : Stops p t) : (w ++ t).takeWhile p = w := by
  have nothing : t.takeWhile p = [] := by
    cases t with
    | nil => rfl
    | cons c t => rw [List.takeWhile_cons, stops_cons.mp stops, if_neg Bool.false_ne_true]
  rw [List.takeWhile_append_of_pos all, nothing, List.append_nil]

theorem dropWhile_append (all : ∀ c ∈ w, p c) (stops : Stops p t) : (w ++ t).dropWhile p = t := by
  rw [List.dropWhile_append_of_pos all]
  cases t with
  | nil => rfl
  | cons c t => rw [List.dropWhile_cons, stops_cons.mp stops, if_neg Bool.false_ne_true]

theorem exists_run (p : Char → Bool) (t : Text) :
    ∃ run rest, t = run ++ rest ∧ (∀ c ∈ run, p c) ∧ Stops p rest := by
  induction t with
  | nil => exact ⟨[], [], rfl, nofun, rfl⟩
  | cons c t ih =>
    cases within : p c with
    | false => exact ⟨[], c :: t, rfl, nofun, within⟩
    | true =>
      obtain ⟨run, rest, rfl, all, stops⟩ := ih
      refine ⟨c :: run, rest, rfl, ?_, stops⟩
      intro d member
      rcases List.mem_cons.mp member with rfl | member
      · exact within
      · exact all d member

end Text

open Text

def Identifier (t : Text) : Prop :=
  ∃ c rest, t = c :: rest ∧ CharClass.wordStart c ∧ ∀ d ∈ rest, CharClass.word d

inductive Numeral : Text → Int → Prop
  | natural {digits : Text} (nonempty : digits ≠ []) (all : ∀ c ∈ digits, c.isDigit) :
      Numeral digits (Decimal.toNat digits)
  | negative {digits : Text} (nonempty : digits ≠ []) (all : ∀ c ∈ digits, c.isDigit) :
      Numeral ('-' :: digits) (-(Decimal.toNat digits : Int))

inductive Operand : Text → Value → Prop
  | x : Operand ['x'] (.register .x)
  | number {t : Text} {n : Int} (numeral : Numeral t n) (fits : Word.InRange n) :
      Operand t (.number n)

theorem Identifier.word {t : Text} (name : Identifier t) : ∀ c ∈ t, CharClass.word c := by
  obtain ⟨c, rest, rfl, start, tail⟩ := name
  intro d member
  rcases List.mem_cons.mp member with rfl | member
  · exact CharClass.word_of_wordStart start
  · exact tail d member

theorem Identifier.ne_nil {t : Text} (name : Identifier t) : t ≠ [] := by
  obtain ⟨c, rest, rfl, -⟩ := name
  exact List.cons_ne_nil c rest

theorem Numeral.toInt {t : Text} {n : Int} (numeral : Numeral t n) : Decimal.toInt t = n := by
  cases numeral with
  | natural nonempty all => exact Decimal.toInt_of_digits all
  | negative nonempty all => rfl

theorem Numeral.head {t : Text} {n : Int} (numeral : Numeral t n) :
    ∃ c rest, t = c :: rest ∧ (c.isDigit ∨ c = '-') := by
  cases numeral with
  | @natural digits nonempty all =>
    obtain ⟨c, rest, rfl⟩ := List.exists_cons_of_ne_nil nonempty
    exact ⟨c, rest, rfl, .inl (all c List.mem_cons_self)⟩
  | @negative digits nonempty all => exact ⟨'-', digits, rfl, .inr rfl⟩

theorem exists_last_blank {gap more : Text} (nonempty : gap ≠ [])
    (gaps : ∀ c ∈ gap, CharClass.gap c) (padded : ∀ c ∈ more, CharClass.padding c) :
    ∃ front c, gap ++ more = front ++ [c] ∧ CharClass.padding c := by
  have blanks : ∀ c ∈ gap ++ more, CharClass.padding c := by
    intro c member
    rcases List.mem_append.mp member with member | member
    · exact CharClass.padding_of_gap (gaps c member)
    · exact padded c member
  rcases List.eq_nil_or_concat (gap ++ more) with empty | ⟨front, c, closed⟩
  · exact absurd (List.append_eq_nil_iff.mp empty).1 nonempty
  · rw [List.concat_eq_append] at closed
    exact ⟨front, c, closed, blanks c (by simp [closed])⟩

namespace Element

theorem afterWord?_eq_some {w t rest : Text} :
    afterWord? w t = some rest ↔ t = w ++ rest ∧ Stops CharClass.word rest := by
  unfold afterWord?
  constructor
  · intro found
    split at found
    · rename_i starts
      obtain ⟨tail, rfl⟩ := List.isPrefixOf_iff_prefix.mp starts
      simp only [List.drop_left] at found
      split at found
      · cases found
      · rename_i ends
        cases found
        exact ⟨rfl, Bool.eq_false_iff.mpr ends⟩
    · cases found
  · rintro ⟨rfl, stops⟩
    have starts : w.isPrefixOf (w ++ rest) :=
      List.isPrefixOf_iff_prefix.mpr (List.prefix_append w rest)
    rw [if_pos starts, List.drop_left, if_neg (Bool.eq_false_iff.mp stops)]

theorem identifier_append {w rest : Text} (name : Identifier w)
    (stops : Stops CharClass.word rest) : identifier (w ++ rest) = w := by
  have word := name.word
  obtain ⟨c, tail, rfl, start, -⟩ := name
  unfold identifier
  rw [if_pos (by simpa using start)]
  exact takeWhile_append word stops

theorem identifier_sound {t : Text} (found : (identifier t).isEmpty = false) :
    ∃ w rest, t = w ++ rest ∧ Identifier w ∧ Stops CharClass.word rest := by
  unfold identifier at found
  split at found
  · rename_i start
    cases t with
    | nil => cases start
    | cons c t =>
      have start : CharClass.wordStart c := by simpa using start
      obtain ⟨run, rest, rfl, all, stops⟩ := exists_run CharClass.word t
      exact ⟨c :: run, rest, rfl, ⟨c, run, rfl, start, all⟩, stops⟩
  · cases found

theorem numeral?_minus {digits rest : Text} (all : ∀ c ∈ digits, c.isDigit)
    (stops : Stops Char.isDigit rest) :
    numeral? ('-' :: (digits ++ rest)) =
      if digits = [] ∨ rest.head?.any CharClass.word then none else some ('-' :: digits) := by
  simp [numeral?, takeWhile_append all stops]

theorem numeral?_digits {digits rest : Text} (all : ∀ c ∈ digits, c.isDigit)
    (stops : Stops Char.isDigit rest) (unsigned : (digits ++ rest).head? ≠ some '-') :
    numeral? (digits ++ rest) =
      if digits = [] ∨ rest.head?.any CharClass.word then none else some digits := by
  unfold numeral?
  simp only [if_neg unsigned, List.length_nil, List.drop_zero, takeWhile_append all stops,
    List.drop_left, List.nil_append, List.isEmpty_iff, Bool.or_eq_true]

theorem numeral?_append {w rest : Text} {n : Int} (numeral : Numeral w n)
    (stops : Stops CharClass.word rest) : numeral? (w ++ rest) = some w := by
  have ends : Stops Char.isDigit rest := stops.mono fun _ => CharClass.word_of_isDigit
  cases numeral with
  | natural nonempty all =>
    have unsigned : (w ++ rest).head? ≠ some '-' := by
      obtain ⟨c, digits, rfl⟩ := List.exists_cons_of_ne_nil nonempty
      intro minus
      have digit := all c List.mem_cons_self
      cases minus
      cases digit
    rw [numeral?_digits all ends unsigned, if_neg]
    rintro (empty | more)
    · exact nonempty empty
    · exact Bool.eq_false_iff.mp stops more
  | negative nonempty all =>
    rw [List.cons_append, numeral?_minus all ends, if_neg]
    rintro (empty | more)
    · exact nonempty empty
    · exact Bool.eq_false_iff.mp stops more

theorem numeral?_sound {t w : Text} (found : numeral? t = some w) :
    ∃ n rest, t = w ++ rest ∧ Numeral w n ∧ Stops CharClass.word rest := by
  by_cases minus : t.head? = some '-'
  · obtain ⟨t, rfl⟩ := List.head?_eq_some_iff.mp minus
    obtain ⟨digits, rest, rfl, all, ends⟩ := exists_run Char.isDigit t
    rw [numeral?_minus all ends] at found
    split at found
    · cases found
    · rename_i good
      cases found
      obtain ⟨nonempty, stops⟩ := not_or.mp good
      exact ⟨_, rest, rfl, .negative nonempty all, Bool.eq_false_iff.mpr stops⟩
  · obtain ⟨digits, rest, rfl, all, ends⟩ := exists_run Char.isDigit t
    rw [numeral?_digits all ends minus] at found
    split at found
    · cases found
    · rename_i good
      cases found
      obtain ⟨nonempty, stops⟩ := not_or.mp good
      exact ⟨_, rest, rfl, .natural nonempty all, Bool.eq_false_iff.mpr stops⟩

theorem afterWord?_x_of_numeral {w : Text} {n : Int} (numeral : Numeral w n) (rest : Text) :
    afterWord? Register.x.keyword (w ++ rest) = none := by
  cases found : afterWord? Register.x.keyword (w ++ rest) with
  | none => rfl
  | some after =>
    obtain ⟨c, tail, rfl, first⟩ := numeral.head
    have same := (afterWord?_eq_some.mp found).1
    obtain ⟨rfl, -⟩ := List.cons.inj same
    rcases first with digit | minus
    · cases digit
    · cases minus

/-- Texts that the element reads at an offset, and what it notes of them. -/
def Lexeme : Element → Nat → Text → List Note → Prop
  | keyword op, _, w, ns => w = op.keyword ∧ ns = [.opcode op]
  | separator, _, w, ns => w ≠ [] ∧ (∀ c ∈ w, CharClass.gap c) ∧ ns = []
  | register, _, w, ns => ∃ r, w = r.keyword ∧ ns = [.register r]
  | value, _, w, ns => ∃ v, Operand w v ∧ digitCount w ≤ maxDigits ∧ ns = [.value v]
  | reference, i, w, ns => Identifier w ∧ ns = [.reference w i]
  | definition, i, w, ns => Identifier w ∧ ns = [.definition w i]
  | colon, _, w, ns => w = [':'] ∧ ns = []
  | lineEnd, _, w, ns => w = [] ∧ ns = []

/-- Characters that must not follow what the element has read. -/
def tail : Element → Char → Bool
  | keyword _ => CharClass.keywordTail
  | separator => CharClass.gap
  | register | value | reference | definition => CharClass.word
  | colon => fun _ => false
  | lineEnd => fun _ => true

theorem number_ok_iff {offset : Nat} {w : Text} {n v : Int} (numeral : Numeral w n) :
    number offset w = .ok v ↔ digitCount w ≤ maxDigits ∧ Word.InRange n ∧ v = n := by
  unfold number
  rw [numeral.toInt]
  by_cases short : digitCount w > maxDigits
  · rw [if_pos short]
    constructor
    · intro impossible
      cases impossible
    · rintro ⟨bound, -⟩
      omega
  · rw [if_neg short]
    by_cases fits : Word.InRange n
    · simp only [if_pos fits, Except.ok.injEq]
      exact ⟨fun same => ⟨Nat.le_of_not_lt short, fits, same.symm⟩, fun all => all.2.2.symm⟩
    · simp only [if_neg fits]
      constructor
      · intro impossible
        cases impossible
      · rintro ⟨-, inRange, -⟩
        exact absurd inRange fits

theorem token_complete {e : Element} {offset : Nat} {w rest : Text} {ns : List Note}
    (lexeme : e.Lexeme offset w ns) (stops : Stops e.tail rest) :
    e.token offset (w ++ rest) = .ok ⟨ns, offset + w.length, rest⟩ := by
  cases e with
  | keyword op =>
    obtain ⟨rfl, rfl⟩ := lexeme
    have starts : op.keyword.isPrefixOf (op.keyword ++ rest) :=
      List.isPrefixOf_iff_prefix.mpr (List.prefix_append _ _)
    have free : ¬ rest.head?.any CharClass.keywordTail = true := Bool.eq_false_iff.mp stops
    simp only [token, starts, List.drop_left]
    rw [if_neg (by decide), if_neg free]
  | separator =>
    obtain ⟨nonempty, all, rfl⟩ := lexeme
    simp only [token, takeWhile_append all stops, List.drop_left]
    rw [if_neg (by simpa using nonempty)]
  | register =>
    obtain ⟨r, rfl, rfl⟩ := lexeme
    cases r with
    | x => simp only [token, afterWord?_eq_some.mpr ⟨rfl, stops⟩]; rfl
    | acc =>
      have notX : afterWord? Register.x.keyword (Register.acc.keyword ++ rest) = none := rfl
      simp only [token, notX, afterWord?_eq_some.mpr ⟨rfl, stops⟩]; rfl
  | value =>
    obtain ⟨v, operand, short, rfl⟩ := lexeme
    cases operand with
    | x =>
      have x : afterWord? Register.x.keyword (['x'] ++ rest) = some rest :=
        afterWord?_eq_some.mpr ⟨rfl, stops⟩
      simp only [token, x]
      rfl
    | number numeral fits =>
      have notX : afterWord? Register.x.keyword (w ++ rest) = none :=
        afterWord?_x_of_numeral numeral rest
      have read : number offset w = .ok _ := (number_ok_iff numeral).mpr ⟨short, fits, rfl⟩
      simp only [token, notX, numeral?_append numeral stops, read, List.drop_left]
      rfl
  | reference | definition =>
    obtain ⟨name, rfl⟩ := lexeme
    simp only [token, identifier_append name stops, List.drop_left]
    rw [if_neg (by simpa using name.ne_nil)]
  | colon =>
    obtain ⟨rfl, rfl⟩ := lexeme
    rfl
  | lineEnd =>
    obtain ⟨rfl, rfl⟩ := lexeme
    cases rest with
    | nil => rfl
    | cons c rest => cases stops

theorem token_sound {e : Element} {offset : Nat} {t : Text} {r : Reading}
    (read : e.token offset t = .ok r) :
    ∃ w, t = w ++ r.rest ∧ r.offset = offset + w.length ∧ e.Lexeme offset w r.notes ∧
      Stops e.tail r.rest := by
  cases e with
  | keyword op =>
    simp only [token] at read
    split at read
    · cases read
    · rename_i starts
      split at read
      · cases read
      · rename_i free
        cases read
        have starts : op.keyword.isPrefixOf t := by simpa using starts
        obtain ⟨rest, rfl⟩ := List.isPrefixOf_iff_prefix.mp starts
        exact ⟨op.keyword, by rw [List.drop_left], rfl, ⟨rfl, rfl⟩, Bool.eq_false_iff.mpr free⟩
  | separator =>
    obtain ⟨run, rest, rfl, all, stops⟩ := exists_run CharClass.gap t
    simp only [token, takeWhile_append all stops, List.drop_left] at read
    split at read
    · cases read
    · rename_i nonempty
      cases read
      exact ⟨run, rfl, rfl, ⟨by simpa using nonempty, all, rfl⟩, stops⟩
  | register =>
    simp only [token] at read
    split at read
    · rename_i found
      cases read
      obtain ⟨same, stops⟩ := afterWord?_eq_some.mp found
      exact ⟨_, same, rfl, ⟨.x, rfl, rfl⟩, stops⟩
    · rename_i found
      cases read
      obtain ⟨same, stops⟩ := afterWord?_eq_some.mp found
      exact ⟨_, same, rfl, ⟨.acc, rfl, rfl⟩, stops⟩
    · cases read
  | value =>
    simp only [token] at read
    split at read
    · rename_i found
      cases read
      obtain ⟨same, stops⟩ := afterWord?_eq_some.mp found
      exact ⟨_, same, rfl, ⟨_, .x, by decide, rfl⟩, stops⟩
    · rename_i w _ found
      obtain ⟨n, rest, rfl, numeral, stops⟩ := numeral?_sound found
      cases number : number offset w with
      | error why =>
        rw [number] at read
        cases read
      | ok v =>
        rw [number] at read
        cases read
        obtain ⟨short, fits, rfl⟩ := (number_ok_iff numeral).mp number
        rw [List.drop_left]
        exact ⟨w, rfl, rfl, ⟨_, .number numeral fits, short, rfl⟩, stops⟩
    · cases read
  | reference | definition =>
    simp only [token] at read
    split at read
    · cases read
    · rename_i nonempty
      cases read
      obtain ⟨w, rest, rfl, name, stops⟩ := identifier_sound (Bool.eq_false_iff.mpr nonempty)
      rw [identifier_append name stops, List.drop_left]
      exact ⟨w, rfl, rfl, ⟨name, rfl⟩, stops⟩
  | colon =>
    simp only [token] at read
    split at read
    · rename_i rest
      cases read
      refine ⟨[':'], rfl, rfl, ⟨rfl, rfl⟩, ?_⟩
      cases rest <;> rfl
    · cases read
  | lineEnd =>
    simp only [token] at read
    split at read
    · rename_i empty
      cases read
      exact ⟨[], by simpa using empty, rfl, ⟨rfl, rfl⟩, rfl⟩
    · cases read

theorem lexeme_stops {e : Element} {i : Nat} {w rest : Text} {ns : List Note}
    (lexeme : e.Lexeme i w ns) (stops : Stops e.tail rest) : Stops e.skips (w ++ rest) := by
  cases e with
  | keyword op =>
    obtain ⟨rfl, -⟩ := lexeme
    cases op <;> rfl
  | separator =>
    obtain ⟨nonempty, all, -⟩ := lexeme
    obtain ⟨c, w, rfl⟩ := List.exists_cons_of_ne_nil nonempty
    exact CharClass.not_separatorPadding_of_gap (all c List.mem_cons_self)
  | register =>
    obtain ⟨r, rfl, -⟩ := lexeme
    cases r <;> rfl
  | value =>
    obtain ⟨v, operand, -⟩ := lexeme
    cases operand with
    | x => rfl
    | number numeral fits =>
      obtain ⟨c, w, rfl, digit | rfl⟩ := numeral.head
      · exact CharClass.not_padding_of_word (CharClass.word_of_isDigit digit)
      · rfl
  | reference | definition =>
    obtain ⟨⟨c, w, rfl, start, -⟩, -⟩ := lexeme
    exact CharClass.not_padding_of_word (CharClass.word_of_wordStart start)
  | colon =>
    obtain ⟨rfl, -⟩ := lexeme
    rfl
  | lineEnd =>
    obtain ⟨rfl, -⟩ := lexeme
    cases rest with
    | nil => rfl
    | cons c rest => cases stops

theorem read_append {e : Element} {offset : Nat} {gap t : Text} (skipped : ∀ c ∈ gap, e.skips c)
    (stops : Stops e.skips t) : e.read offset (gap ++ t) = e.token (offset + gap.length) t := by
  unfold read
  rw [takeWhile_append skipped stops, dropWhile_append skipped stops]

theorem read_ok_iff {e : Element} {offset : Nat} {t : Text} {r : Reading} :
    e.read offset t = .ok r ↔ ∃ gap w, t = gap ++ (w ++ r.rest) ∧ (∀ c ∈ gap, e.skips c) ∧
      e.Lexeme (offset + gap.length) w r.notes ∧ Stops e.tail r.rest ∧
      r.offset = offset + gap.length + w.length := by
  constructor
  · intro read
    obtain ⟨gap, behind, rfl, skipped, stops⟩ := exists_run e.skips t
    rw [read_append skipped stops] at read
    obtain ⟨w, rfl, moved, lexeme, ends⟩ := token_sound read
    exact ⟨gap, w, rfl, skipped, lexeme, ends, moved⟩
  · rintro ⟨gap, w, rfl, skipped, lexeme, ends, moved⟩
    rw [read_append skipped (lexeme_stops lexeme ends), token_complete lexeme ends, ← moved]

theorem readAll_cons_ok_iff {e : Element} {es : List Element} {offset : Nat} {t : Text}
    {ns : List Note} :
    readAll (e :: es) offset t = .ok ns ↔ ∃ first others, e.read offset t = .ok first ∧
      readAll es first.offset first.rest = .ok others ∧ ns = first.notes ++ others := by
  simp only [readAll, bind, Except.bind, pure, Except.pure]
  cases head : e.read offset t with
  | error why => simp
  | ok first =>
    cases more : readAll es first.offset first.rest with
    | error why => simp [more]
    | ok others => simp [more, eq_comm]

theorem colon_sound {offset : Nat} {t : Text} {r : Reading}
    (read : Element.colon.read offset t = .ok r) :
    t = ':' :: r.rest ∧ r.notes = [] ∧ r.offset = offset + 1 := by
  obtain ⟨gap, mark, rfl, free, ⟨rfl, nothing⟩, -, moved⟩ := read_ok_iff.mp read
  cases gap with
  | nil => exact ⟨rfl, nothing, moved⟩
  | cons c gap => cases free c List.mem_cons_self

theorem readAll_colon_iff {es : List Element} {offset : Nat} {t : Text} {ns : List Note} :
    readAll (.colon :: es) offset t = .ok ns ↔
      ∃ rest, t = ':' :: rest ∧ readAll es (offset + 1) rest = .ok ns := by
  constructor
  · intro read
    obtain ⟨first, others, here, later, rfl⟩ := readAll_cons_ok_iff.mp read
    obtain ⟨rfl, nothing, moved⟩ := colon_sound here
    rw [nothing]
    rw [moved] at later
    exact ⟨first.rest, rfl, later⟩
  · rintro ⟨rest, rfl, later⟩
    exact readAll_cons_ok_iff.mpr ⟨⟨[], offset + 1, rest⟩, ns, rfl, later, rfl⟩

inductive Fails : Element → Nat → Text → Failure → Prop
  | mismatch {e : Element} {i j : Nat} {t : Text} (reached : i ≤ j) (inside : j ≤ i + t.length) :
      Fails e i t (.mismatch j e)
  | overflow {i : Nat} {literal rest : Text} {n : Int} (numeral : Numeral literal n)
      (stops : Stops CharClass.word rest) (outside : ¬ Word.InRange n) :
      Fails .value i (literal ++ rest) (.overflow i literal)
  | oversized {i : Nat} {literal rest : Text} {n : Int} (numeral : Numeral literal n)
      (stops : Stops CharClass.word rest) (long : maxDigits < digitCount literal) :
      Fails .value i (literal ++ rest) (.oversized (digitCount literal))

theorem Fails.here {e : Element} {i : Nat} {t : Text} : Fails e i t (.mismatch i e) :=
  .mismatch (Nat.le_refl i) (Nat.le_add_right i t.length)

theorem number_error {offset : Nat} {w rest : Text} {n : Int} {why : Failure}
    (numeral : Numeral w n) (stops : Stops CharClass.word rest)
    (failed : number offset w = .error why) : Fails .value offset (w ++ rest) why := by
  unfold number at failed
  rw [numeral.toInt] at failed
  by_cases short : digitCount w > maxDigits
  · rw [if_pos short] at failed
    cases failed
    exact .oversized numeral stops short
  · simp only [if_neg short] at failed
    split at failed
    · cases failed
    · rename_i outside
      cases failed
      exact .overflow numeral stops outside

theorem token_error {e : Element} {offset : Nat} {t : Text} {why : Failure}
    (failed : e.token offset t = .error why) : Fails e offset t why := by
  cases e with
  | keyword op =>
    simp only [token] at failed
    split at failed
    · cases failed
      exact .here
    · rename_i starts
      split at failed
      · cases failed
        have starts : op.keyword.isPrefixOf t := by simpa using starts
        have short := (List.isPrefixOf_iff_prefix.mp starts).length_le
        exact .mismatch (Nat.le_add_right _ _) (Nat.add_le_add_left short _)
      · cases failed
  | value =>
    simp only [token] at failed
    split at failed
    · cases failed
    · rename_i w _ found
      obtain ⟨n, rest, rfl, numeral, stops⟩ := numeral?_sound found
      cases number : number offset w with
      | error why =>
        rw [number] at failed
        cases failed
        exact number_error numeral stops number
      | ok v =>
        rw [number] at failed
        cases failed
    · cases failed
      exact .here
  | separator | register | reference | definition | colon | lineEnd =>
    simp only [token] at failed
    split at failed <;> cases failed
    exact .here

theorem read_error {e : Element} {offset : Nat} {t : Text} {why : Failure}
    (failed : e.read offset t = .error why) : ∃ gap behind, t = gap ++ behind ∧
      (∀ c ∈ gap, e.skips c) ∧ Fails e (offset + gap.length) behind why := by
  obtain ⟨gap, behind, rfl, skipped, stops⟩ := exists_run e.skips t
  rw [read_append skipped stops] at failed
  exact ⟨gap, behind, rfl, skipped, token_error failed⟩

theorem readAll_cons_error {e : Element} {es : List Element} {offset : Nat} {t : Text}
    {why : Failure} (failed : readAll (e :: es) offset t = .error why) :
    e.read offset t = .error why ∨ ∃ first, e.read offset t = .ok first ∧
      readAll es first.offset first.rest = .error why := by
  simp only [readAll, bind, Except.bind, pure, Except.pure] at failed
  cases head : e.read offset t with
  | error other =>
    rw [head] at failed
    cases failed
    exact .inl rfl
  | ok first =>
    rw [head] at failed
    dsimp only at failed
    cases more : readAll es first.offset first.rest with
    | error other =>
      rw [more] at failed
      cases failed
      exact .inr ⟨first, rfl, more⟩
    | ok others =>
      rw [more] at failed
      cases failed

theorem readAll_error {es : List Element} {offset : Nat} {t : Text} {why : Failure}
    (failed : readAll es offset t = .error why) : ∃ e ∈ es, ∃ before behind,
      t = before ++ behind ∧ Fails e (offset + before.length) behind why := by
  induction es generalizing offset t with
  | nil => cases failed
  | cons e es ih =>
    rcases readAll_cons_error failed with here | ⟨first, read, later⟩
    · obtain ⟨gap, behind, rfl, -, fails⟩ := read_error here
      exact ⟨e, List.mem_cons_self, gap, behind, rfl, fails⟩
    · obtain ⟨gap, w, rfl, -, -, -, moved⟩ := read_ok_iff.mp read
      obtain ⟨e, member, before, behind, split, fails⟩ := ih later
      refine ⟨e, List.mem_cons_of_mem _ member, gap ++ w ++ before, behind, ?_, ?_⟩
      · rw [split, List.append_assoc, List.append_assoc]
      · rw [moved] at fails
        simpa [Nat.add_assoc] using fails

end Element

end TapeMachine
