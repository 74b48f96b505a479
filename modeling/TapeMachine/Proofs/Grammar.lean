import TapeMachine.Proofs.Reading

/-! The grammar of lines. A line that spells a statement is read as that statement, and no other
line is accepted. At most one form decides about a line, so that it does not matter in which
order the forms are tried. -/
namespace TapeMachine

open Text

def Blank (c : Char) : Prop := c = ' ' ∨ c = '\t' ∨ c = '\r'

/-- What stands in front of an operand; at least one space or tab is part of it. -/
def Separator (t : Text) : Prop :=
  ∃ lead gap trail, t = lead ++ (gap ++ trail) ∧ (∀ c ∈ lead, CharClass.separatorPadding c) ∧
    gap ≠ [] ∧ (∀ c ∈ gap, CharClass.gap c) ∧ ∀ c ∈ trail, Blank c

inductive Statement
  | instr (op : Opcode) (reg : Option Register) (value : Option Value) (label : Option Text)
  | label (name : Text)
  deriving Repr, DecidableEq

def Line.statement? : Line → Option Statement
  | instr ⟨op, reg, value, name, none⟩ => some (.instr op reg value (name.map Token.text))
  | label token => some (.label token.text)
  | _ => none

/-- How a statement is written, apart from blanks around it. -/
inductive Body : Text → Statement → Prop
  | bare {op : Opcode} (takes : op ∈ [.gol, .gor, .sav, .ret, .inp, .out, .dec]) :
      Body op.keyword (.instr op none none none)
  | transfer {op : Opcode} {gap : Text} (takes : op ∈ [.get, .put]) (separator : Separator gap)
      (r : Register) : Body (op.keyword ++ (gap ++ r.keyword)) (.instr op (some r) none none)
  | jump {gap name : Text} (separator : Separator gap) (identifier : Identifier name) :
      Body (Opcode.jmp.keyword ++ (gap ++ name)) (.instr .jmp none none (some name))
  | branch {op : Opcode} {gap gap' name : Text} (takes : op ∈ [.jnz, .jlz])
      (separator : Separator gap) (r : Register) (separator' : Separator gap')
      (identifier : Identifier name) :
      Body (op.keyword ++ (gap ++ (r.keyword ++ (gap' ++ name))))
        (.instr op (some r) none (some name))
  | arithmetic {op : Opcode} {gap w : Text} {v : Value} (takes : op ∈ [.set, .add, .mul, .div])
      (separator : Separator gap) (operand : Operand w v) :
      Body (op.keyword ++ (gap ++ w)) (.instr op none (some v) none)
  | label {name : Text} (identifier : Identifier name) : Body (name ++ [':']) (.label name)

def Spells (t : Text) (s : Statement) : Prop :=
  ∃ before body after, t = before ++ (body ++ after) ∧ (∀ c ∈ before, Blank c) ∧ Body body s ∧
    ∀ c ∈ after, Blank c

theorem padding_iff {c : Char} : CharClass.padding c ↔ Blank c ∨ c = '\n' := by
  simp only [CharClass.padding, Blank, Bool.or_eq_true, beq_iff_eq]
  tauto

theorem Blank.not_keywordTail {c : Char} (blank : Blank c) : CharClass.keywordTail c = false := by
  rcases blank with rfl | rfl | rfl <;> rfl

theorem Blank.padding {c : Char} (blank : Blank c) : CharClass.padding c :=
  padding_iff.mpr (.inl blank)

theorem stops_word {t : Text} (stops : Stops CharClass.keywordTail t) : Stops CharClass.word t :=
  stops.mono fun c goesOn => by simp [CharClass.keywordTail, goesOn]

theorem stops_of_blanks {t : Text} (blanks : ∀ c ∈ t, Blank c) :
    Stops CharClass.keywordTail t := by
  cases t with
  | nil => rfl
  | cons c t => exact (blanks c List.mem_cons_self).not_keywordTail

theorem Separator.stops {sep rest : Text} (separator : Separator sep) :
    Stops CharClass.keywordTail (sep ++ rest) := by
  obtain ⟨lead, gap, trail, rfl, leads, nonempty, gaps, -⟩ := separator
  cases lead with
  | cons c lead => exact CharClass.not_keywordTail_of_separatorPadding (leads c List.mem_cons_self)
  | nil =>
    obtain ⟨c, gap, rfl⟩ := List.exists_cons_of_ne_nil nonempty
    exact CharClass.not_keywordTail_of_gap (gaps c List.mem_cons_self)

theorem Separator.last {sep : Text} (separator : Separator sep) :
    ∃ front c, sep = front ++ [c] ∧ CharClass.padding c := by
  obtain ⟨lead, gap, trail, rfl, -, nonempty, gaps, trails⟩ := separator
  have padded : ∀ c ∈ trail, CharClass.padding c := fun c member => (trails c member).padding
  obtain ⟨front, c, closed, blank⟩ := exists_last_blank nonempty gaps padded
  exact ⟨lead ++ front, c, by rw [closed, List.append_assoc], blank⟩

namespace Element

variable {e : Element} {es : List Element} {offset : Nat} {t gap w rest : Text}
  {ns first others : List Note}

theorem first_sound (padded : e.skips = CharClass.padding) (oneLine : '\n' ∉ t)
    (read : readAll (e :: es) offset t = .ok ns) : ∃ gap w rest first others,
      t = gap ++ (w ++ rest) ∧ (∀ c ∈ gap, Blank c) ∧ e.Lexeme (offset + gap.length) w first ∧
      Stops e.tail rest ∧ readAll es (offset + gap.length + w.length) rest = .ok others ∧
      ns = first ++ others ∧ '\n' ∉ rest := by
  obtain ⟨reading, others, here, later, rfl⟩ := readAll_cons_ok_iff.mp read
  obtain ⟨gap, w, rfl, skipped, lexeme, stops, moved⟩ := read_ok_iff.mp here
  rw [moved] at later
  refine ⟨gap, w, reading.rest, _, others, rfl, ?_, lexeme, stops, later, rfl, ?_⟩
  · intro c member
    rw [padded] at skipped
    rcases padding_iff.mp (skipped c member) with blank | rfl
    · exact blank
    · exact absurd (List.mem_append_left _ member) oneLine
  · intro member
    exact oneLine (List.mem_append_right _ (List.mem_append_right _ member))

theorem first_complete (e : Element) (padded : e.skips = CharClass.padding)
    (blanks : ∀ c ∈ gap, Blank c) (lexeme : e.Lexeme (offset + gap.length) w first)
    (stops : Stops e.tail rest)
    (later : readAll es (offset + gap.length + w.length) rest = .ok others) :
    readAll (e :: es) offset (gap ++ (w ++ rest)) = .ok (first ++ others) := by
  have skipped : ∀ c ∈ gap, e.skips c := by
    intro c member
    rw [padded]
    exact (blanks c member).padding
  have here : e.read offset (gap ++ (w ++ rest)) = .ok ⟨first, _, rest⟩ :=
    read_ok_iff.mpr ⟨gap, w, rfl, skipped, lexeme, stops, rfl⟩
  exact readAll_cons_ok_iff.mpr ⟨_, others, here, later, rfl⟩

theorem lineEnd_sound (oneLine : '\n' ∉ t) (read : readAll [.lineEnd] offset t = .ok ns) :
    (∀ c ∈ t, Blank c) ∧ ns = [] := by
  obtain ⟨gap, w, rest, first, others, rfl, blanks, ⟨rfl, rfl⟩, stops, last, rfl, -⟩ :=
    first_sound rfl oneLine read
  cases last
  cases rest with
  | cons c rest => cases stops
  | nil => exact ⟨by simpa using blanks, rfl⟩

theorem lineEnd_complete (blanks : ∀ c ∈ t, Blank c) : readAll [.lineEnd] offset t = .ok [] := by
  have read : readAll [.lineEnd] offset (t ++ ([] ++ [])) = .ok ([] ++ []) :=
    first_complete .lineEnd rfl blanks ⟨rfl, rfl⟩ rfl rfl
  simpa using read

theorem operand_sound (padded : e.skips = CharClass.padding) (oneLine : '\n' ∉ t)
    (read : readAll (.separator :: e :: es) offset t = .ok ns) :
    ∃ gap w rest first others i j, t = gap ++ (w ++ rest) ∧ Separator gap ∧ e.Lexeme i w first ∧
      Stops e.tail rest ∧ readAll es j rest = .ok others ∧ ns = first ++ others ∧ '\n' ∉ rest := by
  obtain ⟨reading, behind, here, later, rfl⟩ := readAll_cons_ok_iff.mp read
  obtain ⟨lead, gap, rfl, leads, ⟨nonempty, gaps, nothing⟩, -, -⟩ := read_ok_iff.mp here
  have inLine : '\n' ∉ reading.rest := fun member =>
    oneLine (List.mem_append_right _ (List.mem_append_right _ member))
  -- the separator is read up to the end of its gap; the blanks behind that are the operand's
  obtain ⟨trail, w, rest, first, others, split, trails, lexeme, stops, last, rfl, inLine⟩ :=
    first_sound padded inLine later
  refine ⟨lead ++ (gap ++ trail), w, rest, first, others, _, _, ?_, ?_, lexeme, stops, last, ?_,
    inLine⟩
  · rw [split]
    simp
  · exact ⟨lead, gap, trail, rfl, leads, nonempty, gaps, trails⟩
  · rw [nothing, List.nil_append]

theorem separator_complete (separator : Separator gap) (stops : Stops CharClass.padding rest)
    (offset : Nat) : ∃ i trail, Element.separator.read offset (gap ++ rest) =
        .ok ⟨[], i, trail ++ rest⟩ ∧ (∀ c ∈ trail, Blank c) ∧
      i + trail.length = offset + gap.length := by
  obtain ⟨lead, gap, trail, rfl, leads, nonempty, gaps, trails⟩ := separator
  obtain ⟨run, trail, rfl, runs, ends⟩ := exists_run CharClass.gap trail
  have free : Stops CharClass.gap (trail ++ rest) := by
    cases trail with
    | cons c trail => exact ends
    | nil => exact stops.mono fun _ => CharClass.padding_of_gap
  have blanks : ∀ c ∈ gap ++ run, CharClass.gap c := by
    intro c member
    exact (List.mem_append.mp member).elim (gaps c) (runs c)
  refine ⟨_, trail, read_ok_iff.mpr ⟨lead, gap ++ run, ?_, leads,
    ⟨by simp [nonempty], blanks, rfl⟩, free, rfl⟩, ?_, ?_⟩
  · simp only [List.append_assoc]
  · exact fun c member => trails c (List.mem_append_right _ member)
  · simp only [List.length_append]
    omega

theorem operand_complete (e : Element) (padded : e.skips = CharClass.padding)
    (separator : Separator gap) (lexeme : e.Lexeme (offset + gap.length) w first)
    (stops : Stops e.tail rest)
    (later : readAll es (offset + gap.length + w.length) rest = .ok others) :
    readAll (.separator :: e :: es) offset (gap ++ (w ++ rest)) = .ok (first ++ others) := by
  have ends : Stops CharClass.padding (w ++ rest) := padded ▸ lexeme_stops lexeme stops
  obtain ⟨i, trail, here, trails, moved⟩ := separator_complete separator ends offset
  rw [← moved] at lexeme later
  have behind := first_complete e padded trails lexeme stops later
  exact readAll_cons_ok_iff.mpr ⟨_, _, here, behind, rfl⟩

end Element

def Says (ns : List Note) (s : Statement) : Prop :=
  ∀ offset, ∃ line, ((Draft.blank offset).notes ns).line = .ok line ∧ line.statement? = some s

def Statement.form : Statement → Form
  | instr op _ _ _ => .instr op
  | label _ => .label

def Statement.value? : Statement → Option Value
  | instr _ _ value _ => value
  | label _ => none

namespace Form

open Element

theorem read_sound {f : Form} {t : Text} {ns : List Note} (oneLine : '\n' ∉ t)
    (read : f.read t = .ok ns) : ∃ s, Spells t s ∧ Says ns s := by
  cases f with
  | label =>
    obtain ⟨before, name, behind, _, _, rfl, blanks, ⟨identifier, rfl⟩, -, later, rfl, inLine⟩ :=
      first_sound rfl oneLine read
    obtain ⟨rest, rfl, last⟩ := readAll_colon_iff.mp later
    obtain ⟨after, rfl⟩ := lineEnd_sound (fun member => inLine (List.mem_cons_of_mem _ member)) last
    refine ⟨_, ⟨before, _, rest, ?_, blanks, .label identifier, after⟩, fun _ => ⟨_, rfl, rfl⟩⟩
    simp
  | instr op =>
    obtain ⟨before, w, behind, _, _, rfl, blanks, ⟨rfl, rfl⟩, -, later, rfl, inLine⟩ :=
      first_sound rfl oneLine read
    cases op with
    | gol | gor | sav | ret | inp | out | dec =>
      -- a keyword alone leaves the end of the line, any other the separator of its operand
      obtain ⟨after, rfl⟩ := lineEnd_sound inLine later
      exact ⟨_, ⟨before, _, behind, rfl, blanks, .bare (by simp), after⟩, fun _ => ⟨_, rfl, rfl⟩⟩
    | get | put =>
      obtain ⟨gap, w, rest, _, _, _, _, rfl, separator, ⟨r, rfl, rfl⟩, -, last, rfl, atEnd⟩ :=
        operand_sound rfl inLine later
      obtain ⟨after, rfl⟩ := lineEnd_sound atEnd last
      refine ⟨_, ⟨before, _, rest, ?_, blanks, .transfer (by simp) separator r, after⟩,
        fun _ => ⟨_, rfl, rfl⟩⟩
      simp only [List.append_assoc]
    | jmp =>
      obtain ⟨gap, name, rest, _, _, _, _, rfl, separator, ⟨identifier, rfl⟩, -, last, rfl,
        atEnd⟩ := operand_sound rfl inLine later
      obtain ⟨after, rfl⟩ := lineEnd_sound atEnd last
      refine ⟨_, ⟨before, _, rest, ?_, blanks, .jump separator identifier, after⟩,
        fun _ => ⟨_, rfl, rfl⟩⟩
      simp only [List.append_assoc]
    | jnz | jlz =>
      obtain ⟨gap, w, more, _, _, _, _, rfl, separator, ⟨r, rfl, rfl⟩, -, reference, rfl,
        inLine'⟩ := operand_sound rfl inLine later
      obtain ⟨gap', name, rest, _, _, _, _, rfl, separator', ⟨identifier, rfl⟩, -, last, rfl,
        atEnd⟩ := operand_sound rfl inLine' reference
      obtain ⟨after, rfl⟩ := lineEnd_sound atEnd last
      refine ⟨_, ⟨before, _, rest, ?_, blanks, .branch (by simp) separator r separator' identifier,
        after⟩, fun _ => ⟨_, rfl, rfl⟩⟩
      simp only [List.append_assoc]
    | set | add | mul | div =>
      obtain ⟨gap, w, rest, _, _, _, _, rfl, separator, ⟨v, operand, -, rfl⟩, -, last, rfl,
        atEnd⟩ := operand_sound rfl inLine later
      obtain ⟨after, rfl⟩ := lineEnd_sound atEnd last
      refine ⟨_, ⟨before, _, rest, ?_, blanks, .arithmetic (by simp) separator operand, after⟩,
        fun _ => ⟨_, rfl, rfl⟩⟩
      simp only [List.append_assoc]

theorem instr_read {op : Opcode} {es : List Element} (takes : operands op = es) (t : Text) :
    (instr op).read t = readAll (.keyword op :: (es ++ [.lineEnd])) 0 t := by
  rw [← takes]
  rfl

theorem keyword_complete {op : Opcode} {es : List Element} {before rest : Text} {ns : List Note}
    (takes : operands op = es) (blanks : ∀ c ∈ before, Blank c)
    (stops : Stops CharClass.keywordTail rest)
    (later : readAll (es ++ [.lineEnd]) (0 + before.length + op.keyword.length) rest = .ok ns) :
    (instr op).read (before ++ (op.keyword ++ rest)) = .ok (.opcode op :: ns) := by
  have lexeme : (Element.keyword op).Lexeme (0 + before.length) op.keyword [.opcode op] :=
    ⟨rfl, rfl⟩
  rw [instr_read takes]
  exact first_complete _ rfl blanks lexeme stops later

theorem reference_complete {gap name after : Text} (separator : Separator gap)
    (identifier : Identifier name) (blanks : ∀ c ∈ after, Blank c) (i : Nat) :
    readAll [.separator, .reference, .lineEnd] i (gap ++ (name ++ after)) =
      .ok [.reference name (i + gap.length)] :=
  operand_complete .reference rfl separator ⟨identifier, rfl⟩ (stops_word (stops_of_blanks blanks))
    (lineEnd_complete blanks)

theorem read_complete {t : Text} {s : Statement} (spells : Spells t s)
    (short : s.value?.isSome → ∀ i w n, t.Literal i w n → digitCount w ≤ maxDigits) :
    ∃ ns, s.form.read t = .ok ns ∧ Says ns s := by
  obtain ⟨before, body, after, rfl, blanks, body, afters⟩ := spells
  cases body with
  | @bare op takes =>
    have none : operands op = [] := by
      revert takes
      cases op <;> decide
    have read := keyword_complete none blanks (stops_of_blanks afters) (lineEnd_complete afters)
    exact ⟨_, read, fun _ => ⟨_, rfl, rfl⟩⟩
  | @transfer op gap takes separator r =>
    have register : operands op = [.separator, .register] := by
      revert takes
      cases op <;> decide
    have operand (i : Nat) : readAll [.separator, .register, .lineEnd] i
        (gap ++ (r.keyword ++ after)) = .ok [.register r] :=
      operand_complete .register rfl separator ⟨r, rfl, rfl⟩ (stops_word (stops_of_blanks afters))
        (lineEnd_complete afters)
    have read := keyword_complete register blanks separator.stops (operand _)
    simp only [List.append_assoc]
    exact ⟨_, read, fun _ => ⟨_, rfl, rfl⟩⟩
  | jump separator identifier =>
    have reference : operands .jmp = [.separator, .reference] := rfl
    have operand := reference_complete separator identifier afters
    have read := keyword_complete reference blanks separator.stops (operand _)
    simp only [List.append_assoc]
    exact ⟨_, read, fun _ => ⟨_, rfl, rfl⟩⟩
  | @branch op gap gap' name takes separator r separator' identifier =>
    have both : operands op = [.separator, .register, .separator, .reference] := by
      revert takes
      cases op <;> decide
    have reference := reference_complete separator' identifier afters
    have operand (i : Nat) : readAll [.separator, .register, .separator, .reference, .lineEnd] i
        (gap ++ (r.keyword ++ (gap' ++ (name ++ after)))) = .ok [.register r, .reference name _] :=
      operand_complete .register rfl separator ⟨r, rfl, rfl⟩ (stops_word separator'.stops)
        (reference _)
    have read := keyword_complete both blanks separator.stops (operand _)
    simp only [List.append_assoc]
    exact ⟨_, read, fun _ => ⟨_, rfl, rfl⟩⟩
  | @arithmetic op gap w v takes separator operand =>
    have value : operands op = [.separator, .value] := by
      revert takes
      cases op <;> decide
    -- only an operand can have too many digits, and then it is a literal of the whole line
    have bounded : digitCount w ≤ maxDigits := by
      cases operand with
      | x => decide
      | number numeral fits =>
        obtain ⟨front, c, rfl, padded⟩ := separator.last
        have free : Stops CharClass.word after := stops_word (stops_of_blanks afters)
        exact short rfl _ w _
          ⟨numeral, before ++ (op.keyword ++ front), c, after, by simp, rfl, padded, free⟩
    have operand (i : Nat) : readAll [.separator, .value, .lineEnd] i (gap ++ (w ++ after)) =
        .ok [.value v] :=
      operand_complete .value rfl separator ⟨v, operand, bounded, rfl⟩
        (stops_word (stops_of_blanks afters)) (lineEnd_complete afters)
    have read := keyword_complete value blanks separator.stops (operand _)
    simp only [List.append_assoc]
    exact ⟨_, read, fun _ => ⟨_, rfl, rfl⟩⟩
  | @label name identifier =>
    have colon : Stops CharClass.word (':' :: after) := rfl
    have definition : label.read (before ++ (name ++ (':' :: after))) = .ok _ :=
      first_complete .definition rfl blanks ⟨identifier, rfl⟩ colon
        (readAll_colon_iff.mpr ⟨after, rfl, lineEnd_complete afters⟩)
    simp only [List.append_assoc, List.singleton_append]
    exact ⟨_, definition, fun _ => ⟨_, rfl, rfl⟩⟩

def Begins (f : Form) (t : Text) : Prop :=
  ∃ before w rest, t = before ++ (w ++ rest) ∧ (∀ c ∈ before, CharClass.padding c) ∧
    Identifier w ∧ Stops CharClass.word rest ∧
    match f with
    | instr op => w = op.keyword ∧ rest.head? ≠ some ':'
    | label => rest.head? = some ':'

theorem keyword_identifier (op : Opcode) : Identifier op.keyword := by
  cases op <;> exact ⟨_, _, rfl, rfl, List.all_eq_true.mp rfl⟩

theorem eq_of_begins {f g : Form} {t : Text} (begins : f.Begins t) (begins' : g.Begins t) :
    f = g := by
  obtain ⟨before, w, rest, rfl, padded, name, stops, fits⟩ := begins
  obtain ⟨before', w', rest', split, padded', name', stops', fits'⟩ := begins'
  have first {v u : Text} (name : Identifier v) : Stops CharClass.padding (v ++ u) := by
    obtain ⟨c, v, rfl, start, -⟩ := name
    exact CharClass.not_padding_of_word (CharClass.word_of_wordStart start)
  -- both forms look at the first word, which is the same for them
  have behind := congrArg (List.dropWhile CharClass.padding) split
  rw [dropWhile_append padded (first name), dropWhile_append padded' (first name')] at behind
  have sameWord := congrArg (List.takeWhile CharClass.word) behind
  rw [takeWhile_append name.word stops, takeWhile_append name'.word stops'] at sameWord
  have sameRest := congrArg (List.dropWhile CharClass.word) behind
  rw [dropWhile_append name.word stops, dropWhile_append name'.word stops'] at sameRest
  subst sameWord sameRest
  cases f with
  | label =>
    cases g with
    | label => rfl
    | instr op => exact absurd fits fits'.2
  | instr op =>
    cases g with
    | label => exact absurd fits' fits.2
    | instr op' => exact congrArg instr (Opcode.keyword_injective (fits.1.symm.trans fits'.1))

theorem head_ne_colon {e : Element} {offset : Nat} {t : Text} {r : Reading}
    (ends : e = .separator ∨ e = .lineEnd) (read : e.read offset t = .ok r) :
    t.head? ≠ some ':' := by
  obtain ⟨gap, w, rfl, skipped, lexeme, stops, -⟩ := read_ok_iff.mp read
  intro colon
  cases gap with
  | cons c gap =>
    cases colon
    have skips := skipped ':' List.mem_cons_self
    rcases ends with rfl | rfl <;> cases skips
  | nil =>
    rcases ends with rfl | rfl
    · obtain ⟨nonempty, gaps, -⟩ := lexeme
      obtain ⟨c, w, rfl⟩ := List.exists_cons_of_ne_nil nonempty
      cases colon
      cases gaps ':' List.mem_cons_self
    · obtain ⟨rfl, -⟩ := lexeme
      cases rest : r.rest with
      | nil =>
        rw [rest] at colon
        cases colon
      | cons c more =>
        rw [rest] at stops
        cases stops

theorem Decides.first_two {f : Form} {t : Text} {offset : Nat} {v : Verdict} {a b : Element}
    {es : List Element} (decides : f.Decides t offset v) (starts : f.elements = a :: b :: es)
    (plain : a ≠ .value) (plain' : b ≠ .value) : ∃ first second,
      a.read 0 t = .ok first ∧ b.read first.offset first.rest = .ok second := by
  cases decides with
  | accepted read =>
    rw [Form.read, starts] at read
    obtain ⟨first, _, here, later, -⟩ := readAll_cons_ok_iff.mp read
    obtain ⟨second, _, next, -, -⟩ := readAll_cons_ok_iff.mp later
    exact ⟨first, second, here, next⟩
  | overflow failed | oversized failed =>
    rw [Form.read, starts] at failed
    obtain ⟨first, here, later⟩ := readAll_error_later failed plain nofun
    obtain ⟨second, next, -⟩ := readAll_error_later later plain' nofun
    exact ⟨first, second, here, next⟩

theorem begins_of_decides {f : Form} {t : Text} {offset : Nat} {v : Verdict}
    (decides : f.Decides t offset v) : f.Begins t := by
  cases f with
  | label =>
    obtain ⟨first, second, definition, colon⟩ := decides.first_two rfl nofun nofun
    obtain ⟨before, name, rfl, padded, ⟨identifier, -⟩, stops, -⟩ := read_ok_iff.mp definition
    have marked : first.rest.head? = some ':' := congrArg List.head? (colon_sound colon).1
    exact ⟨before, name, first.rest, rfl, padded, identifier, stops, marked⟩
  | instr op =>
    obtain ⟨b, es, starts, ends⟩ : ∃ b es, (instr op).elements = .keyword op :: b :: es ∧
        (b = .separator ∨ b = .lineEnd) := by
      cases op <;> exact ⟨_, _, rfl, by simp⟩
    have plain : b ≠ .value := by rcases ends with rfl | rfl <;> nofun
    obtain ⟨first, second, keyword, next⟩ := decides.first_two starts nofun plain
    obtain ⟨before, w, rfl, padded, ⟨rfl, -⟩, stops, -⟩ := read_ok_iff.mp keyword
    exact ⟨before, _, first.rest, rfl, padded, keyword_identifier op, stops_word stops, rfl,
      head_ne_colon ends next⟩

/-- At most one form decides about a line. -/
theorem eq_of_decides {f g : Form} {t : Text} {i j : Nat} {u v : Verdict}
    (decides : f.Decides t i u) (decides' : g.Decides t j v) : f = g :=
  eq_of_begins (begins_of_decides decides) (begins_of_decides decides')

end Form

namespace Verdict

theorem ofText_eq {f : Form} {t : Text} {offset : Nat} {v : Verdict}
    (decides : f.Decides t offset v) (terminated : Bool) : ofText t offset terminated = v := by
  rcases ofText_cases t offset terminated with ⟨g, decides'⟩ | ⟨undecided, -⟩
  · obtain rfl := Form.eq_of_decides decides decides'
    exact Option.some.inj ((ofForm?_eq_some.mpr decides').symm.trans (ofForm?_eq_some.mpr decides))
  · exact absurd decides (undecided f v)

theorem spells_of_accepted {t : Text} {offset : Nat} {terminated : Bool} {line : Line}
    (oneLine : '\n' ∉ t) (accepted : ofText t offset terminated = .accepted line) :
    ∃ s, Spells t s ∧ line.statement? = some s := by
  obtain ⟨f, ns, read, drafted⟩ := read_of_accepted accepted
  obtain ⟨s, spells, stated⟩ := Form.read_sound oneLine read
  obtain ⟨line', drafted', same⟩ := stated offset
  cases drafted.symm.trans drafted'
  exact ⟨s, spells, same⟩

theorem accepted_of_spells_value {t : Text} {s : Statement} (spells : Spells t s)
    (short : s.value?.isSome → ∀ i w n, t.Literal i w n → Element.digitCount w ≤ maxDigits)
    (offset : Nat) (terminated : Bool) :
    ∃ line, ofText t offset terminated = .accepted line ∧ line.statement? = some s := by
  obtain ⟨ns, read, stated⟩ := Form.read_complete spells short
  obtain ⟨line, drafted, same⟩ := stated offset
  exact ⟨line, ofText_eq (.accepted read drafted) terminated, same⟩

theorem accepted_of_spells {t : Text} {s : Statement} (spells : Spells t s)
    (short : ∀ i w n, t.Literal i w n → Element.digitCount w ≤ maxDigits) (offset : Nat)
    (terminated : Bool) :
    ∃ line, ofText t offset terminated = .accepted line ∧ line.statement? = some s :=
  accepted_of_spells_value spells (fun _ => short) offset terminated

theorem ne_refused {t : Text}
    (short : ∀ i w n, t.Literal i w n → Element.digitCount w ≤ maxDigits) (offset : Nat)
    (terminated : Bool) (why : Refusal) : ofText t offset terminated ≠ .refused why := by
  intro refused
  obtain ⟨f, digits, failed, -⟩ := failed_of_refused refused
  cases Form.fails_of_error failed with
  | oversized literal long => exact absurd (short _ _ _ literal) (Nat.not_le_of_lt long)

/-- A line is accepted exactly if it spells a statement, and says that statement then; any other
line is rejected. Only a numeral of more digits than are looked at could keep a line from being
decided. -/
theorem accepts_exactly {t : Text} (oneLine : '\n' ∉ t)
    (short : ∀ i w n, t.Literal i w n → Element.digitCount w ≤ maxDigits) (offset : Nat)
    (terminated : Bool) :
    (∀ s, Spells t s ↔
      ∃ line, ofText t offset terminated = .accepted line ∧ line.statement? = some s) ∧
    ((∃ line, ofText t offset terminated = .accepted line) ↔ ∃ s, Spells t s) ∧
    ((∃ e, ofText t offset terminated = .rejected e) ↔ ¬ ∃ s, Spells t s) := by
  refine ⟨?_, ?_, ?_⟩
  · intro s
    constructor
    · intro spells
      exact accepted_of_spells spells short offset terminated
    · rintro ⟨line, accepted, stated⟩
      obtain ⟨s', spells, stated'⟩ := spells_of_accepted oneLine accepted
      rwa [Option.some.inj (stated.symm.trans stated')]
  · constructor
    · rintro ⟨line, accepted⟩
      obtain ⟨s, spells, -⟩ := spells_of_accepted oneLine accepted
      exact ⟨s, spells⟩
    · rintro ⟨s, spells⟩
      obtain ⟨line, accepted, -⟩ := accepted_of_spells spells short offset terminated
      exact ⟨line, accepted⟩
  · constructor
    · rintro ⟨e, rejected⟩ ⟨s, spells⟩
      obtain ⟨line, accepted, -⟩ := accepted_of_spells spells short offset terminated
      rw [accepted] at rejected
      cases rejected
    · intro unspelled
      cases verdict : ofText t offset terminated with
      | rejected e => exact ⟨e, rfl⟩
      | refused why => exact absurd verdict (ne_refused short offset terminated why)
      | accepted line =>
        obtain ⟨s, spells, -⟩ := spells_of_accepted oneLine verdict
        exact absurd ⟨s, spells⟩ unspelled

/-- A carriage return may follow a tab in front of a number, but does not stand for it. -/
theorem accepts_exactly_of_set :
    Spells " set\t\r-12 " (.instr .set none (some (.number (-12))) none) ∧
      ¬ ∃ s, Spells "set\r-12" s := by
  have short (t : Text) (bound : t.length ≤ maxDigits) :
      ∀ i w n, t.Literal i w n → Element.digitCount w ≤ maxDigits :=
    fun _ _ _ literal => Nat.le_trans literal.digitCount_le bound
  have tabbed := accepts_exactly (t := " set\t\r-12 ") (by decide) (short _ (by decide)) 0 true
  have bare := accepts_exactly (t := "set\r-12") (by decide) (short _ (by decide)) 0 true
  exact ⟨(tabbed.1 _).mpr ⟨_, rfl, rfl⟩, bare.2.2.mp ⟨_, rfl⟩⟩

end Verdict

end TapeMachine
