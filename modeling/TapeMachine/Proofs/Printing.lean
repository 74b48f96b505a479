import Mathlib.Data.Nat.Digits.Defs
import TapeMachine.Proofs.Concatenation

namespace TapeMachine

open Text

theorem Numeral.ofInt (n : Int) : Numeral (Decimal.ofInt n) n := by
  cases n with
  | ofNat n =>
    have numeral := Numeral.natural (Decimal.ofNat_ne_nil n) fun _ => Decimal.isDigit_of_mem_ofNat
    rwa [Decimal.toNat_ofNat] at numeral
  | negSucc n =>
    have numeral := Numeral.negative (Decimal.ofNat_ne_nil (n + 1))
      fun _ => Decimal.isDigit_of_mem_ofNat
    rwa [Decimal.toNat_ofNat] at numeral

theorem Decimal.length_ofInt_le {n : Int} (fits : Word.InRange n) : (ofInt n).length ≤ 20 := by
  obtain ⟨low, high⟩ := fits
  simp only [Word.minimum, Word.maximum] at low high
  cases n with
  | ofNat n =>
    have high : (n : Int) ≤ 9223372036854775807 := high
    have bound : n < 10 ^ 19 := by omega
    exact Nat.le_trans (Nat.toDigits_length 10 n 19 (by decide) bound) (by decide)
  | negSucc n =>
    have bound : n + 1 < 10 ^ 19 := by omega
    exact Nat.succ_le_succ (Nat.toDigits_length 10 (n + 1) 19 (by decide) bound)

theorem Text.joinWith_pair (separator a b : Text) :
    joinWith separator [a, b] = a ++ (separator ++ b) := by
  simp [joinWith]

theorem Text.joinWith_triple (separator a b c : Text) :
    joinWith separator [a, b, c] = a ++ (separator ++ (b ++ (separator ++ c))) := by
  simp [joinWith]

theorem Text.not_mem_joinWith {c : Char} {separator : Text} {ts : List Text}
    (apart : c ∉ separator) (free : ∀ t ∈ ts, c ∉ t) : c ∉ joinWith separator ts := by
  induction ts with
  | nil => exact List.not_mem_nil
  | cons t ts ih =>
    have here := free t List.mem_cons_self
    have later := ih fun u member => free u (List.mem_cons_of_mem _ member)
    cases ts with
    | nil => rwa [joinWith, List.intercalate_singleton]
    | cons next ts =>
      rw [joinWith, List.intercalate_cons_cons]
      exact List.not_mem_append (List.not_mem_append here apart) later

namespace Value

theorem operand_render {v : Value} (fits : v.Fits) : Operand v.render v := by
  cases v with
  | number n => exact .number (.ofInt n) fits
  | register r =>
    cases (fits : r = .x)
    exact .x

theorem length_render_le {v : Value} (fits : v.Fits) : v.render.length ≤ 20 := by
  cases v with
  | number n => exact Decimal.length_ofInt_le fits
  | register r =>
    cases (fits : r = .x)
    decide

theorem newline_not_mem_render (v : Value) : '\n' ∉ v.render := by
  cases v with
  | register r => cases r <;> decide
  | number n =>
    have digits (k : Nat) : '\n' ∉ Decimal.ofNat k := by
      intro member
      cases Decimal.isDigit_of_mem_ofNat member
    cases n with
    | ofNat k => exact digits k
    | negSucc k =>
      intro member
      rcases List.mem_cons.mp member with minus | member
      · cases minus
      · exact digits (k + 1) member

end Value

theorem Identifier.newline_not_mem {name : Text} (identifier : Identifier name) : '\n' ∉ name := by
  intro member
  cases identifier.word '\n' member

theorem separator_space : Separator [' '] :=
  ⟨[], [' '], [], rfl, nofun, List.cons_ne_nil _ _, by simp [CharClass.gap], nofun⟩

namespace Instr

theorem newline_not_mem_render {i : Instr} (named : ∀ token ∈ i.label, Identifier token.text) :
    '\n' ∉ i.render := by
  apply not_mem_joinWith (by decide)
  intro part member
  rcases List.mem_cons.mp member with rfl | member
  · cases i.op <;> decide
  · simp only [operands, List.mem_append, Option.mem_toList, Option.map_eq_some_iff] at member
    rcases member with (⟨r, -, rfl⟩ | ⟨v, -, rfl⟩) | ⟨token, label, rfl⟩
    · cases r <;> decide
    · exact v.newline_not_mem_render
    · exact (named token label).newline_not_mem

theorem eq_none_of_absent {α : Type} {operand : Option α} (absent : operand.isSome = false) :
    operand = none :=
  Option.isNone_iff_eq_none.mp (Option.isSome_eq_false_iff.mp absent)

theorem render_of_value {i : Instr} {v : Value} (wellFormed : i.WellFormed)
    (valued : i.value = some v) : i.render = i.op.keyword ++ ([' '] ++ v.render) := by
  obtain ⟨op, reg, value, label, target⟩ := i
  obtain ⟨hasReg, hasValue, hasLabel, -⟩ := wellFormed
  dsimp only at valued hasReg hasValue hasLabel
  subst valued
  cases op with
  | set | add | mul | div =>
    obtain rfl := eq_none_of_absent hasReg
    obtain rfl := eq_none_of_absent hasLabel
    exact joinWith_pair [' '] (Opcode.keyword _) v.render
  | _ => cases hasValue

theorem length_render_le {i : Instr} (wellFormed : i.WellFormed) (valued : i.value.isSome) :
    i.render.length ≤ maxDigits := by
  obtain ⟨v, value⟩ := Option.isSome_iff_exists.mp valued
  have keyword : i.op.keyword.length = 3 := by cases i.op <;> rfl
  have operand := Value.length_render_le (wellFormed.fits v value)
  rw [render_of_value wellFormed value]
  simp only [List.length_append, List.length_singleton, maxDigits]
  omega

theorem body_render {i : Instr} (wellFormed : i.WellFormed)
    (named : ∀ token ∈ i.label, Identifier token.text) :
    Body i.render (.instr i.op i.reg i.value (i.label.map Token.text)) := by
  obtain ⟨op, reg, value, label, target⟩ := i
  obtain ⟨hasReg, hasValue, hasLabel, fits⟩ := wellFormed
  dsimp only at hasReg hasValue hasLabel fits named
  cases op with
  | gol | gor | sav | ret | inp | out | dec =>
    obtain rfl := eq_none_of_absent hasReg
    obtain rfl := eq_none_of_absent hasValue
    obtain rfl := eq_none_of_absent hasLabel
    change Body (joinWith [' '] [Opcode.keyword _]) _
    rw [joinWith, List.intercalate_singleton]
    exact .bare (by simp)
  | get | put =>
    obtain rfl := eq_none_of_absent hasValue
    obtain rfl := eq_none_of_absent hasLabel
    obtain ⟨r, rfl⟩ := Option.isSome_iff_exists.mp hasReg
    change Body (joinWith [' '] [Opcode.keyword _, r.keyword]) _
    rw [joinWith_pair]
    exact .transfer (by simp) separator_space r
  | jmp =>
    obtain rfl := eq_none_of_absent hasReg
    obtain rfl := eq_none_of_absent hasValue
    obtain ⟨token, rfl⟩ := Option.isSome_iff_exists.mp hasLabel
    change Body (joinWith [' '] [Opcode.keyword _, token.text]) _
    rw [joinWith_pair]
    exact .jump separator_space (named token rfl)
  | jnz | jlz =>
    obtain rfl := eq_none_of_absent hasValue
    obtain ⟨r, rfl⟩ := Option.isSome_iff_exists.mp hasReg
    obtain ⟨token, rfl⟩ := Option.isSome_iff_exists.mp hasLabel
    change Body (joinWith [' '] [Opcode.keyword _, r.keyword, token.text]) _
    rw [joinWith_triple]
    exact .branch (by simp) separator_space r separator_space (named token rfl)
  | set | add | mul | div =>
    obtain rfl := eq_none_of_absent hasReg
    obtain rfl := eq_none_of_absent hasLabel
    obtain ⟨v, rfl⟩ := Option.isSome_iff_exists.mp hasValue
    change Body (joinWith [' '] [Opcode.keyword _, v.render]) _
    rw [joinWith_pair]
    exact .arithmetic (by simp) separator_space (Value.operand_render (fits v rfl))

end Instr

/-- Each form begins with a word, so that no line that spells something is blank. -/
theorem Body.not_blank {t : Text} {s : Statement} (body : Body t s) :
    t.all CharClass.space = false := by
  have named {w : Text} (name : Identifier w) (rest : Text) :
      (w ++ rest).all CharClass.space = false := by
    obtain ⟨c, w, rfl, start, -⟩ := name
    have filled := CharClass.not_space_of_word (CharClass.word_of_wordStart start)
    simp [filled]
  have begins (op : Opcode) := named (Form.keyword_identifier op)
  cases body with
  | @bare op =>
    have alone := begins op []
    rwa [List.append_nil] at alone
  | transfer | jump | branch | arithmetic => exact begins _ _
  | label identifier => exact named identifier _

def Line.render : Line → Text
  | instr i => i.render
  | label token => token.text ++ [':']
  | malformed => []

def Statement.render : Statement → Text
  | instr op reg value name =>
    joinWith [' '] (op.keyword :: ((reg.map Register.keyword).toList ++
      (value.map Value.render).toList ++ name.toList))
  | label name => name ++ [':']

namespace Line

def print (ls : List Line) : Text := unlines (ls.map render)

/-- A line that could be read: its instruction has the operands of its opcode, and names are
identifiers. It may have been linked. -/
def Printable : Line → Prop
  | instr i => i.WellFormed ∧ ∀ token ∈ i.label, Identifier token.text
  | label token => Identifier token.text
  | malformed => False

def unlinked : Line → Line
  | instr i => instr { i with target := none }
  | line => line

/-- Both lines say the same, whether or not the first has been linked; the second has not. -/
def Restated (line again : Line) : Prop :=
  ∃ s, line.unlinked.statement? = some s ∧ again.statement? = some s

theorem render_of_statement? {line : Line} {s : Statement} (stated : line.statement? = some s) :
    line.render = s.render := by
  cases line with
  | malformed => cases stated
  | label token =>
    cases stated
    rfl
  | instr i =>
    obtain ⟨op, reg, value, label, target⟩ := i
    cases target with
    | some target => cases stated
    | none =>
      cases stated
      rfl

theorem render_eq {line again : Line} {s : Statement} (stated : line.statement? = some s)
    (stated' : again.statement? = some s) : again.render = line.render := by
  rw [render_of_statement? stated, render_of_statement? stated']

theorem render_unlinked (line : Line) : line.unlinked.render = line.render := by
  cases line <;> rfl

theorem print_restated {ls again : List Line} (same : List.Forall₂ Restated ls again) :
    print again = print ls := by
  induction same with
  | nil => rfl
  | @cons line line' ls again here later ih =>
    obtain ⟨s, stated, stated'⟩ := here
    have text := render_eq stated stated'
    rw [render_unlinked] at text
    simp only [print, List.map_cons, unlines_cons] at ih ⊢
    rw [text, ih]

theorem newline_not_mem_render {line : Line} (printable : line.Printable) :
    '\n' ∉ line.render := by
  cases line with
  | instr i => exact Instr.newline_not_mem_render printable.2
  | label token =>
    exact List.not_mem_append (Identifier.newline_not_mem printable) (by decide)
  | malformed => cases printable

theorem body_render {line : Line} (printable : line.Printable) :
    ∃ s, line.unlinked.statement? = some s ∧ Body line.render s ∧
      (s.value?.isSome → line.render.length ≤ maxDigits) := by
  cases line with
  | instr i =>
    obtain ⟨wellFormed, named⟩ := printable
    exact ⟨_, rfl, Instr.body_render wellFormed named, Instr.length_render_le wellFormed⟩
  | label token => exact ⟨_, rfl, .label printable, nofun⟩
  | malformed => cases printable

theorem accepted_render {line : Line} (printable : line.Printable) (offset : Nat) :
    ∃ again, Verdict.ofText line.render offset true = .accepted again ∧ line.Restated again := by
  obtain ⟨s, stated, body, short⟩ := body_render printable
  have spells : Spells line.render s := ⟨[], line.render, [], by simp, nofun, body, nofun⟩
  -- a printed number has few digits, and a name of any length is no numeral
  obtain ⟨again, accepted, stated'⟩ := Verdict.accepted_of_spells_value spells
    (fun valued => short_of_length_le (short valued)) offset true
  exact ⟨again, accepted, s, stated, stated'⟩

end Line

namespace Listing

theorem reads_render {ls : List Line} (printable : ∀ line ∈ ls, line.Printable) (offset : Nat) :
    ∃ again, Reads (Piece.ofLines offset (ls.map Line.render ++ [[]])) ⟨some again, []⟩ ∧
      List.Forall₂ Line.Restated ls again := by
  induction ls generalizing offset with
  | nil => exact ⟨[], .blank rfl .nil, .nil⟩
  | cons line ls ih =>
    have here := printable line List.mem_cons_self
    obtain ⟨first, accepted, same⟩ := Line.accepted_render here offset
    obtain ⟨others, rest, later⟩ :=
      ih (fun l member => printable l (List.mem_cons_of_mem _ member))
        (offset + line.render.length + 1)
    obtain ⟨s, -, body, -⟩ := Line.body_render here
    have filled : Piece.blank ⟨line.render, offset, true⟩ = false := body.not_blank
    refine ⟨first :: others, ?_, .cons same later⟩
    rw [List.map_cons, List.cons_append, Piece.ofLines_cons (by simp)]
    exact .accepted filled rfl accepted rest

/-- What is read of printed lines is what was printed, without the targets; each label stands in
the printed source at its span, and printing again gives the same source. -/
theorem ofSource_print {ls : List Line} (printable : ∀ line ∈ ls, line.Printable) :
    ∃ again, ofSource (Line.print ls) = .ok ⟨some again, []⟩ ∧
      List.Forall₂ Line.Restated ls again ∧
      List.Forall₂ (fun p line => line.Faithful (Line.print ls) p)
        ((Piece.ofSource (Line.print ls)).filter (!·.blank)) again ∧
      Line.print again = Line.print ls := by
  obtain ⟨again, reads, same⟩ := reads_render printable 0
  have free : ∀ t ∈ ls.map Line.render, '\n' ∉ t := by
    intro t member
    obtain ⟨line, inside, rfl⟩ := List.mem_map.mp member
    exact Line.newline_not_mem_render (printable line inside)
  -- behind the last newline stands an empty text, which is passed over
  have split : Text.lines (Line.print ls) = ls.map Line.render ++ [[]] := by
    have printed := lines_unlines_append free []
    rwa [List.append_nil, lines_nil] at printed
  have reads : Reads (Piece.ofSource (Line.print ls)) ⟨some again, []⟩ := by
    rw [Piece.ofSource, split]
    exact reads
  have faithful := (faithful_of_reads reads rfl).imp fun _ _ given => given.2
  exact ⟨again, ofPieces_of_reads reads, same, faithful, Line.print_restated same⟩

theorem ofSource_print_of_linked :
    let jump : Instr := { op := .jlz, reg := some .acc, label := some ⟨"jmp", ⟨0, 0⟩⟩ }
    let least : Instr := { op := .set, value := some (.number (-9223372036854775808)) }
    let ls : List Line := [.label ⟨"jmp", ⟨0, 0⟩⟩, .instr { jump with target := some 7 },
      .label ⟨"x", ⟨0, 0⟩⟩, .instr least]
    Line.print ls = "jmp:\njlz acc jmp\nx:\nset -9223372036854775808\n".toList ∧
      ofSource (Line.print ls) = .ok ⟨some [.label ⟨"jmp", ⟨0, 4⟩⟩,
        .instr { jump with label := some ⟨"jmp", ⟨13, 16⟩⟩ }, .label ⟨"x", ⟨17, 19⟩⟩,
        .instr least], []⟩ := by
  intro jump least ls
  have named : Identifier "jmp" := Form.keyword_identifier .jmp
  have printable : ∀ line ∈ ls, line.Printable := by
    intro line member
    simp only [ls, List.mem_cons, List.not_mem_nil, or_false] at member
    rcases member with rfl | rfl | rfl | rfl
    · exact named
    · refine ⟨⟨rfl, rfl, rfl, nofun⟩, ?_⟩
      rintro token ⟨⟩
      exact named
    · exact ⟨'x', [], rfl, rfl, nofun⟩
    · refine ⟨⟨rfl, rfl, rfl, ?_⟩, nofun⟩
      rintro v ⟨⟩
      exact ⟨by decide, by decide⟩
  obtain ⟨again, read, -⟩ := ofSource_print printable
  have known : ofSource (Line.print ls) = .ok _ := rfl
  cases known.symm.trans read
  exact ⟨rfl, read⟩

end Listing

end TapeMachine
