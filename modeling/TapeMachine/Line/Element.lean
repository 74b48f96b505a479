import TapeMachine.Line.Draft
import TapeMachine.Text.CharClass
import TapeMachine.Word

namespace TapeMachine

inductive Element
  | keyword (op : Opcode)
  | separator
  | register
  | value
  | reference
  | definition
  | colon
  | lineEnd
  deriving Repr, DecidableEq

/-- How reading a line fails. A numeral that does not fit into a word, or that is too long
to be looked at, ends the reading of the line in every form. -/
inductive Failure
  | mismatch (offset : Nat) (wanted : Element)
  | overflow (offset : Nat) (literal : Text)
  | oversized (digits : Nat)
  deriving Repr, DecidableEq

structure Reading where
  notes : List Note
  offset : Nat
  rest : Text
  deriving Repr, DecidableEq

namespace Element

/-- What reports call an element. A keyword fails after its last letter only if a character
that continues a word stands there instead of a blank. -/
def name : Element → Text
  | keyword _ | separator => "horizontal whitespace"
  | register => "register"
  | value => "number or x"
  | reference | definition => "label"
  | colon => "':'"
  | lineEnd => "trailing newline"

def skips : Element → Char → Bool
  | separator => CharClass.separatorPadding
  | colon => fun _ => false
  | _ => CharClass.padding

def afterWord? (w t : Text) : Option Text :=
  if w.isPrefixOf t then
    let rest := t.drop w.length
    if rest.head?.any CharClass.word then none else some rest
  else none

def identifier (t : Text) : Text :=
  if t.head?.any CharClass.wordStart then t.takeWhile CharClass.word else []

def numeral? (t : Text) : Option Text :=
  let sign : Text := if t.head? = some '-' then ['-'] else []
  let digits := (t.drop sign.length).takeWhile Char.isDigit
  if digits.isEmpty || ((t.drop sign.length).drop digits.length).head?.any CharClass.word then none
  else some (sign ++ digits)

def digitCount (literal : Text) : Nat := literal.countP Char.isDigit

def number (offset : Nat) (literal : Text) : Except Failure Int :=
  if digitCount literal > maxDigits then .error (.oversized (digitCount literal))
  else
    let n := Decimal.toInt literal
    if Word.InRange n then .ok n else .error (.overflow offset literal)

def token (e : Element) (offset : Nat) (t : Text) : Except Failure Reading :=
  match e with
  | keyword op =>
    let after := t.drop op.keyword.length
    if !op.keyword.isPrefixOf t then .error (.mismatch offset e)
    else if after.head?.any CharClass.keywordTail then
      .error (.mismatch (offset + op.keyword.length) e)
    else .ok ⟨[.opcode op], offset + op.keyword.length, after⟩
  | separator =>
    let gap := t.takeWhile CharClass.gap
    if gap.isEmpty then .error (.mismatch offset e)
    else .ok ⟨[], offset + gap.length, t.drop gap.length⟩
  | register =>
    match afterWord? Register.x.keyword t, afterWord? Register.acc.keyword t with
    | some rest, _ => .ok ⟨[.register .x], offset + 1, rest⟩
    | none, some rest => .ok ⟨[.register .acc], offset + 3, rest⟩
    | none, none => .error (.mismatch offset e)
  | value =>
    match afterWord? Register.x.keyword t, numeral? t with
    | some rest, _ => .ok ⟨[.value (.register .x)], offset + 1, rest⟩
    | none, some literal => do
      let n ← number offset literal
      return ⟨[.value (.number n)], offset + literal.length, t.drop literal.length⟩
    | none, none => .error (.mismatch offset e)
  | reference =>
    let name := identifier t
    if name.isEmpty then .error (.mismatch offset e)
    else .ok ⟨[.reference name offset], offset + name.length, t.drop name.length⟩
  | definition =>
    let name := identifier t
    if name.isEmpty then .error (.mismatch offset e)
    else .ok ⟨[.definition name offset], offset + name.length, t.drop name.length⟩
  | colon =>
    match t with
    | ':' :: rest => .ok ⟨[], offset + 1, rest⟩
    | _ => .error (.mismatch offset e)
  | lineEnd => if t.isEmpty then .ok ⟨[], offset, []⟩ else .error (.mismatch offset e)

def read (e : Element) (offset : Nat) (t : Text) : Except Failure Reading :=
  e.token (offset + (t.takeWhile e.skips).length) (t.dropWhile e.skips)

def readAll : List Element → Nat → Text → Except Failure (List Note)
  | [], _, _ => .ok []
  | e :: es, offset, t => do
    let first ← e.read offset t
    let others ← readAll es first.offset first.rest
    return first.notes ++ others

end Element

end TapeMachine
