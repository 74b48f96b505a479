import TapeMachine.Text.Basic

/-! Terminal styling. A control sequence is an escape character and a bracket, then
parameters, then intermediate characters, then one final character; a text is made plain by
leaving out every such sequence. -/
namespace TapeMachine.Ansi

inductive Color | red | green | yellow | blue | cyan
  deriving Repr, DecidableEq, BEq

def Color.code : Color → Text
  | .red => ['3', '1']
  | .green => ['3', '2']
  | .yellow => ['3', '3']
  | .blue => ['3', '4']
  | .cyan => ['3', '6']

def Color.name : Color → Text
  | .red => "red"
  | .green => "green"
  | .yellow => "yellow"
  | .blue => "blue"
  | .cyan => "cyan"

def Color.all : List Color := [.red, .green, .yellow, .blue, .cyan]

def graphic (parameter : Text) : Text := '\x1b' :: '[' :: (parameter ++ ['m'])

def colored (color : Color) (t : Text) : Text := graphic color.code ++ t ++ graphic ['0']

def boldColored (color : Color) (t : Text) : Text :=
  graphic color.code ++ graphic ['1'] ++ t ++ graphic ['0']

def parameter (c : Char) : Bool := '0' ≤ c && c ≤ '?'
def intermediate (c : Char) : Bool := ' ' ≤ c && c ≤ '/'
def final (c : Char) : Bool := '@' ≤ c && c ≤ '~'

/-- What follows the control sequence whose escape character and bracket stand before `t`,
if it is a whole one. -/
def afterSequence? (t : Text) : Option { rest : Text // rest.length < t.length } :=
  match h : (t.dropWhile parameter).dropWhile intermediate with
  | [] => none
  | c :: rest =>
    if final c then
      some ⟨rest, by
        have inner := (List.dropWhile_suffix (l := t) parameter).length_le
        have outer := (List.dropWhile_suffix (l := t.dropWhile parameter) intermediate).length_le
        rw [h, List.length_cons] at outer
        omega⟩
    else none

def plain : Text → Text
  | [] => []
  | '\x1b' :: '[' :: rest =>
    match afterSequence? rest with
    | some after => plain after.1
    | none => '\x1b' :: plain ('[' :: rest)
  | c :: rest => c :: plain rest
termination_by t => t.length
decreasing_by
  · have := after.2
    simp only [List.length_cons]
    omega
  all_goals simp

theorem plain_of_not_mem {t : Text} (h : '\x1b' ∉ t) : plain t = t := by
  fun_induction plain t <;> simp_all

end TapeMachine.Ansi
