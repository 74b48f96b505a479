import Mathlib.Data.List.Forall2
import TapeMachine.Assembly

namespace TapeMachine

namespace Opcode

def takesRegister : Opcode → Bool
  | get | put | jnz | jlz => true
  | _ => false

def takesValue : Opcode → Bool
  | set | add | mul | div => true
  | _ => false

end Opcode

def Value.Fits : Value → Prop
  | number n => Word.InRange n
  | register r => r = .x

structure Instr.WellFormed (i : Instr) : Prop where
  reg : i.reg.isSome = i.op.takesRegister
  value : i.value.isSome = i.op.takesValue
  label : i.label.isSome = i.op.takesLabel
  fits : ∀ v ∈ i.value, v.Fits

def Line.WellFormed : Line → Prop
  | instr i => i.WellFormed ∧ i.target = none
  | _ => True

namespace Element

def Notes : Element → List Note → Prop
  | keyword op, ns => ns = [.opcode op]
  | register, ns => ∃ r, ns = [.register r]
  | value, ns => ∃ v, v.Fits ∧ ns = [.value v]
  | reference, ns => ∃ name i, ns = [.reference name i]
  | definition, ns => ∃ name i, ns = [.definition name i]
  | separator, ns | colon, ns | lineEnd, ns => ns = []

theorem number_inRange {offset : Nat} {literal : Text} {n : Int}
    (fits : number offset literal = .ok n) : Word.InRange n := by
  unfold number at fits
  dsimp only at fits
  split at fits
  · cases fits
  · split at fits
    · rename_i inRange
      cases fits
      exact inRange
    · cases fits

theorem token_notes {e : Element} {offset : Nat} {t : Text} {r : Reading}
    (read : e.token offset t = .ok r) : e.Notes r.notes := by
  cases e with
  | keyword op =>
    simp only [token] at read
    split at read
    · cases read
    · split at read
      · cases read
      · cases read
        rfl
  | value =>
    simp only [token] at read
    split at read
    · cases read
      exact ⟨.register .x, rfl, rfl⟩
    · rename_i literal _ _
      cases fits : number offset literal with
      | error why =>
        rw [fits] at read
        cases read
      | ok n =>
        rw [fits] at read
        cases read
        exact ⟨.number n, number_inRange fits, rfl⟩
    · cases read
  | register =>
    simp only [token] at read
    split at read
    · cases read
      exact ⟨_, rfl⟩
    · cases read
      exact ⟨_, rfl⟩
    · cases read
  | reference | definition =>
    simp only [token] at read
    split at read
    · cases read
    · cases read
      exact ⟨_, _, rfl⟩
  | separator | colon | lineEnd =>
    simp only [token] at read
    split at read <;> cases read
    rfl

theorem readAll_notes {es : List Element} {offset : Nat} {t : Text} {ns : List Note}
    (read : readAll es offset t = .ok ns) :
    ∃ parts, List.Forall₂ Notes es parts ∧ parts.flatten = ns := by
  induction es generalizing offset t ns with
  | nil =>
    cases read
    exact ⟨[], .nil, rfl⟩
  | cons e es ih =>
    simp only [readAll, bind, Except.bind, pure, Except.pure] at read
    cases head : e.read offset t with
    | error why =>
      rw [head] at read
      cases read
    | ok first =>
      rw [head] at read
      dsimp only at read
      cases tail : readAll es first.offset first.rest with
      | error why =>
        rw [tail] at read
        cases read
      | ok others =>
        rw [tail] at read
        cases read
        obtain ⟨parts, noted, flat⟩ := ih tail
        exact ⟨first.notes :: parts, .cons (token_notes head) noted, by simp [flat]⟩

end Element

def Form.Makes : Form → Line → Prop
  | instr op, line => ∃ i : Instr, line = .instr i ∧ i.op = op ∧ i.WellFormed ∧ i.target = none
  | label, line => ∃ token, line = .label token

theorem Form.makes_line {f : Form} {t : Text} {ns : List Note} (read : f.read t = .ok ns)
    (offset : Nat) : ∃ line, ((Draft.blank offset).notes ns).line = .ok line ∧ f.Makes line := by
  obtain ⟨parts, noted, rfl⟩ := Element.readAll_notes read
  cases f with
  | label =>
    simp only [elements, List.forall₂_cons_left_iff, List.forall₂_nil_left_iff,
      Element.Notes] at noted
    obtain ⟨_, _, ⟨name, i, rfl⟩, ⟨_, _, rfl, ⟨_, _, rfl, rfl, rfl⟩, rfl⟩, rfl⟩ := noted
    exact ⟨_, rfl, _, rfl⟩
  | instr op =>
    cases op with
    | gol | gor | sav | ret | inp | out | dec =>
      simp only [elements, operands, List.nil_append, List.cons_append,
        List.forall₂_cons_left_iff, List.forall₂_nil_left_iff, Element.Notes] at noted
      obtain ⟨_, _, rfl, ⟨_, _, rfl, rfl, rfl⟩, rfl⟩ := noted
      exact ⟨_, rfl, _, rfl, rfl, ⟨rfl, rfl, rfl, nofun⟩, rfl⟩
    | get | put =>
      simp only [elements, operands, List.nil_append, List.cons_append,
        List.forall₂_cons_left_iff, List.forall₂_nil_left_iff, Element.Notes] at noted
      obtain ⟨_, _, rfl, ⟨_, _, rfl, ⟨_, _, ⟨r, rfl⟩, ⟨_, _, rfl, rfl, rfl⟩, rfl⟩, rfl⟩, rfl⟩ :=
        noted
      exact ⟨_, rfl, _, rfl, rfl, ⟨rfl, rfl, rfl, nofun⟩, rfl⟩
    | jmp =>
      simp only [elements, operands, List.nil_append, List.cons_append,
        List.forall₂_cons_left_iff, List.forall₂_nil_left_iff, Element.Notes] at noted
      obtain ⟨_, _, rfl, ⟨_, _, rfl, ⟨_, _, ⟨name, i, rfl⟩, ⟨_, _, rfl, rfl, rfl⟩, rfl⟩, rfl⟩,
        rfl⟩ := noted
      exact ⟨_, rfl, _, rfl, rfl, ⟨rfl, rfl, rfl, nofun⟩, rfl⟩
    | jnz | jlz =>
      simp only [elements, operands, List.nil_append, List.cons_append,
        List.forall₂_cons_left_iff, List.forall₂_nil_left_iff, Element.Notes] at noted
      obtain ⟨_, _, rfl, ⟨_, _, rfl, ⟨_, _, ⟨r, rfl⟩, ⟨_, _, rfl, ⟨_, _, ⟨name, i, rfl⟩,
        ⟨_, _, rfl, rfl, rfl⟩, rfl⟩, rfl⟩, rfl⟩, rfl⟩, rfl⟩ := noted
      exact ⟨_, rfl, _, rfl, rfl, ⟨rfl, rfl, rfl, nofun⟩, rfl⟩
    | set | add | mul | div =>
      simp only [elements, operands, List.nil_append, List.cons_append,
        List.forall₂_cons_left_iff, List.forall₂_nil_left_iff, Element.Notes] at noted
      obtain ⟨_, _, rfl, ⟨_, _, rfl, ⟨_, _, ⟨v, fits, rfl⟩, ⟨_, _, rfl, rfl, rfl⟩, rfl⟩, rfl⟩,
        rfl⟩ := noted
      refine ⟨_, rfl, _, rfl, rfl, ⟨rfl, rfl, rfl, ?_⟩, rfl⟩
      intro w member
      cases member
      exact fits

theorem Verdict.wellFormed_of_accepted {t : Text} {offset : Nat} {terminated : Bool} {line : Line}
    (accepted : ofText t offset terminated = .accepted line) : line.WellFormed := by
  unfold ofText byForms at accepted
  cases decided : Form.all.findSome? (ofForm? t offset) with
  | none =>
    rw [decided] at accepted
    cases accepted
  | some verdict =>
    rw [decided] at accepted
    cases accepted
    obtain ⟨f, -, byForm⟩ := List.exists_of_findSome?_eq_some decided
    unfold ofForm? at byForm
    cases read : f.read t with
    | error failure =>
      rw [read] at byForm
      cases failure <;> cases byForm
    | ok ns =>
      obtain ⟨made, drafted, makes⟩ := Form.makes_line read offset
      rw [read] at byForm
      simp only [drafted] at byForm
      cases byForm
      cases f with
      | label =>
        obtain ⟨token, rfl⟩ := makes
        trivial
      | instr op =>
        obtain ⟨i, rfl, -, wellFormed, unlinked⟩ := makes
        exact ⟨wellFormed, unlinked⟩

namespace Listing

theorem wellFormed_of_map {rest : Except Refusal Listing} {add : Listing → Listing} {line : Line}
    {listing : Listing} {ls : List Line} (adds : ∀ l, (add l).lines = l.lines.map (line :: ·))
    (first : line.WellFormed)
    (others : ∀ l ls, rest = .ok l → l.lines = some ls → ∀ line ∈ ls, line.WellFormed)
    (read : rest.map add = .ok listing) (lines : listing.lines = some ls) :
    ∀ line ∈ ls, line.WellFormed := by
  cases rest with
  | error why => cases read
  | ok l =>
    cases read
    rw [adds] at lines
    obtain ⟨later, found, rfl⟩ := Option.map_eq_some_iff.mp lines
    intro line member
    rcases List.mem_cons.mp member with rfl | member
    · exact first
    · exact others l later rfl found line member

theorem wellFormed_of_pieces {ps : List Piece} {listing : Listing} {ls : List Line}
    (read : ofPieces ps = .ok listing) (lines : listing.lines = some ls) :
    ∀ line ∈ ls, line.WellFormed := by
  induction ps generalizing listing ls with
  | nil =>
    cases read
    cases lines
    exact fun _ member => absurd member List.not_mem_nil
  | cons p ps ih =>
    have others : ∀ l ls, ofPieces ps = .ok l → l.lines = some ls → ∀ line ∈ ls, line.WellFormed :=
      fun _ _ => ih
    unfold ofPieces at read
    split at read
    · exact ih read lines
    · split at read
      · split at read
        · rename_i verdict
          exact wellFormed_of_map (fun _ => rfl) (Verdict.wellFormed_of_accepted verdict) others
            read lines
        · have first : Line.malformed.WellFormed := trivial
          exact wellFormed_of_map (fun _ => rfl) first others read lines
        · cases read
      · cases read
        cases lines

theorem wellFormed {source : Text} {listing : Listing} {ls : List Line}
    (read : ofSource source = .ok listing) (lines : listing.lines = some ls) :
    ∀ line ∈ ls, line.WellFormed :=
  wellFormed_of_pieces read lines

end Listing

namespace Assembly

theorem ofSource_eq_ok {source : Text} {a : Assembly} :
    ofSource source = .ok a ↔ ∃ l, Listing.ofSource source = .ok l ∧ ofListing l = a := by
  unfold ofSource
  cases Listing.ofSource source with
  | ok l => simp [Except.map]
  | error why => simp [Except.map]

theorem listing_of_program {source : Text} {a : Assembly} {p : Program}
    (assembled : ofSource source = .ok a) (made : a.program = some p) :
    ∃ l ls, Listing.ofSource source = .ok l ∧ l.lines = some ls ∧ Program.ofLines ls = .ok p := by
  obtain ⟨l, read, rfl⟩ := ofSource_eq_ok.mp assembled
  unfold ofListing at made
  cases lines : l.lines with
  | none =>
    rw [lines] at made
    cases made
  | some ls =>
    simp only [lines] at made
    cases linked : Program.ofLines ls with
    | error es =>
      rw [linked] at made
      cases made
    | ok program =>
      rw [linked] at made
      cases made
      exact ⟨l, ls, read, lines, linked⟩

theorem lines_of_program {source : Text} {assembly : Assembly} {p : Program}
    (assembled : ofSource source = .ok assembly) (made : assembly.program = some p) :
    ∃ ls, Program.ofLines ls = .ok p ∧ ∀ line ∈ ls, line.WellFormed := by
  obtain ⟨listing, ls, read, lines, linked⟩ := listing_of_program assembled made
  exact ⟨ls, linked, Listing.wellFormed read lines⟩

end Assembly

end TapeMachine
