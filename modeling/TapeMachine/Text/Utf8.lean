import TapeMachine.Text.Basic

/-! UTF-8. A lead byte fixes how many bytes follow and, for the first of them, a range that
shuts out overlong forms, surrogates and what lies past the last code point. Decoding stops
at the first byte that does not fit; the bytes of the sequence before it are the ill-formed
part, or that byte alone where it cannot lead. -/
namespace TapeMachine.Utf8

inductive Reason
  | notALead
  | notAContinuation
  | endOfData
  deriving Repr, DecidableEq

structure Malformed where
  start : Nat
  size : Nat
  lead : UInt8
  reason : Reason
  deriving Repr, DecidableEq

/-- The bytes end before a sequence that is still to be completed. The first two bytes of a
surrogate count as such a sequence too. -/
def Malformed.cutOff (bad : Malformed) (bytes : List UInt8) : Bool :=
  bad.reason = .endOfData ||
    match bytes.drop bad.start with
    | [lead, second] => lead = 0xed && 0xa0 ≤ second && second ≤ 0xbf
    | _ => false

/-- Payload bits read so far, and the ranges of the bytes still due. -/
structure Sequence where
  payload : Nat
  due : List (Nat × Nat)

def tail : Nat × Nat := (0x80, 0xbf)

def open? (lead : UInt8) : Option Sequence :=
  let b := lead.toNat
  if b < 0x80 then some ⟨b, []⟩
  else if b < 0xc2 then none
  else if b < 0xe0 then some ⟨b % 0x20, [tail]⟩
  else if b = 0xe0 then some ⟨0, [(0xa0, 0xbf), tail]⟩
  else if b = 0xed then some ⟨0x0d, [(0x80, 0x9f), tail]⟩
  else if b < 0xf0 then some ⟨b % 0x10, [tail, tail]⟩
  else if b = 0xf0 then some ⟨0, [(0x90, 0xbf), tail, tail]⟩
  else if b < 0xf4 then some ⟨b % 0x08, [tail, tail, tail]⟩
  else if b = 0xf4 then some ⟨0x04, [(0x80, 0x8f), tail, tail]⟩
  else none

structure Pending where
  start : Nat
  lead : UInt8
  sequence : Sequence

structure State where
  position : Nat := 0
  read : Text := []
  pending : Option Pending := none

def State.accept (s : State) (p : Pending) : State :=
  match p.sequence.due with
  | [] => ⟨s.position + 1, Char.ofNat p.sequence.payload :: s.read, none⟩
  | _ => ⟨s.position + 1, s.read, some p⟩

def State.next (s : State) (byte : UInt8) : Except Malformed State :=
  match s.pending with
  | none =>
    match open? byte with
    | some opened => .ok (s.accept ⟨s.position, byte, opened⟩)
    | none => .error ⟨s.position, 1, byte, .notALead⟩
  | some p =>
    match p.sequence.due with
    | (low, high) :: due =>
      if low ≤ byte.toNat ∧ byte.toNat ≤ high then
        let payload := p.sequence.payload * 0x40 + byte.toNat % 0x40
        .ok (s.accept { p with sequence := ⟨payload, due⟩ })
      else .error ⟨p.start, s.position - p.start, p.lead, .notAContinuation⟩
    | [] => .error ⟨p.start, s.position - p.start, p.lead, .notAContinuation⟩

def State.feed (s : State) : List UInt8 → Except (Malformed × Text) State
  | [] => .ok s
  | byte :: rest =>
    match s.next byte with
    | .ok s => s.feed rest
    | .error bad => .error (bad, s.read.reverse)

def decode (bytes : List UInt8) : Except (Malformed × Text) Text :=
  match State.feed {} bytes with
  | .error bad => .error bad
  | .ok s =>
    match s.pending with
    | none => .ok s.read.reverse
    | some p => .error (⟨p.start, s.position - p.start, p.lead, .endOfData⟩, s.read.reverse)

def encode (t : Text) : List UInt8 := t.flatMap String.utf8EncodeChar

end TapeMachine.Utf8
