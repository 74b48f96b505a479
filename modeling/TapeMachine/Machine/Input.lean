import TapeMachine.Text.Newline
import TapeMachine.Text.Utf8

namespace TapeMachine

inductive Stream
  | text (unread : Text)
  /-- Reading fails after the last whole line. -/
  | cut (unread : Text)
  | broken
  | interrupted
  deriving Repr, DecidableEq

inductive NoLine | ended | broken | interrupted
  deriving Repr, DecidableEq

inductive NoByte
  | line (why : NoLine)
  | outside
  deriving Repr, DecidableEq

namespace Stream

def cutLine : Text → Text × Text
  | [] => ([], [])
  | c :: rest =>
    if c = '\n' then ([c], rest) else (c :: (cutLine rest).1, (cutLine rest).2)

theorem cutLine_append (t : Text) : (cutLine t).1 ++ (cutLine t).2 = t := by
  induction t with
  | nil => rfl
  | cons c rest ih => by_cases h : c = '\n' <;> simp [cutLine, h, ih]

theorem cutLine_ne_nil {t : Text} (h : t ≠ []) : (cutLine t).1 ≠ [] := by
  cases t with
  | nil => exact absurd rfl h
  | cons c rest => by_cases h : c = '\n' <;> simp [cutLine, h]

def takeLine : Stream → Except NoLine (Text × Stream)
  | text [] => .error .ended
  | text unread => .ok ((cutLine unread).1, text (cutLine unread).2)
  | cut unread =>
    if '\n' ∈ unread then .ok ((cutLine unread).1, cut (cutLine unread).2) else .error .broken
  | broken => .error .broken
  | interrupted => .error .interrupted

def feed (more : Text) : Stream → Stream
  | text unread => text (unread ++ more)
  | s => s

/-- The stream of some stored bytes. An ill-formed part fails the first read, but one that is
merely cut off at the end fails only the read that needs it. -/
def ofBytes (bytes : List UInt8) : Stream :=
  match Utf8.decode bytes with
  | .ok t => text (Newline.normalize t)
  | .error (bad, before) =>
    if bad.cutOff bytes then cut (Newline.normalize (Newline.settled before)) else broken

end Stream

structure Input where
  buffer : Array UInt8 := #[]
  offset : Nat := 0
  stream : Stream := .text []
  deriving Repr, DecidableEq

namespace Input

def exhausted (i : Input) : Bool := i.offset == i.buffer.size

def nextLine (i : Input) : Except NoLine Input :=
  match i.stream.takeLine with
  | .ok (line, rest) => .ok ⟨(Utf8.encode line).toArray, 0, rest⟩
  | .error why => .error why

def take (i : Input) : Except NoByte (UInt8 × Input) :=
  match i.buffer[i.offset]? with
  | some byte => .ok (byte, { i with offset := i.offset + 1 })
  | none => .error .outside

/-- The next byte. A line other than the first is announced by a newline, and the byte that
announces it is not the line's own. -/
def next (i : Input) : Except NoByte (UInt8 × Input) :=
  if i.exhausted then
    match i.nextLine with
    | .error why => .error (.line why)
    | .ok filled => if i.offset = 0 then filled.take else .ok (10, filled)
  else i.take

end Input

end TapeMachine
