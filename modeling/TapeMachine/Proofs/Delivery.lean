import TapeMachine.Proofs.Invariant

/-! What is delivered of a text that is read line by line. Of the lines that have been taken
only the last can have bytes left, and those are in the buffer; so a line is taken only when
everything in front of it has been delivered, and in the end every byte has been, once. -/
namespace TapeMachine

namespace Stream

def lines : Text → List Text
  | [] => []
  | c :: rest =>
    if c = '\n' then [c] :: lines rest
    else
      match lines rest with
      | [] => [[c]]
      | line :: more => (c :: line) :: more

end Stream

namespace Input

def announced (ls : List Text) : List UInt8 := ls.flatMap fun line => 10 :: Utf8.encode line

/-- What lines are delivered as: all but the first are announced. -/
def delivery : List Text → List UInt8
  | [] => []
  | first :: others => Utf8.encode first ++ announced others

theorem delivery_append {taken : List Text} (more : List Text) (h : taken ≠ []) :
    delivery (taken ++ more) = delivery taken ++ announced more := by
  cases taken with
  | nil => exact absurd rfl h
  | cons first others => simp [delivery, announced]

theorem delivery_front (taken more : List Text) : delivery taken <+: delivery (taken ++ more) := by
  by_cases none : taken = []
  · subst none
    exact List.nil_prefix
  · rw [delivery_append more none]
    exact List.prefix_append _ _

/-- An input that has delivered some bytes of `whole`. It has taken some lines, of which nothing
but the end of the buffer is left to deliver, and has the other lines still to take. -/
structure Progress (whole : Text) (delivered : List UInt8) (taken left : List Text)
    (i : Input) : Prop where
  lines : Stream.lines whole = taken ++ left
  stream : ∃ t, i.stream = .text t ∧ Stream.lines t = left
  offset : i.offset ≤ i.buffer.size
  bytes : delivered ++ i.buffer.toList.drop i.offset = delivery taken
  first : i.buffer = #[] ↔ taken = []

variable {whole : Text} {delivered : List UInt8} {taken left : List Text} {i : Input}

theorem Progress.start (whole : Text) :
    Progress whole [] [] (Stream.lines whole) { stream := .text whole } where
  lines := rfl
  stream := ⟨whole, rfl, rfl⟩
  offset := Nat.le_refl 0
  bytes := rfl
  first := ⟨fun _ => rfl, fun _ => rfl⟩

theorem Progress.front (progress : i.Progress whole delivered taken left) :
    delivered <+: delivery (Stream.lines whole) := by
  rw [progress.lines]
  refine List.IsPrefix.trans ?_ (delivery_front taken left)
  rw [← progress.bytes]
  exact List.prefix_append _ _

theorem Progress.all (progress : i.Progress whole delivered taken left)
    (exhausted : i.offset = i.buffer.size) : delivered = delivery taken := by
  have passed : i.buffer.toList.length = i.offset := by rw [exhausted, Array.length_toList]
  have nothing : i.buffer.toList.drop i.offset = [] :=
    List.drop_eq_nil_iff.mpr (Nat.le_of_eq passed)
  rw [← progress.bytes, nothing, List.append_nil]

theorem Progress.take (progress : i.Progress whole delivered taken left)
    (inside : i.offset < i.buffer.size) :
    Progress whole (delivered ++ [i.buffer[i.offset]]) taken left
      { i with offset := i.offset + 1 } where
  lines := progress.lines
  stream := progress.stream
  offset := inside
  bytes := by
    have bound : i.offset < i.buffer.toList.length := by rwa [Array.length_toList]
    have rest : i.buffer.toList.drop i.offset =
        i.buffer[i.offset] :: i.buffer.toList.drop (i.offset + 1) := by
      rw [List.drop_eq_getElem_cons bound, Array.getElem_toList]
    rw [← progress.bytes, rest, List.append_assoc, List.singleton_append]
  first := progress.first

def filled (line rest : Text) : Input := ⟨(Utf8.encode line).toArray, 0, .text rest⟩

theorem nextLine_filled {t : Text} (stream : i.stream = .text t) (h : t ≠ []) :
    i.nextLine = .ok (filled (Stream.cutLine t).1 (Stream.cutLine t).2) := by
  unfold nextLine
  rw [stream]
  cases t with
  | nil => exact absurd rfl h
  | cons c rest => rfl

end Input

def Completion.Writes (p : Program) (c : Completion) (byte : UInt8) : Prop :=
  (c.machine.step p).machine.cursor = c.machine.cursor ∧
    (c.machine.step p).machine.tape = c.machine.tape.put c.machine.cursor byte.toNat

namespace Machine

structure Reads (p : Program) (m : Machine) (i : Instr) (byte : UInt8) : Prop where
  fetched : p.fetch m.ip = some i
  op : i.op = .inp
  completes : (m.step p).stop = none
  next : m.input.next = .ok (byte, (m.step p).machine.input)
  writes : Completion.Writes p ⟨m, i⟩ byte

theorem Reads.completion? {p : Program} {m : Machine} {i : Instr} {byte : UInt8}
    (reads : m.Reads p i byte) : m.completion? p = some ⟨m, i⟩ := by
  simp [Machine.completion?, reads.completes, reads.fetched]

end Machine

namespace Run

def reads (p : Program) (input : Text) (n : Nat) : List Completion :=
  (history p input n).filter (·.instr.op = .inp)

end Run

end TapeMachine
