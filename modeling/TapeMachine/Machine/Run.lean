import TapeMachine.Machine.Step

namespace TapeMachine

structure Run where
  machine : Machine
  steps : Nat := 0
  written : Array Char := #[]
  stop : Option Stop := none
  deriving Repr, DecidableEq

namespace Run

def next (p : Program) (r : Run) : Run :=
  let outcome := r.machine.step p
  { machine := outcome.machine
    steps := if outcome.stop.isNone then r.steps + 1 else r.steps
    written := r.written ++ outcome.written
    stop := outcome.stop }

def advance (p : Program) : Nat → Run → Run
  | 0, r => r
  | n + 1, r => if r.stop.isSome then r else advance p n (r.next p)

@[simp] theorem advance_zero (p : Program) (r : Run) : r.advance p 0 = r := rfl

def trace (p : Program) : Nat → Machine → List Outcome
  | 0, _ => []
  | n + 1, m =>
    let outcome := m.step p
    if outcome.stop.isSome then [] else outcome :: trace p n outcome.machine

def ofProgram (p : Program) (input : Text) (n : Nat) : Run :=
  advance p n { machine := .start input }

end Run

end TapeMachine
