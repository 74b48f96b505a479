import TapeMachine.Proofs.Accounting
import TapeMachine.Proofs.Sessions

namespace TapeMachine

namespace Run

variable {p : Program}

theorem Goes.delivered {r r' : Run} {done done' : List Completion} (goes : Goes p r done r' done')
    (inside : r.machine.input.offset ≤ r.machine.input.buffer.size) :
    r'.machine.input.offset ≤ r'.machine.input.buffer.size := by
  cases goes with
  | stopped why => exact inside
  | @completed i e ip _ fetched acts =>
    have store : e.store.input.offset ≤ e.store.input.buffer.size := by
      rcases Store.act_input acts with ⟨-, byte, taken⟩ | ⟨-, untouched⟩
      · exact (Input.next_ok inside taken).1
      · rw [untouched]
        exact inside
    exact store

end Run

namespace Command

variable {path source : Text} {flags : List Flag} {arguments : List Text} {look : Text → Entry}
  {l : Listing} {ls : List Line}

section
variable (selects : Arguments.Selects path flags arguments) (finds : Finds look path source)
  (read : Listing.ofSource source = .ok l)
include selects finds read

end

end Command

open Command

end TapeMachine
