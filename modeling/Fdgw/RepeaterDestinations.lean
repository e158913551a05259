import Fdgw.RepeaterInvariant

/-! The destination of every accepted connection, over all runs. The shared
listener record is safe for a successful lookup because the timer is off
between the lookup and the copy; it is unsafe for a failed one because nothing
restores it. -/
namespace Fdgw.Repeater
open Runs

/-! ## Successful lookups -/

/-- The history before the lookup made for `pair`. -/
def earlier (pair : Nat) : List Obs → List Obs
  | [] => []
  | .lookup _ other _ :: older => if other = pair then older else earlier pair older
  | _ :: older => earlier pair older

/-- A configured destination after the shared record was overwritten. -/
def overwritten (configured : SockaddrIn) : Option (BitVec 32 × BitVec 16) → SockaddrIn
  | none => configured
  | some (ip, port) => { configured with sinAddr := ip, sinPort := port }

/-- The steps that leave the listener records and the history alone. -/
def Event.quiet : Event → Bool
  | .lookup _ | .request .. | .connect _ | .doproxy .. => false
  | _ => true

end Fdgw.Repeater
