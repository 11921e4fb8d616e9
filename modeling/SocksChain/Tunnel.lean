import SocksChain.Channel.Dialogue
import SocksChain.Relay.Duplex
import SocksChain.Tally

/-!
A tunnel between a client and what was reached for it. What the client sent along with its request
goes first; then a relay runs both ways, and the totals count those early bytes too.
-/

namespace SocksChain

open Channel

structure Tunnel where
  /-- What is left of sending the early bytes. -/
  early : Dialogue (Except Failure Unit)
  earlyLength : Nat
  forth : Relay.Flow := {}
  back : Relay.Flow := {}

namespace Tunnel

def ofEarly (pending : Bytes) : Tunnel :=
  ⟨if pending.isEmpty then .done (.ok ()) else Exchange.send pending, pending.length, {}, {}⟩

/-- Goes on as far as the channels let it. -/
def run (t : Tunnel) (client remote : Link) : Tunnel × Link × Link :=
  match t.early.run remote with
  | (.done (.ok ()), remote) =>
    let d := ({ forth := t.forth, back := t.back, a := client, b := remote } : Relay.Duplex).run
    ({ t with early := .done (.ok ()), forth := d.forth, back := d.back }, d.a, d.b)
  | (early, remote) => ({ t with early := early }, client, remote)

def result? (t : Tunnel) : Option (Except Failure Relay.Totals) :=
  match t.early with
  | .done (.error f) => some (.error f)
  | .done (.ok ()) =>
    ({ forth := t.forth, back := t.back, a := {}, b := {} } : Relay.Duplex).result?.map fun
      | .ok totals => .ok { totals with forth := totals.forth + t.earlyLength }
      | .error e => .error (.io e)
  | _ => none

end Tunnel

/-- Counts the end of a tunnel, and what it carried if it came to a good end. -/
def Tally.ended (t : Tally) : Except Failure Relay.Totals → Tally
  | .ok totals => (t.carried totals.back totals.forth).closed
  | .error f => t.closed.failed f

end SocksChain
