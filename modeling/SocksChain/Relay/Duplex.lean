import SocksChain.Relay.Flow

/-!
A relay between two channels: a flow each way. A poll lets each flow go as far as it can, and the
flows take turns in going first. The end of one flow leaves the other alone; an error of either
ends both at once.
-/

namespace SocksChain.Relay

open Channel

structure Duplex where
  forth : Flow := {}
  back : Flow := {}
  a : Link
  b : Link
  /-- Whether the flow back goes first at the next poll. -/
  backFirst : Bool := false

/-- What a relay has come to when both flows are done. -/
structure Totals where
  forth : Nat
  back : Nat
  discarded : Nat
deriving DecidableEq

namespace Duplex

def result? (d : Duplex) : Option (Except IoError Totals) :=
  match d.forth.phase, d.back.phase with
  | .failed e, _ => some (.error e)
  | _, .failed e => some (.error e)
  | .done, .done =>
    some (.ok ⟨d.forth.delivered, d.back.delivered, d.forth.discarded + d.back.discarded⟩)
  | _, _ => none

def pollForth (d : Duplex) : Duplex :=
  let (f, i, o) := d.forth.poll d.a.inlet d.b.outlet
  { d with forth := f, a := { d.a with inlet := i }, b := { d.b with outlet := o } }

def pollBack (d : Duplex) : Duplex :=
  let (f, i, o) := d.back.poll d.b.inlet d.a.outlet
  { d with back := f, b := { d.b with inlet := i }, a := { d.a with outlet := o } }

/-- The second flow is left alone when the first one has come to an error. -/
def poll (d : Duplex) : Duplex :=
  let next := { d with backFirst := !d.backFirst }
  if d.backFirst then
    let d := next.pollBack
    if d.result?.isSome then d else d.pollForth
  else
    let d := next.pollForth
    if d.result?.isSome then d else d.pollBack

def toCome (d : Duplex) : Nat :=
  Flow.toCome d.a.inlet d.b.outlet + Flow.toCome d.b.inlet d.a.outlet

/-- Polls for as long as there is no result and less and less is still to come. -/
def run (d : Duplex) : Duplex :=
  if d.poll.result?.isSome then d.poll
  else if d.poll.toCome < d.toCome then run d.poll
  else d.poll
termination_by d.toCome

end Duplex

end SocksChain.Relay
