import SocksChain.Relay.Duplex

/-!
A relay as its two pipes see it. Each pipe keeps its own place and its own count of what it has
delivered; whether a side still takes what is written, and how much has been discarded, is kept once
and seen by both. The pipes may be polled in any order, until there is a result.
-/

namespace SocksChain.Relay

open Channel

inductive Direction where
  | forth
  | back
deriving DecidableEq

/-- What a pipe keeps to itself. -/
structure Pipe where
  phase : Phase := .reading
  delivered : Nat := 0
deriving DecidableEq

structure Joint where
  forth : Pipe := {}
  back : Pipe := {}
  /-- Whether `a` still takes what is written; only the pipe back asks and says so. -/
  aActive : Bool := true
  bActive : Bool := true
  /-- What either pipe has read and dropped. -/
  discarded : Nat := 0
  a : Link
  b : Link

namespace Joint

def result? (j : Joint) : Option (Except IoError Totals) :=
  match j.forth.phase, j.back.phase with
  | .failed e, _ => some (.error e)
  | _, .failed e => some (.error e)
  | .done, .done => some (.ok ⟨j.forth.delivered, j.back.delivered, j.discarded⟩)
  | _, _ => none

/-- Lets a pipe go as far as it can on what is shared. -/
def poll (j : Joint) : Direction → Joint
  | .forth =>
    let (f, i, o) :=
      Flow.poll ⟨j.forth.phase, j.bActive, j.forth.delivered, j.discarded⟩ j.a.inlet j.b.outlet
    { j with
      forth := ⟨f.phase, f.delivered⟩, bActive := f.active, discarded := f.discarded
      a := { j.a with inlet := i }, b := { j.b with outlet := o } }
  | .back =>
    let (f, i, o) :=
      Flow.poll ⟨j.back.phase, j.aActive, j.back.delivered, j.discarded⟩ j.b.inlet j.a.outlet
    { j with
      back := ⟨f.phase, f.delivered⟩, aActive := f.active, discarded := f.discarded
      b := { j.b with inlet := i }, a := { j.a with outlet := o } }

/-- Polls the pipes in the given order; once there is a result no pipe is polled again. -/
def polls (j : Joint) : List Direction → Joint
  | [] => j
  | x :: order => if j.result?.isSome then j else (j.poll x).polls order

end Joint

end SocksChain.Relay
