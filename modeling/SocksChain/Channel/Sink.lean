import SocksChain.Channel.Source

/-!
The writing half of a channel: how the coming writes and flushes will be received, and what has
been taken. When the lists have ended, every write is taken whole and every flush succeeds.
-/

namespace SocksChain.Channel

/-- How a write call is received. -/
inductive Acceptance where
  | takes (limit : Nat)
  | notReady
  | fails (error : IoError)

/-- How a flush call is received. -/
inductive Settling where
  | succeeds
  | notReady
  | fails (error : IoError)

structure Sink where
  writes : List Acceptance := []
  flushes : List Settling := []
  taken : Bytes := []
  flushed : Nat := 0
  shut : Bool := false

namespace Sink

def take (s : Sink) (b : Bytes) : Sink := { s with taken := s.taken ++ b }

/-- A write says how many bytes from the front it has taken. -/
def write (s : Sink) (b : Bytes) : Attempt Nat × Sink :=
  match s.writes with
  | [] => (.ready b.length, s.take b)
  | .takes n :: rest => (.ready (b.take n).length, { s with writes := rest }.take (b.take n))
  | .notReady :: rest => (.notReady, { s with writes := rest })
  | .fails e :: rest => (.failed e, { s with writes := rest })

def flush (s : Sink) : Attempt Unit × Sink :=
  match s.flushes with
  | [] => (.ready (), { s with flushed := s.flushed + 1 })
  | .succeeds :: rest => (.ready (), { s with flushes := rest, flushed := s.flushed + 1 })
  | .notReady :: rest => (.notReady, { s with flushes := rest })
  | .fails e :: rest => (.failed e, { s with flushes := rest })

def shutdown (s : Sink) : Sink := { s with shut := true }

end Sink

end SocksChain.Channel
