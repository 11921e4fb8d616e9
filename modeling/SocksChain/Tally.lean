import SocksChain.Failure

/-!
What a node counts: its tunnels, the bytes they carried, and how connections failed. The counters
wrap around at their width.
-/

namespace SocksChain

structure Tally where
  active : UInt32 := 0
  total : UInt64 := 0
  bytesIn : UInt64 := 0
  bytesOut : UInt64 := 0
  protocolErrors : UInt64 := 0
  backendErrors : UInt64 := 0
  cipherErrors : UInt64 := 0
  ioErrors : UInt64 := 0
deriving DecidableEq

namespace Tally

def started (t : Tally) : Tally := { t with active := t.active + 1, total := t.total + 1 }

def closed (t : Tally) : Tally := { t with active := t.active - 1 }

/-- Counts the bytes that went to the client and the bytes that came from it. -/
def carried (t : Tally) (toClient fromClient : Nat) : Tally :=
  { t with
    bytesIn := t.bytesIn + UInt64.ofNat toClient
    bytesOut := t.bytesOut + UInt64.ofNat fromClient }

/-- Counts a failure once, under the first of the headings that fits. -/
def failed (t : Tally) (f : Failure) : Tally :=
  if f.isCipher then { t with cipherErrors := t.cipherErrors + 1 }
  else if f.isProtocol then { t with protocolErrors := t.protocolErrors + 1 }
  else if f.isBackend then { t with backendErrors := t.backendErrors + 1 }
  else { t with ioErrors := t.ioErrors + 1 }

end Tally

end SocksChain
