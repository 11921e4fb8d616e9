import SocksChain.Endpoint
import SocksChain.Failure

/-!
How a host is reached. A host that is the text of an address is that address; about any other one
somebody outside is asked. The addresses that are found are tried in turn, until one answers.
-/

namespace SocksChain

/-- What is known under a name: its addresses, with the port that is asked for. -/
abbrev Names := String → UInt16 → Except IoError (List Ip.Zoned)

/-- The addresses of a host: itself, if it is the text of an address, and else what is known under
that name. -/
def sockets (names : Names) (host : String) (port : UInt16) : Except IoError (List Ip.Zoned) :=
  match Ip.Address.ofText? host with
  | some ip => .ok [.ofSocket ⟨ip, port⟩]
  | none => names host port

/-- What comes of trying an address. -/
inductive Trial where
  | connected
  | failed (e : IoError)
  /-- Nothing comes for as long as there is time. -/
  | unanswered
deriving DecidableEq

/-- Tries one address after the other. Of those that fail, the last one says why. -/
def firstConnected (attempt : Ip.Zoned → Trial) (late : Failure) :
    List Ip.Zoned → IoError → Except Failure Ip.Zoned
  | [], e => .error (.io e)
  | x :: later, _ =>
    match attempt x with
    | .connected => .ok x
    | .failed e => firstConnected attempt late later e
    | .unanswered => .error late

def noAddress : IoError := ⟨.invalidInput, some "could not resolve to any address"⟩

namespace Endpoint

/-- Dials a place, and gives the address that has answered. -/
def dial (e : Endpoint) (names : Names) (attempt : Ip.Zoned → Trial) (timeoutMs : Nat) :
    Except Failure Ip.Zoned :=
  match sockets names e.host e.port with
  | .error f => .error (.io f)
  | .ok found => firstConnected attempt (.connectTimeout e.toText timeoutMs) found noAddress

end Endpoint

end SocksChain
