import SocksChain.Channel.Dialogue
import SocksChain.Socks.Negotiation

/-!
The requesting side: greets a backend, proves itself where the backend asks for it and the
credentials allow it, and sends one request. Credentials leave only after the backend has asked
for them, and the request only after the backend has agreed to go on.
-/

namespace SocksChain.Socks

open Channel

namespace Address

/-- Reads one address and not a byte beyond it. -/
def receive : Exchange Address := do
  let kind ← Exchange.readByte
  if kind = AddressType.v4 then finish [kind] (4 + 2)
  else if kind = AddressType.v6 then finish [kind] (16 + 2)
  else if kind = AddressType.domain then
    let n ← Exchange.readByte
    finish [kind, n] (n.toNat + 2)
  else Exchange.fail (.socks (.addressType kind))
where
  finish (front : Bytes) (size : Nat) : Exchange Address := do
    let body ← Exchange.readExact size
    match parse (front ++ body) with
    | .ok (some (address, _)) => return address
    | .ok none => Exchange.fail (.socks (.addressType (front.headD 0)))
    | .error f => Exchange.fail (.socks f)

end Address

namespace Requester

def greeting (b : Backend) : Bytes :=
  match b.credentials with
  | some _ => [protocolVersion, 2, Method.none, Method.password]
  | none => [protocolVersion, 1, Method.none]

def passwordMessage (c : Credentials) : Bytes :=
  let name := Bytes.ofText c.username
  let secret := Bytes.ofText c.password
  [passwordVersion, UInt8.ofNat name.length] ++ name ++ [UInt8.ofNat secret.length] ++ secret

def fits (c : Credentials) : Bool :=
  (Bytes.ofText c.username).length ≤ 255 && (Bytes.ofText c.password).length ≤ 255

/-- Only the second byte of the backend's verdict counts. -/
def prove (b : Backend) : Exchange Unit := do
  match b.credentials with
  | none => Exchange.fail (.protocol (.passwordNotOffered b.toText))
  | some c =>
    if !fits c then Exchange.fail (.config (.longCredentials b.toText))
    Exchange.send (passwordMessage c)
    match ← Exchange.readExact 2 with
    | [_, 0] => return
    | _ => Exchange.fail (.authRejected b.toText)

def agree (b : Backend) : Exchange Unit := do
  Exchange.send (greeting b)
  match ← Exchange.readExact 2 with
  | [version, method] =>
    if version ≠ protocolVersion then Exchange.fail (.socks (.version protocolVersion version))
    else if method = Method.none then return
    else if method = Method.password then prove b
    else Exchange.fail (.authRejected b.toText)
  | _ => Exchange.failIo .earlyEof

/-- Sends one request and gives the address that the backend has bound for it. -/
def request (b : Backend) (command : UInt8) (target : Endpoint) : Exchange Address := do
  agree b
  match (Address.ofEndpoint target).encode with
  | .error f => Exchange.fail (.socks f)
  | .ok address =>
    Exchange.send ([protocolVersion, command, 0] ++ address)
    match ← Exchange.readExact 3 with
    | [version, code, _] =>
      if version ≠ protocolVersion then Exchange.fail (.socks (.version protocolVersion version))
      else if code ≠ ReplyCode.succeeded then Exchange.fail (.rejected b.toText code)
      else Address.receive
    | _ => Exchange.failIo .earlyEof

def connect (b : Backend) (target : Endpoint) : Exchange Address := request b Command.connect target

/-- The backend answers only once it has stored the destination. -/
def register (b : Backend) (real : Endpoint) : Exchange Unit := do
  let _ ← request b Command.register real

end Requester

end SocksChain.Socks
