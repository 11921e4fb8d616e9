import SocksChain.Socks.Address

/-!
Replies of the front end, and the packets of a UDP association: two reserved bytes, a fragment
number that must be zero, an address, and the payload.
-/

namespace SocksChain.Socks

namespace ReplyCode

def succeeded : UInt8 := 0

def generalFailure : UInt8 := 1

def commandNotSupported : UInt8 := 7

def addressTypeNotSupported : UInt8 := 8

end ReplyCode

/-- The bytes of an address, or of the zero address when its domain is too long to write. -/
def Address.encodeOrZero (a : Address) : Bytes :=
  match a.encode with
  | .ok b => b
  | .error _ => [1, 0, 0, 0, 0, 0, 0]

def encodeReply (code : UInt8) (bound : Address) : Bytes :=
  protocolVersion :: code :: 0 :: bound.encodeOrZero

namespace Packet

def encode (a : Address) (payload : Bytes) : Except Fault Bytes :=
  a.encode.map fun b => 0 :: 0 :: 0 :: b ++ payload

/-- The destination and the payload of a packet that is not a fragment. -/
def decode : Bytes → Except Fault (Address × Bytes)
  | _ :: _ :: fragment :: first :: body =>
    if fragment ≠ 0 then .error .fragment
    else
      match Address.parse (first :: body) with
      | .ok (some found) => .ok found
      | .ok none => .error .shortPacket
      | .error f => .error f
  | _ => .error .shortPacket

end Packet

end SocksChain.Socks
