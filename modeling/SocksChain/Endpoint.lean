import SocksChain.Crypto.Sha256
import SocksChain.Failure
import SocksChain.Ip.Text

/-!
Endpoints: a host, which may be a name or the text of an IP address, and a TCP or UDP port. The
canonical text `host:port` puts sixteen-octet addresses in brackets; the last colon of a text
parts host and port, and one pair of brackets around the host is taken off.
-/

namespace SocksChain

structure Endpoint where
  host : String
  port : UInt16
deriving DecidableEq

/-- The host between one pair of brackets, or the host itself. -/
def unbracket (host : List Char) : List Char :=
  match host with
  | '[' :: rest => if rest.getLast? = some ']' then rest.dropLast else host
  | _ => host

namespace Endpoint

def ip? (e : Endpoint) : Option Ip.Address := Ip.Address.parse? (unbracket e.host.toList)

def isIp (e : Endpoint) : Bool := e.ip?.isSome

def socket? (e : Endpoint) : Option Ip.Socket := e.ip?.map fun ip => ⟨ip, e.port⟩

def ofSocket (s : Ip.Socket) : Endpoint := ⟨s.ip.toText, s.port⟩

def render (e : Endpoint) : List Char :=
  match e.ip? with
  | some (.v6 x) => '[' :: x.render ++ ']' :: ':' :: Text.Decimal.render e.port.toNat
  | _ => e.host.toList ++ ':' :: Text.Decimal.render e.port.toNat

def toText (e : Endpoint) : String := String.ofList e.render

def parse (s : List Char) : Except ConfigCause Endpoint :=
  match Ip.splitLast ':' s with
  | none => .error (.noPort (String.ofList s))
  | some (host, port) =>
    match Text.Decimal.read? 65535 port with
    | none => .error (.invalidPort (String.ofList s))
    | some p =>
      if unbracket host = [] then .error (.noHost (String.ofList s))
      else .ok ⟨String.ofList (unbracket host), UInt16.ofNat p⟩

def ofText (s : String) : Except ConfigCause Endpoint := parse s.toList

def ofText? (s : String) : Option Endpoint := (ofText s).toOption

/-- The first eight bytes of the digest of a text, as a number. -/
def hashText (s : String) : UInt64 :=
  UInt64.ofNat (Bytes.ofBigEndian ((Crypto.Sha256.hash (Bytes.ofText s)).take 8))

end Endpoint

structure Credentials where
  username : String
  password : String
deriving DecidableEq

/-- A proxy to send requests to, and the credentials it asks for. -/
structure Backend where
  endpoint : Endpoint
  credentials : Option Credentials := none
deriving DecidableEq

def Backend.toText (b : Backend) : String := b.endpoint.toText

end SocksChain
