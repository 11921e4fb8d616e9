import SocksChain.Cipher.Session
import SocksChain.Directory
import SocksChain.Settings.Basic
import SocksChain.Socks.Packet

/-!
A UDP association: the datagrams of one client, relayed for as long as its connection lasts. The
client's datagrams name their destinations; what comes back names where it came from. With a
backend, address and payload travel sealed, and only what that backend sealed is handed on.
-/

namespace SocksChain

/-- A datagram on its way. -/
structure Parcel where
  target : Ip.Zoned
  payload : Bytes
deriving DecidableEq

/-- Where requests go: each to its own destination, or all of them to one backend. -/
inductive Remote where
  | destinations
  | backend (place : Ip.Zoned) (pair : Cipher.Pair)

/-- What a received datagram comes to. -/
inductive Fate where
  | sent (parcel : Parcel)
  | ignored
  | dropped (failure : Failure)
deriving DecidableEq

structure Association where
  clientIp : Ip.Address
  remote : Remote
  /-- The client, once it has sent something. -/
  client : Option Ip.Zoned := none
  toRemote : Nat := 0
  toClient : Nat := 0
  dropped : Nat := 0
  entropy : Cipher.Entropy := {}

def Remote.ofSettings (names : Names) : Option DatagramBackend → Except Failure Remote
  | none => .ok .destinations
  | some b =>
    match sockets names b.endpoint.host b.endpoint.port with
    | .error e => .error (.io e)
    | .ok [] => .error (.config (.other s!"udp backend {b.endpoint.toText} does not resolve"))
    | .ok (place :: _) =>
      (Cipher.Pair.ofName b.cipher.name b.cipher.secret true).map (.backend place)

namespace Association

/-- The first address of a host is the one that is used. -/
def destination (lookup : String → Except IoError (List Ip.Address)) :
    Socks.Address → Except IoError Ip.Socket
  | .ip s => .ok s
  | .domain host port =>
    match lookup host with
    | .error e => .error e
    | .ok [] => .error ⟨.notFound, some ("no addresses for " ++ host)⟩
    | .ok (ip :: _) => .ok ⟨ip, port⟩

/-- The first sender at the client's address is the client from then on. -/
def isFromClient (a : Association) (sender : Ip.Zoned) : Bool :=
  match a.client with
  | some client => client = sender
  | none => sender.socket.ip = a.clientIp

/-- The host that has to be looked up for a datagram. -/
def asks? (a : Association) (sender : Ip.Zoned) (datagram : Bytes) : Option String :=
  match a.remote, Socks.Packet.decode datagram with
  | .destinations, .ok (.domain host _, _) => if a.isFromClient sender then some host else none
  | _, _ => none

def forward (a : Association) (lookup : String → Except IoError (List Ip.Address))
    (packet : Bytes) : Except Failure Parcel × Association :=
  match Socks.Packet.decode packet with
  | .error f => (.error (.socks f), a)
  | .ok (address, payload) =>
    match a.remote with
    | .destinations =>
      match destination lookup address with
      | .error e => (.error (.io e), a)
      | .ok s => (.ok ⟨.ofSocket s, payload⟩, a)
    | .backend place pair =>
      let (sealed, encryptor, entropy) := pair.encryptor.update a.entropy (packet.drop 3)
      (.ok ⟨place, sealed⟩,
        { a with remote := .backend place { pair with encryptor := encryptor }, entropy := entropy })

/-- What a backend has sealed must start with an address. -/
def wrap (tail : Bytes) : Except Failure Bytes :=
  match Socks.Address.parse tail with
  | .ok (some _) => .ok (0 :: 0 :: 0 :: tail)
  | .ok none => .error (.socks .shortPacket)
  | .error f => .error (.socks f)

def handBack (a : Association) (client sender : Ip.Zoned) (datagram : Bytes) :
    Option (Except Failure Parcel) × Association :=
  match a.remote with
  | .destinations =>
    match Socks.Packet.encode (.ip sender.socket) datagram with
    | .error f => (some (.error (.socks f)), a)
    | .ok packet => (some (.ok ⟨client, packet⟩), a)
  | .backend place pair =>
    if sender ≠ place then (none, a)
    else
      match pair.decryptor.updateAll datagram with
      | (opened, decryptor) =>
        (some (match opened with
          | .error cause => .error (.cipher cause)
          | .ok tail => (wrap tail).map fun packet => ⟨client, packet⟩),
          { a with remote := .backend place { pair with decryptor := decryptor } })

def drop (a : Association) : Association := { a with dropped := a.dropped + 1 }

/-- A parcel that the socket refuses is lost; what it takes is counted. -/
def send (a counted : Association) (refuses : Parcel → Option IoError) (parcel : Parcel) :
    Fate × Association :=
  match refuses parcel with
  | some e => (.dropped (.io e), a.drop)
  | none => (.sent parcel, counted)

/-- A datagram from anybody but the client waits for nothing: it is handed on at once, or lost. -/
def receive (a : Association) (lookup : String → Except IoError (List Ip.Address))
    (refuses : Parcel → Option IoError) (sender : Ip.Zoned) (datagram : Bytes) :
    Fate × Association :=
  if a.isFromClient sender then
    match { a with client := some sender }.forward lookup datagram with
    | (.ok parcel, a) => a.send { a with toRemote := a.toRemote + 1 } refuses parcel
    | (.error f, a) => (.dropped f, a.drop)
  else
    match a.client with
    | none => (.ignored, a)
    | some client =>
      match a.handBack client sender datagram with
      | (none, a) => (.ignored, a)
      | (some (.ok parcel), a) => a.send { a with toClient := a.toClient + 1 } refuses parcel
      | (some (.error f), a) => (.dropped f, a.drop)

/-- The most that is taken of one datagram. -/
def longestDatagram : Nat := 65535

/-- A datagram arrives at a socket that takes everything it is given to send. -/
def arrive (a : Association) (lookup : String → Except IoError (List Ip.Address))
    (sender : Ip.Zoned) (datagram : Bytes) : Fate × Association :=
  a.receive lookup (fun _ => none) sender (datagram.take longestDatagram)

end Association

end SocksChain
