import SocksChain.Socks.Packet

/-!
The front end's side of the SOCKS5 handshake as a machine over a byte string: a greeting with the
offered methods, a name and password where the client has to prove itself, and one request. Each
turn takes at most one complete message off the front of what has arrived.
-/

namespace SocksChain.Socks

namespace Method

def none : UInt8 := 0

def password : UInt8 := 2

def refused : UInt8 := 255

end Method

namespace Command

def connect : UInt8 := 1

def associate : UInt8 := 3

/-- Between nodes of a chain: the address is a real destination whose alias must be restorable. -/
def register : UInt8 := 128

end Command

def passwordVersion : UInt8 := 1

inductive Stage where
  | greeting
  | password
  | request
  | established
  | closed
deriving DecidableEq

def Stage.name : Stage → String
  | greeting => "AwaitGreeting"
  | password => "AwaitAuth"
  | request => "AwaitCommand"
  | established => "Established"
  | closed => "Closed"

/-- How many messages may still be accepted. -/
def Stage.remaining : Stage → Nat
  | greeting => 3
  | password => 2
  | request => 1
  | established => 0
  | closed => 0

structure Negotiation where
  credentials : Option Credentials := none
  trusted : Bool := false
  registrations : Bool := false
  stage : Stage := .greeting
  authenticated : Bool := false
deriving DecidableEq

inductive Outcome where
  | needMore
  | reply (message : Bytes)
  | connect (message : Bytes) (destination : Endpoint)
  | associate (hint : Address)
  | register (real : Endpoint)
  /-- The reply is still to be sent; then the connection ends. -/
  | reject (message : Bytes) (fault : Fault)
  /-- The connection ends without a reply. -/
  | abort (fault : Fault)
deriving DecidableEq

/-- What a turn decides, the machine after it, and the bytes it left. -/
structure Turn where
  outcome : Outcome
  machine : Negotiation
  rest : Bytes
deriving DecidableEq

/-- A message at the front of a byte string and what follows it; nothing while bytes are missing. -/
abbrev Reading (α : Type) := Except Fault (Option (α × Bytes))

/-- Version, count of methods, methods. -/
def readGreeting : Bytes → Reading Bytes
  | [] => .ok none
  | v :: body =>
    if v ≠ protocolVersion then .error (.version protocolVersion v)
    else
      match body with
      | [] => .ok none
      | n :: methods =>
        if n = 0 then .error .noMethod
        else if methods.length < n.toNat then .ok none
        else .ok (some (methods.take n.toNat, methods.drop n.toNat))

/-- Version, counted name, counted password. -/
def readPassword : Bytes → Reading (Bytes × Bytes)
  | [] => .ok none
  | v :: body =>
    if v ≠ passwordVersion then .error (.version passwordVersion v)
    else
      match body with
      | [] => .ok none
      | n :: afterCount =>
        match afterCount.drop n.toNat with
        | [] => .ok none
        | m :: secret =>
          if secret.length < m.toNat then .ok none
          else .ok (some ((afterCount.take n.toNat, secret.take m.toNat), secret.drop m.toNat))

structure Request where
  command : UInt8
  kind : UInt8
  address : Address

/-- Version, command, a reserved byte, address. -/
def readRequest : Bytes → Reading Request
  | [] => .ok none
  | v :: body =>
    if v ≠ protocolVersion then .error (.version protocolVersion v)
    else
      match body with
      | command :: _ :: kind :: tail =>
        (Address.parse (kind :: tail)).map fun found =>
          found.map fun (address, rest) => (⟨command, kind, address⟩, rest)
      | _ => .ok none

namespace Negotiation

def requiresPassword (m : Negotiation) : Bool := m.credentials.isSome && !m.trusted

def close (m : Negotiation) : Negotiation := { m with stage := .closed }

def wantedMethod (m : Negotiation) : UInt8 :=
  if m.requiresPassword then Method.password else Method.none

def stageAfterGreeting (m : Negotiation) : Stage :=
  if m.requiresPassword then .password else .request

def onGreeting (m : Negotiation) (buf : Bytes) : Turn :=
  match readGreeting buf with
  | .ok none => ⟨.needMore, m, buf⟩
  | .error f => ⟨.abort f, m.close, buf⟩
  | .ok (some (methods, rest)) =>
    if methods.contains m.wantedMethod then
      ⟨.reply [protocolVersion, m.wantedMethod], { m with stage := m.stageAfterGreeting }, rest⟩
    else ⟨.reject [protocolVersion, Method.refused] .noMethod, m.close, rest⟩

/-- A name or password that is not UTF-8 ends the connection but leaves the stage as it was. -/
def onPassword (m : Negotiation) (buf : Bytes) : Turn :=
  match readPassword buf with
  | .ok none => ⟨.needMore, m, buf⟩
  | .error f => ⟨.abort f, m.close, buf⟩
  | .ok (some ((name, secret), rest)) =>
    match Bytes.toText? name, Bytes.toText? secret with
    | none, _ => ⟨.abort (.notUtf8 "username"), m, rest⟩
    | some _, none => ⟨.abort (.notUtf8 "password"), m, rest⟩
    | some username, some password =>
      if m.credentials = some ⟨username, password⟩ then
        ⟨.reply [passwordVersion, 0], { m with stage := .request, authenticated := true }, rest⟩
      else ⟨.reject [passwordVersion, 1] (.authentication username), m.close, rest⟩

/-- The success reply to a request whose connection does not exist yet has a zero address. -/
def connectReply (kind : UInt8) : Bytes :=
  encodeReply ReplyCode.succeeded
    (if kind = AddressType.v6 then .unspecified6 else .unspecified4)

def onRequest (m : Negotiation) (buf : Bytes) : Turn :=
  match readRequest buf with
  | .ok none => ⟨.needMore, m, buf⟩
  | .error (.addressType code) =>
    ⟨.reject (encodeReply ReplyCode.addressTypeNotSupported .unspecified4) (.addressType code),
      m.close, buf⟩
  | .error f => ⟨.abort f, m.close, buf⟩
  | .ok (some (r, rest)) =>
    let accepted := { m with stage := .established }
    if r.command = Command.connect then
      ⟨.connect (connectReply r.kind) r.address.toEndpoint, accepted, rest⟩
    else if r.command = Command.associate then ⟨.associate r.address, accepted, rest⟩
    else if r.command = Command.register ∧ m.registrations then
      ⟨.register r.address.toEndpoint, accepted, rest⟩
    else
      ⟨.reject (encodeReply ReplyCode.commandNotSupported (.zeroed r.kind)) (.command r.command),
        m.close, rest⟩

def advance (m : Negotiation) (buf : Bytes) : Turn :=
  match m.stage with
  | .greeting => m.onGreeting buf
  | .password => m.onPassword buf
  | .request => m.onRequest buf
  | .established | .closed => ⟨.abort (.outOfStage m.stage.name), m.close, buf⟩

def associateReply (bound : Ip.Socket) : Bytes := encodeReply ReplyCode.succeeded (.ip bound)

def registrationReply (stored : Bool) : Bytes :=
  encodeReply (if stored then ReplyCode.succeeded else ReplyCode.generalFailure) .unspecified4

end Negotiation

/-- The longest byte string that may still lack something. -/
def longestIncomplete : Nat := 512

theorem le_of_readGreeting_none {b : Bytes} (h : readGreeting b = .ok none) :
    b.length ≤ longestIncomplete := by
  unfold readGreeting at h
  split at h
  · simp [longestIncomplete]
  · split at h
    · cases h
    · split at h
      · simp [longestIncomplete]
      · rename_i n methods
        have := n.toNat_lt
        split at h
        · cases h
        · split at h
          · simp only [List.length_cons, longestIncomplete]
            omega
          · cases h

theorem le_of_readPassword_none {b : Bytes} (h : readPassword b = .ok none) :
    b.length ≤ longestIncomplete := by
  unfold readPassword at h
  split at h
  · simp [longestIncomplete]
  · split at h
    · cases h
    · split at h
      · simp [longestIncomplete]
      · rename_i n afterCount
        have hn := n.toNat_lt
        split at h
        · rename_i hd
          have := List.length_drop (l := afterCount) (i := n.toNat)
          rw [hd] at this
          simp only [List.length_nil] at this
          simp only [List.length_cons, longestIncomplete]
          omega
        · rename_i m secret hd
          have hm := m.toNat_lt
          have := List.length_drop (l := afterCount) (i := n.toNat)
          rw [hd] at this
          simp only [List.length_cons] at this
          split at h
          · simp only [List.length_cons, longestIncomplete]
            omega
          · cases h

theorem le_of_readRequest_none {b : Bytes} (h : readRequest b = .ok none) :
    b.length ≤ longestIncomplete := by
  unfold readRequest at h
  split at h
  · simp [longestIncomplete]
  · split at h
    · cases h
    · split at h
      · rename_i kind tail
        have hp : Address.parse (kind :: tail) = .ok none := by
          revert h
          cases Address.parse (kind :: tail) with
          | error f => simp [Except.map]
          | ok found => cases found <;> simp [Except.map]
        have := Address.length_of_parse_none hp
        simp only [List.length_cons, longestIncomplete] at this ⊢
        omega
      · rename_i body _ _ hshort
        rcases body with _ | ⟨command, _ | ⟨reserved, _ | ⟨kind, tail⟩⟩⟩
        · simp [longestIncomplete]
        · simp [longestIncomplete]
        · simp [longestIncomplete]
        · exact absurd rfl (hshort command reserved kind tail)

theorem Negotiation.le_of_needMore {m : Negotiation} {b : Bytes}
    (h : (m.advance b).outcome = .needMore) : b.length ≤ longestIncomplete := by
  unfold advance at h
  split at h
  · unfold onGreeting at h
    split at h
    · exact le_of_readGreeting_none ‹_›
    · cases h
    · split at h <;> cases h
  · unfold onPassword at h
    split at h
    · exact le_of_readPassword_none ‹_›
    · cases h
    · split at h
      · cases h
      · cases h
      · split at h <;> cases h
  · unfold onRequest at h
    split at h
    · exact le_of_readRequest_none ‹_›
    · cases h
    · cases h
    · dsimp only at h
      split at h
      · cases h
      · split at h
        · cases h
        · split at h <;> cases h
  · cases h
  · cases h

theorem Negotiation.remaining_lt_of_reply {m : Negotiation} {b message : Bytes}
    (h : (m.advance b).outcome = .reply message) :
    (m.advance b).machine.stage.remaining < m.stage.remaining := by
  unfold advance at h ⊢
  split at h <;> rename_i hs
  · unfold onGreeting at h ⊢
    split at h
    · cases h
    · cases h
    · split at h
      · rename_i hw
        simp only [hw, hs, stageAfterGreeting, if_true]
        split <;> decide
      · cases h
  · unfold onPassword at h ⊢
    split at h
    · cases h
    · cases h
    · split at h
      · cases h
      · cases h
      · split at h
        · rename_i hc
          simp only [hc, hs, if_true]
          decide
        · cases h
  · unfold onRequest at h
    split at h
    · cases h
    · cases h
    · cases h
    · dsimp only at h
      split at h
      · cases h
      · split at h
        · cases h
        · split at h <;> cases h
  · cases h
  · cases h

end SocksChain.Socks
