import SocksChain.Endpoint

/-!
Addresses on the SOCKS5 wire: a type byte, an IP address or a counted domain name, and a port. What
reading takes off the front of a byte string is what writing puts there, and a longer byte string
never changes the answer.
-/

namespace SocksChain.Socks

def protocolVersion : UInt8 := 5

namespace AddressType

def v4 : UInt8 := 1

def domain : UInt8 := 3

def v6 : UInt8 := 4

end AddressType

inductive Address where
  | ip (socket : Ip.Socket)
  | domain (name : String) (port : UInt16)
deriving DecidableEq

/-- Writing behind what a buffer holds; what was put there before a fault stays. -/
abbrev Writing := ExceptT Fault (StateM Bytes)

namespace Writing

def put (b : Bytes) : Writing Unit := modify (· ++ b)

theorem run_put (b buffer : Bytes) : (put b).run buffer = (.ok (), buffer ++ b) := rfl

theorem run_put_bind {α : Type} (b : Bytes) (f : Unit → Writing α) (buffer : Bytes) :
    (put b >>= f).run buffer = (f ()).run (buffer ++ b) := rfl

end Writing

namespace Address

def unspecified4 : Address := .ip ⟨.v4 .unspecified, 0⟩

def unspecified6 : Address := .ip ⟨.v6 .unspecified, 0⟩

/-- The address of zeros that has the given type, the four-octet one for an unknown type. -/
def zeroed (kind : UInt8) : Address :=
  if kind = AddressType.v6 then unspecified6
  else if kind = AddressType.domain then .domain "" 0
  else unspecified4

def kind : Address → UInt8
  | ip ⟨.v4 _, _⟩ => AddressType.v4
  | ip ⟨.v6 _, _⟩ => AddressType.v6
  | domain _ _ => AddressType.domain

def port : Address → UInt16
  | ip s => s.port
  | domain _ p => p

def encodedLength : Address → Nat
  | ip ⟨.v4 _, _⟩ => 7
  | ip ⟨.v6 _, _⟩ => 19
  | domain name _ => (Bytes.ofText name).length + 4

def encode : Address → Except Fault Bytes
  | ip ⟨.v4 x, p⟩ => .ok (AddressType.v4 :: x.octets ++ Bytes.ofWord p)
  | ip ⟨.v6 x, p⟩ => .ok (AddressType.v6 :: x.octets ++ Bytes.ofWord p)
  | domain name p =>
    let text := Bytes.ofText name
    if 255 < text.length then .error (.domainLength text.length)
    else .ok (AddressType.domain :: UInt8.ofNat text.length :: text ++ Bytes.ofWord p)

/-- Writes an address piece by piece. -/
def write : Address → Writing Unit
  | ip ⟨.v4 x, p⟩ => do
    Writing.put [AddressType.v4]
    Writing.put x.octets
    Writing.put (Bytes.ofWord p)
  | ip ⟨.v6 x, p⟩ => do
    Writing.put [AddressType.v6]
    Writing.put x.octets
    Writing.put (Bytes.ofWord p)
  | domain name p => do
    let text := Bytes.ofText name
    if 255 < text.length then throw (.domainLength text.length)
    Writing.put [AddressType.domain]
    Writing.put [UInt8.ofNat text.length]
    Writing.put text
    Writing.put (Bytes.ofWord p)

def parseV4 : Bytes → Option (Address × Bytes)
  | a :: b :: c :: d :: p :: q :: rest => some (.ip ⟨.v4 ⟨a, b, c, d⟩, Bytes.word p q⟩, rest)
  | _ => none

def parseV6 : Bytes → Option (Address × Bytes)
  | a0 :: a1 :: b0 :: b1 :: c0 :: c1 :: d0 :: d1 :: e0 :: e1 :: f0 :: f1 :: g0 :: g1 :: h0 :: h1 ::
      p :: q :: rest =>
    some (.ip ⟨.v6 ⟨Bytes.word a0 a1, Bytes.word b0 b1, Bytes.word c0 c1, Bytes.word d0 d1,
      Bytes.word e0 e1, Bytes.word f0 f1, Bytes.word g0 g1, Bytes.word h0 h1⟩, Bytes.word p q⟩,
      rest)
  | _ => none

/-- A count, that many bytes of UTF-8, and a port. -/
def parseDomain : Bytes → Except Fault (Option (Address × Bytes))
  | [] => .ok none
  | n :: body =>
    match body.drop n.toNat with
    | p :: q :: rest =>
      match Bytes.toText? (body.take n.toNat) with
      | some name => .ok (some (.domain name (Bytes.word p q), rest))
      | none => .error (.notUtf8 "domain")
    | _ => .ok none

/-- The address at the front of a byte string and what follows it; nothing while bytes are
missing. -/
def parse : Bytes → Except Fault (Option (Address × Bytes))
  | [] => .ok none
  | kind :: body =>
    if kind = AddressType.v4 then .ok (parseV4 body)
    else if kind = AddressType.v6 then .ok (parseV6 body)
    else if kind = AddressType.domain then parseDomain body
    else .error (.addressType kind)

def toText : Address → String
  | ip s => s.toText
  | domain name p => s!"{name}:{p.toNat}"

def ofEndpoint (e : Endpoint) : Address :=
  match e.socket? with
  | some s => .ip s
  | none => .domain e.host e.port

def toEndpoint : Address → Endpoint
  | ip s => .ofSocket s
  | domain name p => ⟨name, p⟩

theorem length_of_encode {a : Address} {b : Bytes} (h : a.encode = .ok b) :
    b.length = a.encodedLength := by
  unfold encode at h
  split at h
  · cases h
    rfl
  · cases h
    rfl
  · dsimp only at h
    split at h
    · cases h
    · cases h
      simp [encodedLength]

/-- A write puts down the whole address, or nothing. -/
theorem run_write (a : Address) (buffer : Bytes) : a.write.run buffer =
    match a.encode with
    | .ok w => (.ok (), buffer ++ w)
    | .error f => (.error f, buffer) := by
  match a with
  | ip ⟨.v4 x, p⟩ =>
    simp only [write, encode, Writing.run_put_bind, Writing.run_put, List.append_assoc,
      List.cons_append, List.nil_append]
  | ip ⟨.v6 x, p⟩ =>
    simp only [write, encode, Writing.run_put_bind, Writing.run_put, List.append_assoc,
      List.cons_append, List.nil_append]
  | domain name p =>
    by_cases h : 255 < (Bytes.ofText name).length
    · simp only [write, encode, if_pos h]
      rfl
    · simp only [write, encode, if_neg h, Writing.run_put_bind, Writing.run_put,
        List.append_assoc, List.cons_append, List.nil_append]

theorem encode_eq_error_iff {a : Address} {f : Fault} :
    a.encode = .error f ↔
      ∃ name p, a = .domain name p ∧ 255 < (Bytes.ofText name).length ∧
        f = .domainLength (Bytes.ofText name).length := by
  constructor
  · intro h
    unfold encode at h
    split at h
    · cases h
    · cases h
    · dsimp only at h
      split at h
      · rename_i name p hl
        cases h
        exact ⟨name, p, rfl, hl, rfl⟩
      · cases h
  · rintro ⟨name, p, rfl, hl, rfl⟩
    simp [encode, hl]

theorem length_of_parseV4_none {b : Bytes} (h : parseV4 b = none) : b.length < 6 := by
  iterate 6
    rcases b with _ | ⟨_, b⟩
    · simp
  simp [parseV4] at h

theorem length_of_parseV6_none {b : Bytes} (h : parseV6 b = none) : b.length < 18 := by
  iterate 18
    rcases b with _ | ⟨_, b⟩
    · simp
  simp [parseV6] at h

theorem length_of_parseDomain_none {b : Bytes} (h : parseDomain b = .ok none) :
    b.length < 258 := by
  unfold parseDomain at h
  split at h
  · simp
  · rename_i n body
    have hn := n.toNat_lt
    split at h
    · split at h <;> cases h
    · rename_i hshort
      have hd := List.length_drop (l := body) (i := n.toNat)
      rcases hb : body.drop n.toNat with _ | ⟨p, _ | ⟨q, rest⟩⟩
      · rw [hb] at hd
        simp only [List.length_nil, List.length_cons] at hd ⊢
        omega
      · rw [hb] at hd
        simp only [List.length_nil, List.length_cons] at hd ⊢
        omega
      · exact absurd hb (hshort p q rest)

/-- An address has at most 259 bytes, so a byte string that lacks some is shorter. -/
theorem length_of_parse_none {b : Bytes} (h : parse b = .ok none) : b.length < 259 := by
  unfold parse at h
  split at h
  · simp
  · rename_i kind body
    simp only [List.length_cons]
    split at h
    · have := length_of_parseV4_none (Except.ok.inj h)
      omega
    · split at h
      · have := length_of_parseV6_none (Except.ok.inj h)
        omega
      · split at h
        · have := length_of_parseDomain_none h
          omega
        · cases h

end Address

end SocksChain.Socks
