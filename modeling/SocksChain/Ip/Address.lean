import SocksChain.Bytes

/-!
IP addresses of both families, socket addresses, and their octets. An address of sixteen octets is
eight groups of two, so reading and writing octets are inverse to each other.
-/

namespace SocksChain.Ip

structure V4 where
  a : UInt8
  b : UInt8
  c : UInt8
  d : UInt8
deriving DecidableEq

structure V6 where
  g0 : UInt16
  g1 : UInt16
  g2 : UInt16
  g3 : UInt16
  g4 : UInt16
  g5 : UInt16
  g6 : UInt16
  g7 : UInt16
deriving DecidableEq

inductive Address where
  | v4 (addr : V4)
  | v6 (addr : V6)
deriving DecidableEq

/-- An address with a TCP or UDP port. -/
structure Socket where
  ip : Address
  port : UInt16
deriving DecidableEq

/-- A socket address with what else tells two addresses of sixteen octets apart: the zone that a
link-local one belongs to, and a flow label. Zone 0 and flow 0 are none. -/
structure Zoned where
  socket : Socket
  zone : UInt32 := 0
  flow : UInt32 := 0
deriving DecidableEq

def Zoned.ofSocket (s : Socket) : Zoned := { socket := s }

namespace V4

def octets (x : V4) : Bytes := [x.a, x.b, x.c, x.d]

def unspecified : V4 := ⟨0, 0, 0, 0⟩

def loopback : V4 := ⟨127, 0, 0, 1⟩

end V4

namespace V6

def groups (x : V6) : List UInt16 := [x.g0, x.g1, x.g2, x.g3, x.g4, x.g5, x.g6, x.g7]

def ofGroups? : List UInt16 → Option V6
  | [g0, g1, g2, g3, g4, g5, g6, g7] => some ⟨g0, g1, g2, g3, g4, g5, g6, g7⟩
  | _ => none

def octets (x : V6) : Bytes := x.groups.flatMap Bytes.ofWord

def unspecified : V6 := ⟨0, 0, 0, 0, 0, 0, 0, 0⟩

def loopback : V6 := ⟨0, 0, 0, 0, 0, 0, 0, 1⟩

/-- The address of four octets that `::ffff:a.b.c.d` stands for. -/
def mapped? (x : V6) : Option V4 :=
  if x.groups.take 6 = [0, 0, 0, 0, 0, 0xffff] then
    match x.octets.drop 12 with
    | [a, b, c, d] => some ⟨a, b, c, d⟩
    | _ => none
  else none

@[simp] theorem ofGroups?_groups (x : V6) : ofGroups? x.groups = some x := rfl

theorem groups_of_ofGroups? {l : List UInt16} {x : V6} (h : ofGroups? l = some x) :
    x.groups = l := by
  unfold ofGroups? at h
  split at h
  · cases h
    rfl
  · cases h

@[simp] theorem length_octets (x : V6) : x.octets.length = 16 := rfl

end V6

namespace Address

def loopback : Address := v4 V4.loopback

end Address

end SocksChain.Ip
