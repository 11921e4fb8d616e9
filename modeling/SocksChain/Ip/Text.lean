import SocksChain.Ip.Address
import SocksChain.Text.Decimal
import SocksChain.Text.Hex

/-!
The text of IP addresses. Four octets are written in decimal without leading zeros. Sixteen octets
are groups of one to four hexadecimal digits; `::` stands once for one or more groups of zeros, and
the last two groups may be written as four octets. Printing is lower case, shortens the first
longest run of at least two zero groups, and writes a mapped address with its four octets.
-/

namespace SocksChain.Ip

/-- One octet: at most three digits, none of them a leading zero. -/
def octet? (s : List Char) : Option UInt8 :=
  match s with
  | '0' :: _ :: _ => none
  | '+' :: _ => none
  | _ => if s.length ≤ 3 then (Text.Decimal.read? 255 s).map UInt8.ofNat else none

def V4.parse? (s : List Char) : Option V4 :=
  match (s.splitOn '.').mapM octet? with
  | some [a, b, c, d] => some ⟨a, b, c, d⟩
  | _ => none

/-- One group: one to four hexadecimal digits. -/
def group? (s : List Char) : Option UInt16 :=
  if s.length = 0 ∨ 4 < s.length then none
  else (s.mapM Text.Hex.digit?).map fun ds => UInt16.ofNat (ds.foldl (fun acc d => acc * 16 + d) 0)

/-- Groups with colons between them; the last field may be four octets, which make two groups. -/
def fieldGroups? : List (List Char) → Option (List UInt16)
  | [] => some []
  | [last] =>
    match V4.parse? last with
    | some x => some [Bytes.word x.a x.b, Bytes.word x.c x.d]
    | none => (group? last).map fun g => [g]
  | f :: rest => (group? f).bind fun g => (fieldGroups? rest).map (g :: ·)

def groups? (s : List Char) : Option (List UInt16) :=
  if s = [] then some [] else fieldGroups? (s.splitOn ':')

/-- The text before and after the first `::`. -/
def splitGap : List Char → Option (List Char × List Char)
  | ':' :: ':' :: rest => some ([], rest)
  | c :: rest => (splitGap rest).map fun (h, t) => (c :: h, t)
  | [] => none

def V6.parse? (s : List Char) : Option V6 :=
  match splitGap s with
  | none => (groups? s).bind V6.ofGroups?
  | some (head, tail) =>
    if head.contains '.' then none
    else
      match groups? head, groups? tail with
      | some h, some t =>
        if h.length + t.length ≤ 7 then
          V6.ofGroups? (h ++ List.replicate (8 - h.length - t.length) 0 ++ t)
        else none
      | _, _ => none

def Address.parse? (s : List Char) : Option Address :=
  match V4.parse? s with
  | some x => some (.v4 x)
  | none => (V6.parse? s).map .v6

def V4.render (x : V4) : List Char :=
  List.intercalate ['.'] (x.octets.map fun o => Text.Decimal.render o.toNat)

def renderGroups (gs : List UInt16) : List Char :=
  List.intercalate [':'] (gs.map fun g => Nat.toDigits 16 g.toNat)

/-- The length of the run of zero groups that a list starts with. -/
def zeroRun (gs : List UInt16) : Nat := (gs.takeWhile (· == 0)).length

/-- Start and length of the first longest run of zero groups, from position `at_` on. -/
def longestZeros (at_ : Nat) : List UInt16 → Nat × Nat
  | [] => (at_, 0)
  | g :: rest =>
    let here := zeroRun (g :: rest)
    let later := longestZeros (at_ + 1) rest
    if later.2 ≤ here then (at_, here) else later

def V6.render (x : V6) : List Char :=
  match x.mapped? with
  | some y => "::ffff:".toList ++ y.render
  | none =>
    let gap := longestZeros 0 x.groups
    if 1 < gap.2 then
      renderGroups (x.groups.take gap.1) ++ [':', ':'] ++
        renderGroups (x.groups.drop (gap.1 + gap.2))
    else renderGroups x.groups

def Address.render : Address → List Char
  | .v4 x => x.render
  | .v6 x => x.render

def Address.toText (a : Address) : String := String.ofList a.render

def Address.ofText? (s : String) : Option Address := Address.parse? s.toList

def Socket.render (s : Socket) : List Char :=
  match s.ip with
  | .v4 x => x.render ++ ':' :: Text.Decimal.render s.port.toNat
  | .v6 x => '[' :: x.render ++ ']' :: ':' :: Text.Decimal.render s.port.toNat

def Socket.toText (s : Socket) : String := String.ofList s.render

/-- The text before and after the last `c`. -/
def splitLast (c : Char) (s : List Char) : Option (List Char × List Char) :=
  if s.contains c then
    some (((s.reverse.dropWhile (· != c)).drop 1).reverse, (s.reverse.takeWhile (· != c)).reverse)
  else none

/-- Sixteen octets stand in brackets before the port, which is digits alone. -/
def Socket.parse? (s : List Char) : Option Socket :=
  match splitLast ':' s with
  | none => none
  | some (host, port) =>
    if port.head? = some '+' then none
    else
      (Text.Decimal.read? 65535 port).bind fun p =>
        match host with
        | '[' :: rest =>
          if rest.getLast? = some ']' then
            (V6.parse? rest.dropLast).map fun x => ⟨.v6 x, UInt16.ofNat p⟩
          else none
        | _ => (V4.parse? host).map fun x => ⟨.v4 x, UInt16.ofNat p⟩

def Socket.ofText? (s : String) : Option Socket := Socket.parse? s.toList

/-- The zone stands in decimal after a percent sign, inside the brackets. -/
def Zoned.render (z : Zoned) : List Char :=
  match z.socket.ip with
  | .v6 x =>
    if z.zone = 0 then z.socket.render
    else '[' :: x.render ++ '%' :: Text.Decimal.render z.zone.toNat ++ ']' :: ':' ::
      Text.Decimal.render z.socket.port.toNat
  | .v4 _ => z.socket.render

def Zoned.parse? (s : List Char) : Option Zoned :=
  let front := s.takeWhile (· != '%')
  match s.drop front.length with
  | [] => (Socket.parse? s).map fun socket => { socket }
  | _ :: rest =>
    let digits := rest.takeWhile (· != ']')
    if digits.head? = some '+' || (rest.drop digits.length).isEmpty then none
    else do
      let zone ← Text.Decimal.read? (UInt32.size - 1) digits
      let socket ← Socket.parse? (front ++ rest.drop digits.length)
      match socket.ip with
      | .v6 _ => some { socket, zone := UInt32.ofNat zone }
      | .v4 _ => none

def Zoned.toText (z : Zoned) : String := String.ofList z.render

def Zoned.ofText? (s : String) : Option Zoned := Zoned.parse? s.toList

end SocksChain.Ip
