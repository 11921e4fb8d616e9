import SocksChain.Proofs.Socks.Receipt
import SocksChain.Socks.Packet

/-!
Packets of an association. What is written for an address and a payload is read as these two; and
whatever is read as a packet is, apart from its two reserved bytes, what is written for what was
read. The checks come in a fixed order: the length of the header, then the fragment number, then the
address, so each of their errors tells exactly what is wrong with a packet.
-/

namespace SocksChain.Socks

namespace Address

/-- Bytes are missing of the address that is to be read: there is no type yet, or no count of a
name, or less than the type or the count has announced. -/
inductive Lacking : Bytes → Prop
  | untyped : Lacking []
  | uncounted : Lacking [AddressType.domain]
  | short {front body : Bytes} {size : Nat} :
      Front front size → body.length < size → Lacking (front ++ body)

variable {front body b : Bytes} {size : Nat}

theorem Front.length_lt_of_parse (hf : Front front size) (h : parse (front ++ body) = .ok none) :
    body.length < size := by
  refine Nat.lt_of_not_le fun hle => ?_
  -- What has been announced would be enough, and what comes after it would change nothing.
  have hwhole := hf.parse_of_length (List.length_take_of_le hle)
  have hne : parse (front ++ body.take size) ≠ .ok none := by
    rcases hwhole with ⟨a, ha⟩ | ⟨n, -, -, he⟩
    · simp [ha]
    · simp [he]
  have hsteady := steady_parse (front ++ body.take size) (body.drop size) hne
  rw [List.append_assoc, List.take_append_drop, h] at hsteady
  rcases hwhole with ⟨a, ha⟩ | ⟨n, -, -, he⟩
  · rw [ha] at hsteady
    cases hsteady
  · rw [he] at hsteady
    cases hsteady

theorem parse_eq_none_iff : parse b = .ok none ↔ Lacking b := by
  constructor
  · intro h
    match b, h with
    | [], _ => exact .untyped
    | kind :: body, h =>
      by_cases h4 : kind = AddressType.v4
      · subst h4
        exact .short .v4 (Front.length_lt_of_parse .v4 h)
      · by_cases h6 : kind = AddressType.v6
        · subst h6
          exact .short .v6 (Front.length_lt_of_parse .v6 h)
        · by_cases hd : kind = AddressType.domain
          · subst hd
            match body, h with
            | [], _ => exact .uncounted
            | n :: body, h => exact .short (.domain n) (Front.length_lt_of_parse (.domain n) h)
          · simp [parse, h4, h6, hd] at h
  · intro h
    cases h with
    | untyped => rfl
    | uncounted => rfl
    | short hf hlt => exact hf.parse_of_lt hlt

/-- An address is refused for its type or for its name. -/
theorem fault_of_parse {f : Fault} (h : parse b = .error f) :
    f = .notUtf8 "domain" ∨ ∃ kind, f = .addressType kind := by
  unfold parse at h
  split at h
  · cases h
  · rename_i kind body
    split at h
    · cases h
    · split at h
      · cases h
      · split at h
        · unfold parseDomain at h
          split at h
          · cases h
          · split at h
            · split at h
              · cases h
              · cases h
                exact .inl rfl
            · cases h
        · cases h
          exact .inr ⟨kind, rfl⟩

theorem encodedLength_pos (a : Address) : 0 < a.encodedLength := by
  match a with
  | ip ⟨.v4 _, _⟩ => exact Nat.succ_pos _
  | ip ⟨.v6 _, _⟩ => exact Nat.succ_pos _
  | domain _ _ => exact Nat.succ_pos _

theorem encode_of_writes {a : Address} {w : Bytes} (h : a.Writes w) : a.encode = .ok w := by
  have hrun := h []
  rw [run_write] at hrun
  split at hrun
  · rename_i v he
    obtain rfl : v = w := congrArg Prod.snd hrun
    exact he
  · cases hrun

end Address

namespace Packet

variable {x y k : UInt8} {tail q : Bytes}

theorem decode_of_length_lt (h : q.length < 4) : decode q = .error .shortPacket := by
  unfold decode
  split
  · simp only [List.length_cons] at h
    omega
  · rfl

/-- A packet that is long enough has its two reserved bytes, its fragment number, and something of
an address. -/
theorem exists_header (h : 4 ≤ q.length) :
    ∃ x y k tail, q = x :: y :: k :: tail ∧ tail ≠ [] := by
  match q, h with
  | x :: y :: k :: first :: body, _ => exact ⟨x, y, k, first :: body, rfl, List.cons_ne_nil _ _⟩

theorem decode_of_fragment (ht : tail ≠ []) (hk : k ≠ 0) :
    decode (x :: y :: k :: tail) = .error .fragment := by
  match tail, ht with
  | first :: body, _ => simp [decode, hk]

/-- With no fragment number, all depends on the address. -/
theorem decode_unfragmented (x y : UInt8) (tail : Bytes) : decode (x :: y :: 0 :: tail) =
    match Address.parse tail with
    | .ok (some found) => .ok found
    | .ok none => .error .shortPacket
    | .error f => .error f := by
  cases tail with
  | nil => rfl
  | cons first body =>
    unfold decode
    exact if_neg (not_not_intro rfl)

theorem decode_of_parse (x y : UInt8) {found : Address × Bytes}
    (h : Address.parse tail = .ok (some found)) : decode (x :: y :: 0 :: tail) = .ok found := by
  simp only [decode_unfragmented, h]

/-- A packet is read as it was written. -/
theorem exists_of_encode {a : Address} {payload packet : Bytes}
    (h : encode a payload = .ok packet) :
    ∃ b, a.encode = .ok b ∧ packet = 0 :: 0 :: 0 :: (b ++ payload) ∧
      decode packet = .ok (a, payload) := by
  unfold encode at h
  cases ha : a.encode with
  | error f =>
    rw [ha] at h
    cases h
  | ok b =>
    rw [ha] at h
    cases h
    have hparse := Address.parse_append payload (Address.parse_encode ha)
    exact ⟨b, rfl, rfl, decode_of_parse _ _ hparse⟩

/-- What is read has been written behind the two reserved bytes, whatever these are. -/
theorem decode_eq_ok_iff {a : Address} {payload : Bytes} : decode q = .ok (a, payload) ↔
    ∃ x y w, a.encode = .ok w ∧ q = x :: y :: 0 :: (w ++ payload) := by
  constructor
  · intro h
    by_cases hl : q.length < 4
    · rw [decode_of_length_lt hl] at h
      cases h
    · obtain ⟨x, y, k, tail, rfl, ht⟩ := exists_header (Nat.le_of_not_lt hl)
      by_cases hk : k = 0
      · subst hk
        rw [decode_unfragmented] at h
        split at h
        · rename_i found hp
          cases h
          obtain ⟨w, he, rfl⟩ := Address.exists_encode_of_parse hp
          exact ⟨x, y, w, he, rfl⟩
        · cases h
        · cases h
      · rw [decode_of_fragment ht hk] at h
        cases h
  · rintro ⟨x, y, w, he, rfl⟩
    exact decode_of_parse _ _ (Address.parse_append payload (Address.parse_encode he))

theorem decode_eq_short_iff : decode q = .error .shortPacket ↔
    q.length < 4 ∨ q[2]? = some 0 ∧ Address.Lacking (q.drop 3) := by
  by_cases hl : q.length < 4
  · simp [decode_of_length_lt hl, hl]
  · obtain ⟨x, y, k, tail, rfl, ht⟩ := exists_header (Nat.le_of_not_lt hl)
    simp only [hl, false_or, List.getElem?_cons_succ, List.getElem?_cons_zero,
      Option.some.injEq, List.drop_succ_cons, List.drop_zero]
    by_cases hk : k = 0
    · subst hk
      rw [decode_unfragmented, ← Address.parse_eq_none_iff]
      split
      · rename_i hp
        simp [hp]
      · rename_i hp
        simp [hp]
      · rename_i f hp
        rcases Address.fault_of_parse hp with rfl | ⟨kind, rfl⟩ <;> simp [hp]
    · simp [decode_of_fragment ht hk, hk]

theorem decode_eq_fragment_iff : decode q = .error .fragment ↔
    4 ≤ q.length ∧ q[2]? ≠ some 0 := by
  by_cases hl : q.length < 4
  · simp [decode_of_length_lt hl, Nat.not_le.mpr hl]
  · obtain ⟨x, y, k, tail, rfl, ht⟩ := exists_header (Nat.le_of_not_lt hl)
    simp only [Nat.le_of_not_lt hl, true_and, List.getElem?_cons_succ, List.getElem?_cons_zero,
      ne_eq, Option.some.injEq]
    by_cases hk : k = 0
    · subst hk
      rw [decode_unfragmented]
      split
      · simp
      · simp
      · rename_i f hp
        rcases Address.fault_of_parse hp with rfl | ⟨kind, rfl⟩ <;> simp
    · simp [decode_of_fragment ht hk, hk]

/-- **A packet is read as it was written, and nothing else is read as one.** For an address that
fits a packet is written and read back, with any payload. A byte string is read as a packet exactly
if it is long enough, is no fragment, and has the written form of an address from the fourth byte
on; what is written for that is the same byte string with zeros for its reserved bytes. It is too
short exactly if it lacks the header or, not being a fragment, a part of its address; and it is
refused as a fragment exactly if it has the header and a fragment number. -/
theorem packet_form_is_exact :
    (∀ (a : Address) (payload : Bytes), a.Fits →
      ∃ q, encode a payload = .ok q ∧ decode q = .ok (a, payload)) ∧
    ∀ q : Bytes,
      ((∃ found, decode q = .ok found) ↔
        4 ≤ q.length ∧ q[2]? = some 0 ∧ ∃ a w, Address.Writes a w ∧ w <+: q.drop 3) ∧
      (∀ a payload, decode q = .ok (a, payload) →
        encode a payload = .ok (0 :: 0 :: q.drop 2)) ∧
      (decode q = .error .shortPacket ↔
        q.length < 4 ∨ q[2]? = some 0 ∧ Address.Lacking (q.drop 3)) ∧
      (decode q = .error .fragment ↔ 4 ≤ q.length ∧ q[2]? ≠ some 0) := by
  refine ⟨fun a payload hfits => ?_, fun q => ⟨⟨?_, ?_⟩, ?_, decode_eq_short_iff,
    decode_eq_fragment_iff⟩⟩
  · obtain ⟨w, he⟩ := Address.exists_encode_of_fits hfits
    have hq : encode a payload = .ok (0 :: 0 :: 0 :: w ++ payload) := by
      simp [encode, he, Except.map]
    obtain ⟨-, -, -, hd⟩ := exists_of_encode hq
    exact ⟨_, hq, hd⟩
  · rintro ⟨⟨a, payload⟩, h⟩
    obtain ⟨x, y, w, he, rfl⟩ := decode_eq_ok_iff.mp h
    have hpos : 0 < w.length := by
      rw [Address.length_of_encode he]
      exact a.encodedLength_pos
    refine ⟨?_, rfl, a, w, Address.writes_of_encode he, List.prefix_append w payload⟩
    simp only [List.length_cons, List.length_append]
    omega
  · rintro ⟨hl, hk, a, w, hw, payload, htail⟩
    obtain ⟨x, y, k, tail, rfl, -⟩ := exists_header hl
    obtain rfl : k = 0 := Option.some.inj hk
    obtain rfl : w ++ payload = tail := htail
    exact ⟨(a, payload), decode_eq_ok_iff.mpr ⟨x, y, w, Address.encode_of_writes hw, rfl⟩⟩
  · intro a payload h
    obtain ⟨x, y, w, he, rfl⟩ := decode_eq_ok_iff.mp h
    simp [encode, he, Except.map]

theorem packet_to_name_is_read_back :
    let a : Address := .domain "db" 53
    a.Fits ∧ (∃ q, encode a [1, 2] = .ok q ∧ decode q = .ok (a, [1, 2])) ∧
      decode [7, 9, 0, 3, 2, 100, 98, 0, 53, 1, 2] = .ok (a, [1, 2]) ∧
      encode a [1, 2] = .ok [0, 0, 0, 3, 2, 100, 98, 0, 53, 1, 2] := by
  intro a
  have hfits : a.Fits := by
    unfold Address.Fits
    decide
  obtain ⟨hwrites, hreads⟩ := packet_form_is_exact
  obtain ⟨-, hback, -, -⟩ := hreads [7, 9, 0, 3, 2, 100, 98, 0, 53, 1, 2]
  have hd : decode [7, 9, 0, 3, 2, 100, 98, 0, 53, 1, 2] = .ok (a, [1, 2]) :=
    decode_of_parse _ _ (Address.parse_append [1, 2] (Address.parse_encode (a := a) rfl))
  exact ⟨hfits, hwrites a [1, 2] hfits, hd, hback a [1, 2] hd⟩

end Packet

end SocksChain.Socks
