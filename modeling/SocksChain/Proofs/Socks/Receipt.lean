import SocksChain.Proofs.Channel.Faithful
import SocksChain.Proofs.Channel.Reading
import SocksChain.Proofs.Socks.Wire

/-!
An address that is read off a channel, and the same bytes in one piece. The first bytes tell how
many are still missing, and these are all that is taken; so however the bytes are cut, what is read
off the channel is what is read of them at once. Where reading at once would wait, the channel ends
too early.
-/

namespace SocksChain.Socks.Address

open Channel

/-- What is read first, and how much it says is still missing. -/
inductive Front : Bytes → Nat → Prop
  | v4 : Front [AddressType.v4] 6
  | v6 : Front [AddressType.v6] 18
  | domain (n : UInt8) : Front [AddressType.domain, n] (n.toNat + 2)

variable {front body s w left : Bytes} {size : Nat}

theorem parseV4_of_length (h : body.length = 6) : ∃ a, parseV4 body = some (a, []) := by
  match body, h with
  | [_, _, _, _, _, _], _ => exact ⟨_, rfl⟩

theorem parseV6_of_length (h : body.length = 18) : ∃ a, parseV6 body = some (a, []) := by
  match body, h with
  | [_, _, _, _, _, _, _, _, _, _, _, _, _, _, _, _, _, _], _ => exact ⟨_, rfl⟩

theorem parseDomain_of_length {n : UInt8} (h : body.length = n.toNat + 2) :
    (∃ a, parseDomain (n :: body) = .ok (some (a, []))) ∨
      parseDomain (n :: body) = .error (.notUtf8 "domain") := by
  have hport : (body.drop n.toNat).length = 2 := by
    rw [List.length_drop, h, Nat.add_sub_cancel_left]
  match hd : body.drop n.toNat, hport with
  | [p, q], _ =>
    simp only [parseDomain, hd]
    cases Bytes.toText? (body.take n.toNat) with
    | some name => exact .inl ⟨_, rfl⟩
    | none => exact .inr rfl

/-- Nothing more than the front has said is missing. -/
theorem Front.parse_of_length (hf : Front front size) (h : body.length = size) :
    (∃ a, parse (front ++ body) = .ok (some (a, []))) ∨
      ∃ n, front = [AddressType.domain, n] ∧ size = n.toNat + 2 ∧
        parse (front ++ body) = .error (.notUtf8 "domain") := by
  cases hf with
  | v4 =>
    obtain ⟨a, ha⟩ := parseV4_of_length h
    exact .inl ⟨a, congrArg Except.ok ha⟩
  | v6 =>
    obtain ⟨a, ha⟩ := parseV6_of_length h
    exact .inl ⟨a, congrArg Except.ok ha⟩
  | domain n =>
    rcases parseDomain_of_length h with ha | he
    · exact .inl ha
    · exact .inr ⟨n, rfl, rfl, he⟩

theorem parseV4_of_lt (h : body.length < 6) : parseV4 body = none := by
  unfold parseV4
  split
  · simp only [List.length_cons] at h
    omega
  · rfl

theorem parseV6_of_lt (h : body.length < 18) : parseV6 body = none := by
  unfold parseV6
  split
  · simp only [List.length_cons] at h
    omega
  · rfl

theorem parseDomain_of_lt {n : UInt8} (h : body.length < n.toNat + 2) :
    parseDomain (n :: body) = .ok none := by
  simp only [parseDomain]
  split
  · rename_i p q rest hd
    have hl := congrArg List.length hd
    simp only [List.length_drop, List.length_cons] at hl
    omega
  · rfl

/-- And nothing less. -/
theorem Front.parse_of_lt (hf : Front front size) (h : body.length < size) :
    parse (front ++ body) = .ok none := by
  cases hf with
  | v4 => exact congrArg Except.ok (parseV4_of_lt h)
  | v6 => exact congrArg Except.ok (parseV6_of_lt h)
  | domain n => exact parseDomain_of_lt h

/-- What comes of reading `w` off a channel, and what is left on it, by what `w` is read as at
once. -/
inductive Received (w : Bytes) : Except Failure Address → Bytes → Prop
  | address {a : Address} {left : Bytes} :
      parse w = .ok (some (a, left)) → Received w (.ok a) left
  | unknownType {kind : UInt8} {left : Bytes} :
      parse w = .error (.addressType kind) → w = kind :: left →
      Received w (.error (.socks (.addressType kind))) left
  | notUtf8 {n : UInt8} {body left : Bytes} :
      parse w = .error (.notUtf8 "domain") → w = AddressType.domain :: n :: body ++ left →
      body.length = n.toNat + 2 → Received w (.error (.socks (.notUtf8 "domain"))) left
  | ended {e : IoError} :
      parse w = .ok none → e.kind = .unexpectedEof → Received w (.error (.io e)) []

/-- A type that is refused is none of the known ones. -/
theorem ne_of_parse_eq_error {kind : UInt8} (h : parse w = .error (.addressType kind)) :
    kind ≠ AddressType.v4 ∧ kind ≠ AddressType.v6 ∧ kind ≠ AddressType.domain := by
  unfold parse at h
  split at h
  · cases h
  · split at h
    · cases h
    · rename_i h4
      split at h
      · cases h
      · rename_i h6
        split at h
        · unfold parseDomain at h
          split at h
          · cases h
          · split at h
            · split at h <;> cases h
            · cases h
        · rename_i hd
          cases h
          exact ⟨h4, h6, hd⟩

section Receiving

variable {P : Inlet → Bytes → Prop} {l : Link}

/-- The rest of an address is what its front has said is missing. -/
theorem run_finish (hP : Bringing P) (hf : Front front size) (h : P l.inlet s) :
    ∃ r i left, Dialogue.run (receive.finish front size) l = (.done r, { l with inlet := i }) ∧
      P i left ∧ Received (front ++ s) r left := by
  unfold receive.finish Exchange.readExact
  by_cases hlt : s.length < size
  · obtain ⟨i, hr, hi⟩ := Exchange.run_readOn_of_lt hP h hlt []
    exact ⟨_, i, [], Exchange.run_bind_error _ hr, hi, .ended (hf.parse_of_lt hlt) rfl⟩
  · have hle : size ≤ s.length := Nat.not_lt.mp hlt
    have hbody : (s.take size).length = size := List.length_take_of_le hle
    have hs : front ++ s = front ++ s.take size ++ s.drop size := by
      rw [List.append_assoc, List.take_append_drop]
    obtain ⟨i, hr, hi⟩ := Exchange.run_readOn_of_le hP h hle []
    rw [List.nil_append] at hr
    rw [Exchange.run_bind _ hr]
    rcases hf.parse_of_length hbody with ⟨a, ha⟩ | ⟨n, rfl, rfl, he⟩
    · refine ⟨.ok a, i, _, by rw [ha]; rfl, hi, .address ?_⟩
      rw [hs]
      exact parse_append _ ha
    · refine ⟨_, i, _, by rw [he]; rfl, hi, .notUtf8 ?_ hs hbody⟩
      rw [hs, steady_parse _ _ (by rw [he]; exact nofun), he]
      rfl

/-- The count of a name is read by itself. -/
theorem run_counted (hP : Bringing P) (h : P l.inlet s) :
    ∃ r i left, Dialogue.run (Exchange.readByte >>= fun n =>
        receive.finish [AddressType.domain, n] (n.toNat + 2) : Exchange Address) l =
        (.done r, { l with inlet := i }) ∧
      P i left ∧ Received (AddressType.domain :: s) r left := by
  match s, h with
  | [], h =>
    obtain ⟨i, hr, hi⟩ := Exchange.run_readByte_nil hP h
    exact ⟨_, i, [], Exchange.run_bind_error _ hr, hi, .ended rfl rfl⟩
  | n :: s, h =>
    obtain ⟨i, hr, hi⟩ := Exchange.run_readByte_cons hP h
    rw [Exchange.run_bind _ hr]
    exact run_finish hP (.domain n) hi

theorem run_receive (hP : Bringing P) (h : P l.inlet w) :
    ∃ r i left, Dialogue.run receive l = (.done r, { l with inlet := i }) ∧ P i left ∧
      Received w r left := by
  unfold receive
  match w, h with
  | [], h =>
    obtain ⟨i, hr, hi⟩ := Exchange.run_readByte_nil hP h
    exact ⟨_, i, [], Exchange.run_bind_error _ hr, hi, .ended rfl rfl⟩
  | kind :: s, h =>
    obtain ⟨i, hr, hi⟩ := Exchange.run_readByte_cons hP h
    rw [Exchange.run_bind _ hr]
    split
    · rename_i hk
      rw [hk]
      exact run_finish hP .v4 hi
    · rename_i h4
      split
      · rename_i hk
        rw [hk]
        exact run_finish hP .v6 hi
      · rename_i h6
        split
        · rename_i hk
          rw [hk]
          exact run_counted hP hi
        · rename_i hd
          refine ⟨_, i, s, rfl, hi, .unknownType ?_ rfl⟩
          simp only [parse, if_neg h4, if_neg h6, if_neg hd]

/-- **Reading an address off a channel agrees with reading it at once**, however the bytes are cut
and whatever cipher lies over them. An address is the same one, and exactly what stands behind it
is left; an unknown type costs one byte, a name that is not UTF-8 the whole of the address; and
where bytes are missing the channel has ended too early. No known type is ever refused as
unknown. -/
theorem receive_agrees_with_parse (h : l.inlet.Brings w) :
    ∃ r i left, Dialogue.run receive l = (.done r, { l with inlet := i }) ∧ i.Brings left ∧
      Received w r left ∧
      ∀ kind, r = .error (.socks (.addressType kind)) →
        kind ≠ AddressType.v4 ∧ kind ≠ AddressType.v6 ∧ kind ≠ AddressType.domain := by
  obtain ⟨r, i, left, hr, hi, hreceived⟩ := run_receive bringing_brings h
  refine ⟨r, i, left, hr, hi, hreceived, ?_⟩
  rintro kind rfl
  cases hreceived with
  | unknownType hp _ => exact ne_of_parse_eq_error hp

theorem address_received_in_pieces :
    Inlet.Brings ⟨⟨[.chunk [3], .notReady, .chunk [1, 97], .chunk [0, 80, 9]], true⟩, none⟩
        [3, 1, 97, 0, 80, 9] ∧
      ∃ i : Inlet, Dialogue.run receive ⟨⟨⟨[.chunk [3], .notReady, .chunk [1, 97],
          .chunk [0, 80, 9]], true⟩, none⟩, {}⟩ = (.done (.ok (.domain "a" 80)), ⟨i, {}⟩) ∧
        i.Brings [9] := by
  have hin : Inlet.Brings
      ⟨⟨[.chunk [3], .notReady, .chunk [1, 97], .chunk [0, 80, 9]], true⟩, none⟩
      [3, 1, 97, 0, 80, 9] := by
    refine ⟨_, ⟨rfl, ?_, rfl⟩, rfl⟩
    simp [Arrival.Delivers]
  have hparse : parse [3, 1, 97, 0, 80, 9] = .ok (some (.domain "a" 80, [9])) :=
    parse_append [9] (parse_encode (a := .domain "a" 80) rfl)
  obtain ⟨r, i, left, hr, hi, hreceived, -⟩ :=
    receive_agrees_with_parse (w := [3, 1, 97, 0, 80, 9]) (l := ⟨_, {}⟩) hin
  refine ⟨hin, i, ?_⟩
  cases hreceived with
  | address hp =>
    rw [hparse] at hp
    cases hp
    exact ⟨hr, hi⟩
  | unknownType hp => cases hparse.symm.trans hp
  | notUtf8 hp => cases hparse.symm.trans hp
  | ended hp => cases hparse.symm.trans hp

end Receiving

end SocksChain.Socks.Address
