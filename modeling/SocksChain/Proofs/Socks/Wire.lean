import SocksChain.Proofs.Socks.Errand

/-!
Addresses on the wire. What is written of an address is read as this address, whatever comes behind
it, and nothing shorter is; and whatever is read as an address begins with just what is written of
it. So reading knows where an address ends, and more bytes never make it think again.
-/

namespace SocksChain.Socks.Address

/-- An IP address, or a name whose bytes can be counted in one byte. -/
def Fits : Address → Prop
  | ip _ => True
  | domain name _ => (Bytes.ofText name).length ≤ 255

/-- Writing puts down `w`, wherever it is written. -/
def Writes (a : Address) (w : Bytes) : Prop :=
  ∀ buffer, a.write.run buffer = (.ok (), buffer ++ w)

theorem writes_of_encode {a : Address} {w : Bytes} (h : a.encode = .ok w) : a.Writes w := by
  intro buffer
  rw [run_write, h]

theorem exists_encode_of_fits {a : Address} (h : a.Fits) : ∃ w, a.encode = .ok w := by
  match a, h with
  | ip ⟨.v4 _, _⟩, _ => exact ⟨_, rfl⟩
  | ip ⟨.v6 _, _⟩, _ => exact ⟨_, rfl⟩
  | domain name p, h => exact ⟨_, if_neg (Nat.not_lt.mpr h)⟩

theorem encode_of_not_fits {a : Address} (h : ¬ a.Fits) : ∃ name p, a = domain name p ∧
    a.encode = .error (.domainLength (Bytes.ofText name).length) := by
  match a, h with
  | ip _, h => exact absurd trivial h
  | domain name p, h => exact ⟨name, p, rfl, if_pos (Nat.not_le.mp h)⟩

theorem encode_of_parseV4 {b rest : Bytes} {a : Address} (h : parseV4 b = some (a, rest)) :
    ∃ w, a.encode = .ok (AddressType.v4 :: w) ∧ b = w ++ rest := by
  unfold parseV4 at h
  split at h
  · rename_i x0 x1 x2 x3 p q _
    cases h
    refine ⟨[x0, x1, x2, x3, p, q], ?_, rfl⟩
    simp only [encode, Ip.V4.octets, Bytes.ofWord_word, List.cons_append, List.nil_append]
  · cases h

theorem encode_of_parseV6 {b rest : Bytes} {a : Address} (h : parseV6 b = some (a, rest)) :
    ∃ w, a.encode = .ok (AddressType.v6 :: w) ∧ b = w ++ rest := by
  unfold parseV6 at h
  split at h
  · rename_i a0 a1 b0 b1 c0 c1 d0 d1 e0 e1 f0 f1 g0 g1 h0 h1 p q _
    cases h
    refine ⟨[a0, a1, b0, b1, c0, c1, d0, d1, e0, e1, f0, f1, g0, g1, h0, h1, p, q], ?_, rfl⟩
    simp only [encode, Ip.V6.octets, Ip.V6.groups, List.flatMap_cons, List.flatMap_nil,
      Bytes.ofWord_word, List.cons_append, List.nil_append]
  · cases h

theorem encode_of_parseDomain {b rest : Bytes} {a : Address}
    (h : parseDomain b = .ok (some (a, rest))) :
    ∃ w, a.encode = .ok (AddressType.domain :: w) ∧ b = w ++ rest := by
  unfold parseDomain at h
  split at h
  · cases h
  · rename_i n body
    split at h
    · rename_i p q tail hd
      split at h
      · rename_i name hname
        cases h
        have hn : n.toNat ≤ body.length := by
          have hl := congrArg List.length hd
          simp only [List.length_drop, List.length_cons] at hl
          omega
        have hlen : (body.take n.toNat).length = n.toNat := List.length_take_of_le hn
        have hfits : ¬ 255 < n.toNat := Nat.not_lt.mpr (Nat.le_of_lt_succ n.toNat_lt)
        refine ⟨n :: (body.take n.toNat ++ [p, q]), ?_, ?_⟩
        · simp only [encode, Bytes.ofText_of_toText? hname, hlen, if_neg hfits, UInt8.ofNat_toNat,
            Bytes.ofWord_word, List.cons_append]
        · rw [List.cons_append, List.append_assoc, List.cons_append, List.cons_append,
            List.nil_append, ← hd, List.take_append_drop]
      · cases h
    · cases h

/-- Whatever is read as an address begins with what is written of it. -/
theorem exists_encode_of_parse {b rest : Bytes} {a : Address}
    (h : parse b = .ok (some (a, rest))) : ∃ w, a.encode = .ok w ∧ b = w ++ rest := by
  unfold parse at h
  split at h
  · cases h
  · rename_i kind body
    split at h
    · rename_i hk
      obtain ⟨w, he, rfl⟩ := encode_of_parseV4 (Except.ok.inj h)
      exact ⟨_, he, by rw [hk]; rfl⟩
    · split at h
      · rename_i hk
        obtain ⟨w, he, rfl⟩ := encode_of_parseV6 (Except.ok.inj h)
        exact ⟨_, he, by rw [hk]; rfl⟩
      · split at h
        · rename_i hk
          obtain ⟨w, he, rfl⟩ := encode_of_parseDomain h
          exact ⟨_, he, by rw [hk]; rfl⟩
        · cases h

/-- As long as a byte of an address is missing, reading waits for it. -/
theorem parse_of_strict_prefix {a : Address} {w front : Bytes} (h : a.encode = .ok w)
    (hp : front <+: w) (hne : front ≠ w) : parse front = .ok none := by
  obtain ⟨t, rfl⟩ := hp
  -- A decision on the front would be the decision on the whole, which leaves nothing.
  refine Classical.byContradiction fun hdecided => ?_
  have hwhole := steady_parse front t hdecided
  rw [parse_encode h] at hwhole
  match hfront : parse front, hwhole with
  | .ok none, _ => exact hdecided hfront
  | .ok (some (_, rest)), hwhole =>
    have hrest : [] = rest ++ t := congrArg Prod.snd (Option.some.inj (Except.ok.inj hwhole))
    have ht : t = [] := (List.append_eq_nil_iff.mp hrest.symm).2
    exact hne (by rw [ht, List.append_nil])
  | .error _, hwhole => cases hwhole

/-- **An address is read as it was written, and nothing else is read as one.** An address that fits
has one written form, of the announced length: with anything behind it, it is read as this address,
and no shorter part of it is. One that does not fit is refused, and nothing of it is written. And
whatever a byte string is read as, it begins with the written form of it, and is read so with
anything more behind it; what is wrong with a byte string is also wrong with every longer one. -/
theorem wire_form_is_exact (a : Address) :
    (a.Fits → ∃ w, a.Writes w ∧ w.length = a.encodedLength ∧
      (∀ t, parse (w ++ t) = .ok (some (a, t))) ∧
      ∀ front, front <+: w → front ≠ w → parse front = .ok none) ∧
    (¬ a.Fits → ∃ name p, a = domain name p ∧
      ∀ buffer, a.write.run buffer = (.error (.domainLength (Bytes.ofText name).length), buffer)) ∧
    (∀ b rest, parse b = .ok (some (a, rest)) → ∃ w, a.Writes w ∧ w.length = a.encodedLength ∧
      b = w ++ rest ∧ ∀ t, parse (b ++ t) = .ok (some (a, rest ++ t))) ∧
    ∀ b f, parse b = .error f → ∀ t, parse (b ++ t) = .error f := by
  refine ⟨fun hfits => ?_, fun hfits => ?_, fun b rest h => ?_, fun b f h t => ?_⟩
  · obtain ⟨w, he⟩ := exists_encode_of_fits hfits
    exact ⟨w, writes_of_encode he, length_of_encode he,
      fun t => parse_append t (parse_encode he), fun front => parse_of_strict_prefix he⟩
  · obtain ⟨name, p, ha, he⟩ := encode_of_not_fits hfits
    exact ⟨name, p, ha, fun buffer => by rw [run_write, he]⟩
  · obtain ⟨w, he, hb⟩ := exists_encode_of_parse h
    exact ⟨w, writes_of_encode he, length_of_encode he, hb, fun t => parse_append t h⟩
  · rw [steady_parse b t (by rw [h]; exact nofun), h]
    rfl

theorem wire_form_of_name_is_exact :
    (domain "db" 5432).Fits ∧ ∃ w, (domain "db" 5432).Writes w ∧ w.length = 6 ∧
      parse (w ++ [0, 1]) = .ok (some (domain "db" 5432, [0, 1])) ∧
      parse (w.take 5) = .ok none := by
  have hfits : (domain "db" 5432).Fits := by
    unfold Fits
    decide
  obtain ⟨w, hw, hl, hparse, hfront⟩ := (wire_form_is_exact (domain "db" 5432)).1 hfits
  have hl : w.length = 6 := hl
  refine ⟨hfits, w, hw, hl, hparse [0, 1], hfront _ (List.take_prefix 5 w) fun he => ?_⟩
  have := congrArg List.length he
  rw [List.length_take, hl] at this
  omega

end SocksChain.Socks.Address
