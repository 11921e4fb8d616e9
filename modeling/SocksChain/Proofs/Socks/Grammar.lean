import SocksChain.Proofs.Socks.Steady
import SocksChain.Socks.Reception

/-!
The grammar of a handshake that is accepted: a greeting that offers the wanted method, the
configured name and password where they are wanted, and one request. Each reader finds a message
exactly where the grammar has one.
-/

namespace SocksChain.Socks

namespace Address

theorem exists_of_parseV4 {b rest : Bytes} {a : Address} (h : parseV4 b = some (a, rest)) :
    ∃ front, b = front ++ rest ∧ parseV4 front = some (a, []) := by
  unfold parseV4 at h
  split at h
  · rename_i x0 x1 x2 x3 p q _
    cases h
    exact ⟨[x0, x1, x2, x3, p, q], rfl, rfl⟩
  · cases h

theorem exists_of_parseV6 {b rest : Bytes} {a : Address} (h : parseV6 b = some (a, rest)) :
    ∃ front, b = front ++ rest ∧ parseV6 front = some (a, []) := by
  unfold parseV6 at h
  split at h
  · rename_i a0 a1 b0 b1 c0 c1 d0 d1 e0 e1 f0 f1 g0 g1 h0 h1 p q _
    cases h
    exact ⟨[a0, a1, b0, b1, c0, c1, d0, d1, e0, e1, f0, f1, g0, g1, h0, h1, p, q], rfl, rfl⟩
  · cases h

theorem exists_of_parseDomain {b rest : Bytes} {a : Address}
    (h : parseDomain b = .ok (some (a, rest))) :
    ∃ front, b = front ++ rest ∧ parseDomain front = .ok (some (a, [])) := by
  unfold parseDomain at h
  split at h
  · cases h
  · rename_i n body
    split at h
    · rename_i p q tail hd
      split at h
      · rename_i name hname
        cases h
        have hn : n.toNat ≤ body.length := by
          have hl := congrArg List.length hd
          simp only [List.length_drop, List.length_cons] at hl
          omega
        have ht : (body.take n.toNat).length = n.toNat := by
          rw [List.length_take]
          omega
        refine ⟨n :: (body.take n.toNat ++ [p, q]), ?_, ?_⟩
        · have hb := List.take_append_drop n.toNat body
          rw [hd] at hb
          simpa using hb.symm
        · have hfd : (body.take n.toNat ++ [p, q]).drop n.toNat = [p, q] := by
            rw [List.drop_append_of_le_length (by omega), List.drop_of_length_le (by omega)]
            rfl
          have hft : (body.take n.toNat ++ [p, q]).take n.toNat = body.take n.toNat := by
            rw [List.take_append_of_le_length (by omega), List.take_of_length_le (by omega)]
          simp only [parseDomain, hfd, hft, hname]
      · cases h
    · cases h

/-- An address that is found at the front of a byte string is a whole byte string of its own. -/
theorem exists_of_parse {b rest : Bytes} {a : Address} (h : parse b = .ok (some (a, rest))) :
    ∃ kind front, b = kind :: front ++ rest ∧ parse (kind :: front) = .ok (some (a, [])) := by
  unfold parse at h
  split at h
  · cases h
  · rename_i kind body
    split at h
    · rename_i hk
      obtain ⟨front, rfl, hf⟩ := exists_of_parseV4 (Except.ok.inj h)
      exact ⟨kind, front, rfl, by simp only [parse, if_pos hk, hf]⟩
    · rename_i hk4
      split at h
      · rename_i hk
        obtain ⟨front, rfl, hf⟩ := exists_of_parseV6 (Except.ok.inj h)
        exact ⟨kind, front, rfl, by simp only [parse, if_neg hk4, if_pos hk, hf]⟩
      · rename_i hk6
        split at h
        · rename_i hk
          obtain ⟨front, rfl, hf⟩ := exists_of_parseDomain h
          exact ⟨kind, front, rfl, by simp only [parse, if_neg hk4, if_neg hk6, if_pos hk, hf]⟩
        · cases h

theorem parse_append {b rest : Bytes} {a : Address} (t : Bytes)
    (h : parse b = .ok (some (a, rest))) : parse (b ++ t) = .ok (some (a, rest ++ t)) := by
  rw [steady_parse b t (by rw [h]; simp), h]
  rfl

end Address

theorem readGreeting_eq_some_iff {b methods rest : Bytes} :
    readGreeting b = .ok (some (methods, rest)) ↔
      ∃ n : UInt8, b = protocolVersion :: n :: methods ++ rest ∧ 1 ≤ n.toNat ∧
        n.toNat = methods.length := by
  constructor
  · intro h
    rcases b with _ | ⟨v, _ | ⟨n, tail⟩⟩
    · cases h
    · by_cases hv : v = protocolVersion <;> simp [readGreeting, hv] at h
    · by_cases hv : v = protocolVersion
      · by_cases hn : n = 0
        · simp [readGreeting, hv, hn] at h
        · by_cases hl : tail.length < n.toNat
          · simp [readGreeting, hv, hn, hl] at h
          · simp only [readGreeting, hv, hn, hl, ne_eq, not_true_eq_false, if_false] at h
            cases h
            have hpos : n.toNat ≠ 0 := fun he => hn (UInt8.toNat_inj.mp he)
            refine ⟨n, ?_, by omega, ?_⟩
            · rw [hv, List.cons_append, List.cons_append, List.take_append_drop]
            · rw [List.length_take]
              omega
      · simp [readGreeting, hv] at h
  · intro h
    obtain ⟨n, rfl, hpos, hl⟩ := h
    have hn : n ≠ 0 := by
      rintro rfl
      simp at hpos
    simp [readGreeting, hn, hl]

theorem readPassword_eq_some_iff {b name secret rest : Bytes} :
    readPassword b = .ok (some ((name, secret), rest)) ↔
      ∃ n k : UInt8, b = passwordVersion :: n :: (name ++ k :: secret) ++ rest ∧
        n.toNat = name.length ∧ k.toNat = secret.length := by
  constructor
  · intro h
    rcases b with _ | ⟨v, _ | ⟨n, body⟩⟩
    · cases h
    · by_cases hv : v = passwordVersion <;> simp [readPassword, hv] at h
    · by_cases hv : v = passwordVersion
      · rcases hd : body.drop n.toNat with _ | ⟨k, tail⟩
        · simp [readPassword, hv, hd] at h
        · by_cases hl : tail.length < k.toNat
          · simp [readPassword, hv, hd, hl] at h
          · simp only [readPassword, hv, hd, hl, ne_eq, not_true_eq_false, if_false] at h
            cases h
            have hn := congrArg List.length hd
            simp only [List.length_drop, List.length_cons] at hn
            refine ⟨n, k, ?_, ?_, ?_⟩
            · have hb := List.take_append_drop n.toNat body
              rw [hd] at hb
              rw [hv]
              simpa using hb.symm
            · rw [List.length_take]
              omega
            · rw [List.length_take]
              omega
      · simp [readPassword, hv] at h
  · intro h
    obtain ⟨n, k, rfl, hn, hk⟩ := h
    simp [readPassword, hn, hk]

theorem readRequest_eq_some_iff {b rest : Bytes} {r : Request} :
    readRequest b = .ok (some (r, rest)) ↔
      ∃ reserved front, b = protocolVersion :: r.command :: reserved :: r.kind :: front ++ rest ∧
        Address.parse (r.kind :: front) = .ok (some (r.address, [])) := by
  constructor
  · intro h
    rcases b with _ | ⟨v, body⟩
    · cases h
    · by_cases hv : v = protocolVersion
      · rcases body with _ | ⟨command, _ | ⟨reserved, _ | ⟨kind, tail⟩⟩⟩
        · simp [readRequest, hv] at h
        · simp [readRequest, hv] at h
        · simp [readRequest, hv] at h
        · simp only [readRequest, hv, ne_eq, not_true_eq_false, if_false] at h
          rcases hp : Address.parse (kind :: tail) with f | _ | ⟨a, more⟩
          · simp [hp, Except.map] at h
          · simp [hp, Except.map] at h
          · rw [hp] at h
            simp only [Except.map, Option.map_some] at h
            cases h
            obtain ⟨kind', front, hb, hf⟩ := Address.exists_of_parse hp
            rw [List.cons_append] at hb
            obtain ⟨rfl, rfl⟩ := List.cons.inj hb
            exact ⟨reserved, front, by rw [hv]; rfl, hf⟩
      · simp [readRequest, hv] at h
  · intro h
    obtain ⟨reserved, front, rfl, hf⟩ := h
    have hp := Address.parse_append rest hf
    rw [List.cons_append, List.nil_append] at hp
    simp [readRequest, hp, Except.map]

/-- The message in which a client presents exactly these credentials. -/
def Presents (c : Credentials) (p : Bytes) : Prop :=
  ∃ n k : UInt8, p = passwordVersion :: n :: (Bytes.ofText c.username ++
      k :: Bytes.ofText c.password) ∧
    n.toNat = (Bytes.ofText c.username).length ∧ k.toNat = (Bytes.ofText c.password).length

/-- A request for an intent, with any reserved byte and one whole address. An association is bound
as `relay` says. -/
inductive Asks (registrations : Bool) (relay : Except IoError Ip.Socket) : Bytes → Intent → Prop
  | connect {reserved : UInt8} {b : Bytes} {a : Address} :
      Address.parse b = .ok (some (a, [])) →
      Asks registrations relay (protocolVersion :: Command.connect :: reserved :: b)
        (.connect a.toEndpoint)
  | associate {reserved : UInt8} {b : Bytes} {a : Address} {bound : Ip.Socket} :
      Address.parse b = .ok (some (a, [])) → relay = .ok bound →
      Asks registrations relay (protocolVersion :: Command.associate :: reserved :: b)
        (.associate bound)
  | register {reserved : UInt8} {b : Bytes} {a : Address} :
      Address.parse b = .ok (some (a, [])) → registrations = true →
      Asks registrations relay (protocolVersion :: Command.register :: reserved :: b)
        (.register a.toEndpoint)

namespace Negotiation

/-- A greeting that offers the method the negotiation wants. -/
def Greets (m : Negotiation) (g : Bytes) : Prop :=
  ∃ (n : UInt8) (methods : Bytes), g = protocolVersion :: n :: methods ∧ 1 ≤ n.toNat ∧
    n.toNat = methods.length ∧ m.wantedMethod ∈ methods

/-- What a client has to say between its greeting and its request. -/
def Proves (m : Negotiation) (p : Bytes) : Prop :=
  if m.requiresPassword then ∃ c, m.credentials = some c ∧ Presents c p else p = []

end Negotiation

end SocksChain.Socks
