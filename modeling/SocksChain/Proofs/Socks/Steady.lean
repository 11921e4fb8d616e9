import SocksChain.Socks.Negotiation

/-!
What a reader has decided on a byte string, further bytes do not change: a message that has been
found is found again, with more behind it, and a fault stays the same fault. So a turn of the
negotiation that does not wait is the same turn on every longer byte string.
-/

namespace SocksChain.Socks

/-- A reading with `t` behind what it has left. -/
def Reading.extend {α : Type} (r : Reading α) (t : Bytes) : Reading α :=
  r.map fun found => found.map fun p => (p.1, p.2 ++ t)

/-- A reader whose decisions stand whatever comes after them. -/
def Steady {α : Type} (read : Bytes → Reading α) : Prop :=
  ∀ b t, read b ≠ .ok none → read (b ++ t) = (read b).extend t

namespace Address

theorem parseV4_append {b rest : Bytes} {a : Address} (t : Bytes)
    (h : parseV4 b = some (a, rest)) : parseV4 (b ++ t) = some (a, rest ++ t) := by
  unfold parseV4 at h
  split at h
  · cases h
    rfl
  · cases h

theorem parseV6_append {b rest : Bytes} {a : Address} (t : Bytes)
    (h : parseV6 b = some (a, rest)) : parseV6 (b ++ t) = some (a, rest ++ t) := by
  unfold parseV6 at h
  split at h
  · cases h
    rfl
  · cases h

/-- Once the port behind a counted name has arrived, the name has arrived as well. -/
theorem parseDomain_append {n p q : UInt8} {body rest : Bytes} (t : Bytes)
    (h : body.drop n.toNat = p :: q :: rest) :
    parseDomain (n :: (body ++ t)) = Reading.extend (parseDomain (n :: body)) t := by
  have hn : n.toNat ≤ body.length := by
    have hl := congrArg List.length h
    simp only [List.length_drop, List.length_cons] at hl
    omega
  have hd : (body ++ t).drop n.toNat = p :: q :: (rest ++ t) := by
    rw [List.drop_append_of_le_length hn, h]
    rfl
  simp only [parseDomain, h, hd, List.take_append_of_le_length hn]
  cases Bytes.toText? (body.take n.toNat) with
  | none => rfl
  | some name => rfl

theorem steady_parseDomain : Steady parseDomain := by
  intro b t hb
  cases b with
  | nil => exact absurd rfl hb
  | cons n body =>
    match h : body.drop n.toNat with
    | p :: q :: rest => exact parseDomain_append t h
    | [] => exact absurd (by simp only [parseDomain, h]) hb
    | [p] => exact absurd (by simp only [parseDomain, h]) hb

theorem steady_parse : Steady parse := by
  intro b t hb
  cases b with
  | nil => exact absurd rfl hb
  | cons kind body =>
    simp only [parse, List.cons_append] at hb ⊢
    split
    · rename_i hk
      rw [if_pos hk] at hb
      cases h : parseV4 body with
      | none => exact absurd (congrArg Except.ok h) hb
      | some found => rw [parseV4_append t h]; rfl
    · rename_i hk
      rw [if_neg hk] at hb
      split
      · rename_i hk
        rw [if_pos hk] at hb
        cases h : parseV6 body with
        | none => exact absurd (congrArg Except.ok h) hb
        | some found => rw [parseV6_append t h]; rfl
      · rename_i hk
        rw [if_neg hk] at hb
        split
        · rename_i hk
          rw [if_pos hk] at hb
          exact steady_parseDomain body t hb
        · rfl

end Address

theorem steady_readGreeting : Steady readGreeting := by
  intro b t hb
  rcases b with _ | ⟨v, _ | ⟨n, methods⟩⟩
  · exact absurd rfl hb
  · by_cases hv : v = protocolVersion
    · exact absurd (by simp [readGreeting, hv]) hb
    · simp [readGreeting, hv, Reading.extend, Except.map]
  · by_cases hv : v = protocolVersion
    · by_cases hn : n = 0
      · simp [readGreeting, hv, hn, Reading.extend, Except.map]
      · by_cases hl : methods.length < n.toNat
        · exact absurd (by simp [readGreeting, hv, hn, hl]) hb
        · have hle : n.toNat ≤ methods.length := by omega
          have hlt : ¬ methods.length + t.length < n.toNat := by omega
          simp [readGreeting, hv, hn, hl, hlt, Reading.extend, Except.map,
            List.take_append_of_le_length hle, List.drop_append_of_le_length hle]
    · simp [readGreeting, hv, Reading.extend, Except.map]

theorem steady_readPassword : Steady readPassword := by
  intro b t hb
  rcases b with _ | ⟨v, _ | ⟨n, body⟩⟩
  · exact absurd rfl hb
  · by_cases hv : v = passwordVersion
    · exact absurd (by simp [readPassword, hv]) hb
    · simp [readPassword, hv, Reading.extend, Except.map]
  · by_cases hv : v = passwordVersion
    · match h : body.drop n.toNat with
      | [] => exact absurd (by simp [readPassword, hv, h]) hb
      | k :: secret =>
        have hn : n.toNat ≤ body.length := by
          have hl := congrArg List.length h
          simp only [List.length_drop, List.length_cons] at hl
          omega
        have hd : (body ++ t).drop n.toNat = k :: (secret ++ t) := by
          rw [List.drop_append_of_le_length hn, h]
          rfl
        by_cases hl : secret.length < k.toNat
        · exact absurd (by simp [readPassword, hv, h, hl]) hb
        · have hle : k.toNat ≤ secret.length := by omega
          have hlt : ¬ secret.length + t.length < k.toNat := by omega
          simp [readPassword, hv, h, hd, hl, hlt, Reading.extend, Except.map,
            List.take_append_of_le_length hn, List.take_append_of_le_length hle,
            List.drop_append_of_le_length hle]
    · simp [readPassword, hv, Reading.extend, Except.map]

theorem steady_readRequest : Steady readRequest := by
  intro b t hb
  rcases b with _ | ⟨v, body⟩
  · exact absurd rfl hb
  · by_cases hv : v = protocolVersion
    · rcases body with _ | ⟨command, _ | ⟨reserved, _ | ⟨kind, tail⟩⟩⟩
      · exact absurd (by simp [readRequest, hv]) hb
      · exact absurd (by simp [readRequest, hv]) hb
      · exact absurd (by simp [readRequest, hv]) hb
      · have hp : Address.parse (kind :: tail) ≠ .ok none := by
          intro hp
          exact hb (by simp [readRequest, hv, hp, Except.map])
        have hx := Address.steady_parse (kind :: tail) t hp
        rw [List.cons_append] at hx
        simp only [readRequest, hv, List.cons_append, ne_eq, not_true_eq_false, if_false, hx]
        cases Address.parse (kind :: tail) with
        | error f => rfl
        | ok found => cases found <;> rfl
    · simp [readRequest, hv, Reading.extend, Except.map]

/-- The same turn, with `t` behind what it has left. -/
def Turn.extend (x : Turn) (t : Bytes) : Turn := { x with rest := x.rest ++ t }

namespace Negotiation

theorem onGreeting_append (m : Negotiation) {b : Bytes} (t : Bytes)
    (h : (m.onGreeting b).outcome ≠ .needMore) :
    m.onGreeting (b ++ t) = (m.onGreeting b).extend t := by
  have hr : readGreeting b ≠ .ok none := fun hr => h (by simp [onGreeting, hr])
  unfold onGreeting
  rw [steady_readGreeting b t hr]
  match hb : readGreeting b with
  | .ok none => exact absurd hb hr
  | .error f => rfl
  | .ok (some (methods, rest)) =>
    simp only [Reading.extend, Except.map, Option.map_some]
    split <;> rfl

theorem onPassword_append (m : Negotiation) {b : Bytes} (t : Bytes)
    (h : (m.onPassword b).outcome ≠ .needMore) :
    m.onPassword (b ++ t) = (m.onPassword b).extend t := by
  have hr : readPassword b ≠ .ok none := fun hr => h (by simp [onPassword, hr])
  unfold onPassword
  rw [steady_readPassword b t hr]
  match hb : readPassword b with
  | .ok none => exact absurd hb hr
  | .error f => rfl
  | .ok (some ((name, secret), rest)) =>
    simp only [Reading.extend, Except.map, Option.map_some]
    split
    · rfl
    · rfl
    · split <;> rfl

theorem onRequest_append (m : Negotiation) {b : Bytes} (t : Bytes)
    (h : (m.onRequest b).outcome ≠ .needMore) :
    m.onRequest (b ++ t) = (m.onRequest b).extend t := by
  have hr : readRequest b ≠ .ok none := fun hr => h (by simp [onRequest, hr])
  unfold onRequest
  rw [steady_readRequest b t hr]
  match hb : readRequest b with
  | .ok none => exact absurd hb hr
  | .error f => cases f <;> rfl
  | .ok (some (r, rest)) =>
    simp only [Reading.extend, Except.map, Option.map_some]
    split
    · rfl
    · split
      · rfl
      · split <;> rfl

/-- A turn that does not wait is not changed by what arrives later. -/
theorem advance_append (m : Negotiation) {b : Bytes} (t : Bytes)
    (h : (m.advance b).outcome ≠ .needMore) : m.advance (b ++ t) = (m.advance b).extend t := by
  unfold advance at h ⊢
  cases hs : m.stage with
  | greeting => exact m.onGreeting_append t (by simpa only [hs] using h)
  | password => exact m.onPassword_append t (by simpa only [hs] using h)
  | request => exact m.onRequest_append t (by simpa only [hs] using h)
  | established => rfl
  | closed => rfl

end Negotiation

end SocksChain.Socks
