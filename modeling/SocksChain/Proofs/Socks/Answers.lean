import Mathlib
import SocksChain.Proofs.Channel.Recognizing
import SocksChain.Proofs.Socks.Accord
import SocksChain.Proofs.Socks.Receipt

/-!
The answers that a requester takes for a success. It looks at the version in two of the three
messages that a backend may send it, and in the verdict on its password it does not: there any byte
will do where the version should be.
-/

namespace SocksChain.Socks

open Channel

/-- Reading an address takes one whole address. -/
theorem Address.recognizes_receive : Exchange.Recognizes receive fun a w =>
    parse w = .ok (some (a, [])) := by
  intro l v said hin hout
  obtain ⟨r, i, left, hr, hi, hreceived⟩ := run_receive bringing_brings hin
  refine ⟨r, i, l.outlet, left, said, hr, hi, hout, fun a u => ?_⟩
  have hiff : (r = .ok a ∧ left = u) ↔ parse v = .ok (some (a, u)) := by
    cases hreceived with
    | address h =>
      rw [h]
      simp
    | unknownType h => rw [h]; simp
    | notUtf8 h => rw [h]; simp
    | ended h => rw [h]; simp
  rw [hiff]
  constructor
  · intro h
    obtain ⟨kind, front, hv, hf⟩ := exists_of_parse h
    exact ⟨_, hf, hv⟩
  · rintro ⟨w, hw, rfl⟩
    exact parse_append u hw

namespace Requester

/-- What a backend may say until it is sent the request, if in its verdict on a password it may
give such versions. -/
inductive Lets (b : Backend) (versions : UInt8 → Prop) : Bytes → Prop
  | freely : Lets b versions [protocolVersion, Method.none]
  | proved {version : UInt8} : b.credentials ≠ none → versions version →
      Lets b versions [protocolVersion, Method.password, version, 0]

/-- What it says then to grant the request. -/
def Grants (a : Address) (w : Bytes) : Prop :=
  ∃ reserved address, w = protocolVersion :: ReplyCode.succeeded :: reserved :: address ∧
    Address.parse address = .ok (some (a, []))

variable {b : Backend}

/-- By what a backend says first. -/
theorem lets_cons_iff {versions : UInt8 → Prop} {version method : UInt8} {w : Bytes} :
    Lets b versions (version :: method :: w) ↔ version = protocolVersion ∧
      (method = Method.none ∧ w = [] ∨ method = Method.password ∧ b.credentials ≠ none ∧
        ∃ v, versions v ∧ w = [v, 0]) := by
  constructor
  · intro h
    cases h with
    | freely => exact ⟨rfl, .inl ⟨rfl, rfl⟩⟩
    | proved hb hv => exact ⟨rfl, .inr ⟨rfl, hb, _, hv, rfl⟩⟩
  · rintro ⟨rfl, ⟨rfl, rfl⟩ | ⟨rfl, hb, v, hv, rfl⟩⟩
    · exact .freely
    · exact .proved hb hv

theorem Lets.length_le {versions : UInt8 → Prop} {w : Bytes} (h : Lets b versions w) :
    2 ≤ w.length := by
  cases h <;> simp

/-- Which version a verdict on a password has. -/
theorem Lets.version {versions : UInt8 → Prop} {front : Bytes} (h : Lets b versions front)
    {version : UInt8} {u w : Bytes}
    (hv : front ++ u = protocolVersion :: Method.password :: version :: w) : versions version := by
  cases h with
  | freely =>
    have hmethod : Method.none = Method.password := (List.cons.inj (List.cons.inj hv).2).1
    exact absurd hmethod (by decide)
  | proved _ hone =>
    rw [← (List.cons.inj (List.cons.inj (List.cons.inj hv).2).2).1]
    exact hone

theorem recognizes_prove (hf : ∀ c, b.credentials = some c → fits c = true) :
    Exchange.Recognizes (prove b) fun _ w =>
      b.credentials ≠ none ∧ ∃ version, w = [version, 0] := by
  unfold prove
  match hb : b.credentials with
  | none => exact (Exchange.Recognizes.fail _).congr fun _ _ => by simp
  | some c =>
    dsimp only
    rw [hf c hb, if_neg (by decide)]
    refine Exchange.Recognizes.send_bind _ (.readExact_bind ?_ fun answer hl => ?_)
    · rintro _ _ ⟨-, version, rfl⟩
      exact Nat.le_refl 2
    · split
      · exact (Exchange.Recognizes.pure ()).congr fun _ w => by simp
      · rename_i hother
        refine (Exchange.Recognizes.fail _).congr fun _ w => iff_of_false id ?_
        rintro ⟨-, version, hw⟩
        exact hother version (List.append_inj_left hw hl)

theorem recognizes_agree (hf : ∀ c, b.credentials = some c → fits c = true) :
    Exchange.Recognizes (agree b) fun _ w => Lets b (fun _ => True) w := by
  refine Exchange.Recognizes.send_bind _
    (.readExact_bind (fun _ _ hw => hw.length_le) fun answer hl => ?_)
  match answer, hl with
  | [version, method], _ =>
    simp only [List.cons_append, List.nil_append, lets_cons_iff]
    split
    · rename_i hv
      exact (Exchange.Recognizes.fail _).congr fun _ w => iff_of_false id fun h => hv h.1
    · rename_i hv
      obtain rfl := Decidable.not_not.1 hv
      split
      · rename_i hm
        refine (Exchange.Recognizes.pure ()).congr fun _ w => ?_
        simp [hm, Method.none, Method.password]
      · rename_i hm
        split
        · rename_i hp
          refine (recognizes_prove hf).congr fun _ w => ?_
          simp [hp, Method.none, Method.password]
        · rename_i hp
          refine (Exchange.Recognizes.fail _).congr fun _ w => iff_of_false id ?_
          rintro ⟨-, ⟨h, -⟩ | ⟨h, -⟩⟩
          · exact hm h
          · exact hp h

theorem grants_cons_iff {a : Address} {version code reserved : UInt8} {w : Bytes} :
    Grants a (version :: code :: reserved :: w) ↔ version = protocolVersion ∧
      code = ReplyCode.succeeded ∧ Address.parse w = .ok (some (a, [])) := by
  constructor
  · rintro ⟨_, _, ⟨⟩, h⟩
    exact ⟨rfl, rfl, h⟩
  · rintro ⟨rfl, rfl, h⟩
    exact ⟨reserved, w, rfl, h⟩

theorem Grants.length_le {a : Address} {w : Bytes} (h : Grants a w) : 3 ≤ w.length := by
  obtain ⟨_, _, rfl, -⟩ := h
  simp

theorem recognizes_awaitGrant (b : Backend) : Exchange.Recognizes (awaitGrant b) Grants := by
  refine .readExact_bind (fun _ _ hw => hw.length_le) fun answer hl => ?_
  match answer, hl with
  | [version, code, reserved], _ =>
    simp only [List.cons_append, List.nil_append, grants_cons_iff]
    split
    · rename_i hv
      exact (Exchange.Recognizes.fail _).congr fun _ w => iff_of_false id fun h => hv h.1
    · rename_i hv
      split
      · rename_i hc
        exact (Exchange.Recognizes.fail _).congr fun _ w => iff_of_false id fun h => hc h.2.1
      · rename_i hc
        refine Address.recognizes_receive.congr fun a w => ?_
        simp [Decidable.not_not.1 hv, Decidable.not_not.1 hc]

theorem recognizes_request (hf : ∀ c, b.credentials = some c → fits c = true) (command : UInt8)
    {target : Endpoint} {address : Bytes} (he : (Address.ofEndpoint target).encode = .ok address) :
    Exchange.Recognizes (request b command target) fun a w =>
      ∃ front grant, Lets b (fun _ => True) front ∧ Grants a grant ∧ w = front ++ grant := by
  rw [request_eq he]
  refine ((recognizes_agree hf).bind fun _ _ _ =>
    Exchange.Recognizes.send_bind _ (recognizes_awaitGrant b)).congr fun a w => ?_
  constructor
  · rintro ⟨⟨⟩, front, grant, hl, hg, rfl⟩
    exact ⟨front, grant, hl, hg, rfl⟩
  · rintro ⟨front, grant, hl, hg, rfl⟩
    exact ⟨(), front, grant, hl, hg, rfl⟩

/-- **Which answers are taken for a success.** Where both channels do not fail, a request comes to
be done, and gives an address exactly where what the backend has sent begins with what lets the
request be sent, whatever version its verdict on a password has, and then grants it with that
address; what stands behind that is left. It is the answers of the right version alone that are
taken, unless a verdict of another version is in front of a grant. -/
theorem taken_answers_iff (b : Backend) (command : UInt8) {target : Endpoint} {address : Bytes}
    (hf : ∀ c, b.credentials = some c → fits c = true)
    (he : (Address.ofEndpoint target).encode = .ok address) {l : Link} {v said : Bytes}
    (hin : l.inlet.Brings v) (hout : l.outlet.Carries said) :
    ∃ r i o left, Dialogue.run (request b command target) l = (.done r, ⟨i, o⟩) ∧
      i.Brings left ∧
      (∀ a u, (r = .ok a ∧ left = u) ↔
        ∃ front grant, Lets b (fun _ => True) front ∧ Grants a grant ∧ v = front ++ grant ++ u) ∧
      ((∀ a u, (r = .ok a ∧ left = u) ↔
          ∃ front grant, Lets b (· = passwordVersion) front ∧ Grants a grant ∧
            v = front ++ grant ++ u) ↔
        ¬ ∃ version a grant u, version ≠ passwordVersion ∧ b.credentials ≠ none ∧
          Grants a grant ∧
          v = protocolVersion :: Method.password :: version :: 0 :: grant ++ u) := by
  obtain ⟨r, i, o, left, said', hr, hi, -, hiff⟩ :=
    recognizes_request hf command he l v said hin hout
  have htaken : ∀ a u, (r = .ok a ∧ left = u) ↔
      ∃ front grant, Lets b (fun _ => True) front ∧ Grants a grant ∧ v = front ++ grant ++ u := by
    intro a u
    rw [hiff]
    constructor
    · rintro ⟨_, ⟨front, grant, hl, hg, rfl⟩, hv⟩
      exact ⟨front, grant, hl, hg, hv⟩
    · rintro ⟨front, grant, hl, hg, hv⟩
      exact ⟨_, ⟨front, grant, hl, hg, rfl⟩, hv⟩
  refine ⟨r, i, o, left, hr, hi, htaken, fun hright => ?_, fun hno a u => ?_⟩
  · rintro ⟨version, a, grant, u, hne, hb, hg, hv⟩
    obtain ⟨front, grant', hl, -, hv'⟩ := (hright a u).mp
      ((htaken a u).mpr ⟨_, grant, .proved hb trivial, hg, hv⟩)
    rw [List.append_assoc] at hv'
    exact hne (hl.version (hv'.symm.trans hv))
  · rw [htaken]
    constructor
    · rintro ⟨front, grant, hl, hg, hv⟩
      cases hl with
      | freely => exact ⟨_, grant, .freely, hg, hv⟩
      | @proved version hb _ =>
        by_cases hone : version = passwordVersion
        · exact ⟨_, grant, .proved hb hone, hg, hv⟩
        · exact absurd ⟨version, a, grant, u, hone, hb, hg, hv⟩ hno
    · rintro ⟨front, grant, hl, hg, hv⟩
      cases hl with
      | freely => exact ⟨_, grant, .freely, hg, hv⟩
      | proved hb _ => exact ⟨_, grant, .proved hb trivial, hg, hv⟩

/-- A verdict on a password, and a grant, both of the right version; one more byte is left. -/
theorem answer_of_right_version_is_taken :
    let b : Backend := ⟨⟨"relay.test", 1080⟩, some ⟨"u", "p"⟩⟩
    let target : Endpoint := ⟨"10.0.0.1", 80⟩
    let v : Bytes := [5, 2, 1, 0, 5, 0, 0, 1, 1, 2, 3, 4, 0, 80, 7]
    let l : Link := { inlet := { source := { arrivals := [.chunk v] } } }
    (∀ c, b.credentials = some c → fits c = true) ∧
      (Address.ofEndpoint target).encode = .ok [1, 10, 0, 0, 1, 0, 80] ∧
      l.inlet.Brings v ∧ l.outlet.Carries [] ∧
      ∃ i o, Dialogue.run (request b Command.connect target) l =
        (.done (.ok (.ip ⟨.v4 ⟨1, 2, 3, 4⟩, 80⟩)), ⟨i, o⟩) ∧ i.Brings [7] := by
  intro b target v l
  have hf : ∀ c, b.credentials = some c → fits c = true := by
    rintro _ ⟨⟩
    decide
  have he : (Address.ofEndpoint target).encode = .ok [1, 10, 0, 0, 1, 0, 80] := by cbv
  have hin : l.inlet.Brings v := ⟨v, ⟨rfl, by simp [l, v, Arrival.Delivers], rfl⟩, rfl⟩
  have hout : l.outlet.Carries [] := ⟨⟨List.forall_mem_nil _, List.forall_mem_nil _⟩, rfl⟩
  obtain ⟨r, i, o, left, hr, hi, htaken, -⟩ := taken_answers_iff b Command.connect hf he hin hout
  obtain ⟨rfl, rfl⟩ := (htaken (.ip ⟨.v4 ⟨1, 2, 3, 4⟩, 80⟩) [7]).mpr
    ⟨[5, 2, 1, 0], [5, 0, 0, 1, 1, 2, 3, 4, 0, 80], .proved (Option.some_ne_none _) trivial,
      ⟨0, [1, 1, 2, 3, 4, 0, 80], rfl, rfl⟩, rfl⟩
  exact ⟨hf, he, hin, hout, i, o, hr, hi⟩

/-- The version of the verdict on a password may be wrong, and nobody is the wiser. -/
theorem answer_of_wrong_version_is_taken :
    let b : Backend := ⟨⟨"relay.test", 1080⟩, some ⟨"u", "p"⟩⟩
    let v : Bytes := [5, 2, 9, 0, 5, 0, 0, 1, 1, 2, 3, 4, 0, 80, 7]
    let l : Link := { inlet := { source := { arrivals := [.chunk v] } } }
    (∀ front rest, Lets b (· = passwordVersion) front → v ≠ front ++ rest) ∧
      Exchange.result (Dialogue.run (request b Command.connect ⟨"10.0.0.1", 80⟩) l).1 =
        .ok (.ip ⟨.v4 ⟨1, 2, 3, 4⟩, 80⟩) := by
  intro b v l
  refine ⟨fun front rest hl hv => ?_, by cbv⟩
  exact absurd (hl.version hv.symm) (by decide)

end Requester

end SocksChain.Socks
