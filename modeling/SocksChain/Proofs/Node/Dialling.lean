import SocksChain.Association
import SocksChain.Proofs.Endpoint

/-!
Which hosts are dialled as addresses. One pair of brackets is taken off a host before it is judged
to be an address, but not before it is looked up. So an address without brackets is dialled as that
address, in whatever way it is written and whatever is known under any name; one in brackets is
taken for a name, and it is up to whoever knows names what comes of it.
-/

namespace SocksChain

open Ip

variable {e : Endpoint} {x : Address}

namespace Endpoint

theorem ofText?_host_of_plain (h : e.ip? = some x) (hu : unbracket e.host.toList = e.host.toList) :
    Address.ofText? e.host = some x := by
  rw [Address.ofText?, ← hu]
  exact h

theorem ofText?_host_of_ne (hu : unbracket e.host.toList ≠ e.host.toList) :
    Address.ofText? e.host = none := by
  refine Option.eq_none_iff_forall_ne_some.2 fun y hy => ?_
  exact hu (unbracket_of_not_mem (Address.not_mem_of_parse? hy))

/-- Without brackets, an endpoint is printed like the socket that it stands for. -/
theorem toText_ofSocket (h : e.ip? = some x) (hu : unbracket e.host.toList = e.host.toList) :
    (ofSocket ⟨x, e.port⟩).toText = e.toText := by
  cases x with
  | v6 y => exact toText_of_v6 h
  | v4 y =>
    have hy : Address.parse? e.host.toList = some (.v4 y) := hu ▸ h
    have he : e.hostText = y.render := by
      rw [hostText_of_ne (by rw [h]; exact nofun), Address.eq_render_of_parse?_v4 hy]
    exact toText_inj.2 ⟨(hostText_of_v4 y e.port).trans he.symm, rfl⟩

/-- The text of an endpoint that stands for a socket is read as one that stands for it too. -/
theorem exists_reread_socket? (h : e.ip? = some x) :
    ∃ read, ofText? e.toText = some read ∧ read.socket? = some ⟨x, e.port⟩ := by
  have hx : Address.parse? (unbracket e.hostText) = some x := by
    by_cases h6 : ∃ y, e.ip? = some (.v6 y)
    · obtain ⟨y, hy⟩ := h6
      obtain rfl := Option.some.inj (h.symm.trans hy)
      rw [hostText_of_v6 hy, unbracket_bracketed]
      exact (Address.v6 y).parse?_render
    · rw [hostText_of_ne (not_exists.1 h6)]
      exact h
  have hne : unbracket e.hostText ≠ [] := by
    intro hn
    rw [hn] at hx
    cases hx
  refine ⟨_, (ofText?_toText e).trans (if_neg hne), ?_⟩
  rw [socket?, ip?, String.toList_ofList, unbracket_of_not_mem (Address.not_mem_of_parse? hx), hx]
  rfl

end Endpoint

section Lookup

variable (names : Names)

theorem sockets_of_plain (h : e.ip? = some x) (hu : unbracket e.host.toList = e.host.toList) :
    sockets names e.host e.port = .ok [.ofSocket ⟨x, e.port⟩] := by
  rw [sockets, Endpoint.ofText?_host_of_plain h hu]

theorem sockets_of_ne (hu : unbracket e.host.toList ≠ e.host.toList) :
    sockets names e.host e.port = names e.host e.port := by
  rw [sockets, Endpoint.ofText?_host_of_ne hu]

theorem sockets_toText (x : Address) (port : UInt16) :
    sockets names x.toText port = .ok [.ofSocket ⟨x, port⟩] := by
  rw [sockets, Address.ofText?, Address.toText, String.toList_ofList, x.parse?_render]

theorem Endpoint.dial_of_plain (attempt : Zoned → Trial) (timeoutMs : Nat)
    (h : e.ip? = some x) (hu : unbracket e.host.toList = e.host.toList) :
    e.dial names attempt timeoutMs = (ofSocket ⟨x, e.port⟩).dial names attempt timeoutMs := by
  unfold dial
  rw [toText_ofSocket h hu, sockets_of_plain names h hu, ofSocket, sockets_toText]

theorem Remote.ofSettings_of_plain (cipher : CipherSettings) (h : e.ip? = some x)
    (hu : unbracket e.host.toList = e.host.toList) :
    ofSettings names (some ⟨e, cipher⟩) =
      (Cipher.Pair.ofName cipher.name cipher.secret true).map
        (.backend (.ofSocket ⟨x, e.port⟩)) := by
  unfold ofSettings
  dsimp only
  rw [sockets_of_plain names h hu]

variable {names} {f : IoError}

theorem Endpoint.dial_of_unknown (hf : sockets names e.host e.port = .error f)
    (attempt : Zoned → Trial) (timeoutMs : Nat) :
    e.dial names attempt timeoutMs = .error (.io f) := by
  rw [dial, hf]

theorem Remote.ofSettings_of_unknown (hf : sockets names e.host e.port = .error f)
    (cipher : CipherSettings) : ofSettings names (some ⟨e, cipher⟩) = .error (.io f) := by
  unfold ofSettings
  dsimp only
  rw [hf]

end Lookup

/-- **An address is dialled as that address exactly if it is not in brackets.** An endpoint that
counts as an address is one for its socket, on the wire and when its text is read back. If its host
is not in brackets, then the lookup gives that address without asking for names, and dialling the
endpoint is dialling its socket; the same holds of the backend for datagrams. In brackets, the
lookup asks for a name instead: where that name is not known, nothing is dialled and no backend is
found, whoever may answer at the address. -/
theorem dialled_as_address_iff_not_bracketed (h : e.ip? = some x) :
    (e.socket? = some ⟨x, e.port⟩ ∧ Socks.Address.ofEndpoint e = .ip ⟨x, e.port⟩ ∧
      ∃ read, Endpoint.ofText? e.toText = some read ∧ read.socket? = some ⟨x, e.port⟩) ∧
    (unbracket e.host.toList = e.host.toList → ∀ names,
      sockets names e.host e.port = .ok [.ofSocket ⟨x, e.port⟩] ∧
      (∀ attempt timeoutMs, e.dial names attempt timeoutMs =
        (Endpoint.ofSocket ⟨x, e.port⟩).dial names attempt timeoutMs) ∧
      ∀ cipher, Remote.ofSettings names (some ⟨e, cipher⟩) =
        (Cipher.Pair.ofName cipher.name cipher.secret true).map
          (.backend (.ofSocket ⟨x, e.port⟩))) ∧
    (unbracket e.host.toList ≠ e.host.toList → ∀ names,
      sockets names e.host e.port = names e.host e.port ∧
      ∀ f, names e.host e.port = .error f →
        (∀ attempt timeoutMs, e.dial names attempt timeoutMs = .error (.io f)) ∧
        ∀ cipher, Remote.ofSettings names (some ⟨e, cipher⟩) = .error (.io f)) := by
  have hs : e.socket? = some ⟨x, e.port⟩ := by
    rw [Endpoint.socket?, h]
    rfl
  have hw : Socks.Address.ofEndpoint e = .ip ⟨x, e.port⟩ := by
    rw [Socks.Address.ofEndpoint, hs]
  refine ⟨⟨hs, hw, Endpoint.exists_reread_socket? h⟩, fun hu names => ?_, fun hu names => ?_⟩
  · exact ⟨sockets_of_plain names h hu,
      fun attempt timeoutMs => Endpoint.dial_of_plain names attempt timeoutMs h hu,
      fun cipher => Remote.ofSettings_of_plain names cipher h hu⟩
  · have hn := sockets_of_ne names hu
    exact ⟨hn, fun f hf => ⟨Endpoint.dial_of_unknown (hn.trans hf),
      Remote.ofSettings_of_unknown (hn.trans hf)⟩⟩

/-- An address of sixteen octets that is not written as it is printed. -/
theorem loopback_with_zeros_is_dialled :
    let e : Endpoint := ⟨"0:0::0001", 80⟩
    e.ip? = some (.v6 .loopback) ∧ unbracket e.host.toList = e.host.toList ∧
      ∀ names attempt timeoutMs, e.dial names attempt timeoutMs =
        (⟨"::1", 80⟩ : Endpoint).dial names attempt timeoutMs := by
  intro e
  have h : e.ip? = some (.v6 .loopback) := by cbv
  have hu : unbracket e.host.toList = e.host.toList := by cbv
  exact ⟨h, hu, fun names => ((dialled_as_address_iff_not_bracketed h).2.1 hu names).2.1⟩

/-- Somebody answers at an address, and nobody at the same address in brackets: it is not known as
a name. -/
theorem bracketed_loopback_is_not_dialled :
    let e : Endpoint := ⟨"[127.0.0.9]", 9⟩
    let ip : Address := .v4 ⟨127, 0, 0, 9⟩
    let place : Zoned := .ofSocket ⟨ip, 9⟩
    let unknown : IoError := ⟨.notFound, none⟩
    let names : Names := fun _ _ => .error unknown
    let answers : Zoned → Trial := fun x => if x = place then .connected else .unanswered
    e.ip? = some ip ∧ sockets names e.host e.port ≠ .ok [place] ∧
      (⟨"127.0.0.9", 9⟩ : Endpoint).dial names answers 0 = .ok place ∧
      e.dial names answers 0 = .error (.io unknown) ∧
      ∀ cipher, Remote.ofSettings names (some ⟨e, cipher⟩) = .error (.io unknown) := by
  intro e ip place unknown names answers
  have h : e.ip? = some ip := by decide
  have hplain : (⟨"127.0.0.9", 9⟩ : Endpoint).ip? = some ip := by decide
  have hn : sockets names e.host e.port = .error unknown := sockets_of_ne names (by decide)
  refine ⟨h, hn ▸ nofun, ?_, Endpoint.dial_of_unknown hn answers 0, Remote.ofSettings_of_unknown hn⟩
  rw [Endpoint.dial, sockets_of_plain names hplain (by decide)]
  rfl

end SocksChain
