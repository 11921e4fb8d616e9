import Mathlib
import SocksChain.Proofs.Aliases.Ledger
import SocksChain.Proofs.Channel.Blaming
import SocksChain.Proofs.Socks.Accord
import SocksChain.Settings.Basic

/-!
What settings that have passed promise. Every cipher that they name gives sessions. How long things
are that are said later nobody looks at: the host of an alias, which a backend is asked for, and the
credentials, which it asks for, may be too long to be said at all.
-/

namespace SocksChain

open Channel Dialogue

/-! ## Lengths -/

theorem Bytes.length_ofText (s : String) : (ofText s).length = String.utf8Len s.toList := by
  rw [ofText, Array.length_toList, String.utf8Len_toList]
  exact String.size_toByteArray

theorem utf8Len_le (s : List Char) : String.utf8Len s ≤ 4 * s.length := by
  induction s with
  | nil => exact Nat.zero_le _
  | cons c s ih =>
    have := c.utf8Size_le_four
    rw [String.utf8Len_cons, List.length_cons]
    omega

theorem Bytes.length_ofText_replicate (n : Nat) {c : Char} (hc : c.utf8Size = 1) :
    (ofText (String.ofList (List.replicate n c))).length = n := by
  rw [length_ofText, String.toList_ofList]
  induction n with
  | zero => rfl
  | succ n ih => rw [List.replicate_succ, String.utf8Len_cons, ih, hc]

/-- A number takes as many bytes as it has digits. -/
theorem Text.Decimal.utf8Len_render (n : Nat) : String.utf8Len (render n) = (render n).length := by
  have hsize : ∀ c ∈ render n, c.utf8Size = 1 := by
    intro c hc
    have hd := isSome_digit?_of_mem_render hc
    unfold digit? at hd
    split at hd
    · rename_i h
      exact Char.utf8Size_eq_one_iff.2 (Nat.le_trans h.2 (by decide))
    · cases hd
  generalize render n = s at hsize
  induction s with
  | nil => rfl
  | cons c s ih =>
    obtain ⟨hc, hs⟩ := List.forall_mem_cons.1 hsize
    rw [String.utf8Len_cons, ih hs, hc, List.length_cons]

/-- The text of an IP address is short, however it is written. -/
theorem Endpoint.length_host_le {e : Endpoint} (h : e.isIp = true) :
    (Bytes.ofText e.host).length ≤ 255 := by
  obtain ⟨x, hx⟩ := Option.isSome_iff_exists.1 h
  have hl := Ip.Address.length_le_of_parse? hx
  have hh : e.host.toList.length ≤ 49 := by
    by_cases hb : unbracket e.host.toList = e.host.toList
    · rw [hb] at hl
      omega
    · rw [eq_of_unbracket_ne hb]
      simp only [List.length_append, List.length_cons, List.length_nil]
      omega
  have hs := utf8Len_le e.host.toList
  rw [Bytes.length_ofText]
  omega

namespace Socks.Address

theorem encode_of_lt {e : Endpoint} (h : 255 < (Bytes.ofText e.host).length) :
    (ofEndpoint e).encode = .error (.domainLength (Bytes.ofText e.host).length) := by
  have hl := Nat.not_le.2 h
  exact encode_of_not_writable (not_or.2 ⟨mt Endpoint.length_host_le hl, hl⟩)

/-- A backend can be asked for an endpoint exactly if its host has at most 255 bytes. -/
theorem exists_encode_iff {e : Endpoint} :
    (∃ w, (ofEndpoint e).encode = .ok w) ↔ (Bytes.ofText e.host).length ≤ 255 := by
  constructor
  · rintro ⟨w, hw⟩
    refine Nat.not_lt.1 fun hl => ?_
    cases hw.symm.trans (encode_of_lt hl)
  · exact fun hl => exists_encode_of_writable (.inr hl)

end Socks.Address

namespace Alias

theorem length_host (suffix : String) (h : UInt64) : (Bytes.ofText (host suffix h)).length =
    (Text.Decimal.render h.toNat).length + (Bytes.ofText suffix).length := by
  rw [Bytes.length_ofText, Bytes.length_ofText, host, String.toList_ofList, String.utf8Len_append,
    Text.Decimal.utf8Len_render]

theorem length_render_le (h : UInt64) : (Text.Decimal.render h.toNat).length ≤ 20 :=
  (Nat.length_toDigits_le_iff (by decide) (by decide)).2 (Nat.lt_trans h.toNat_lt (by decide))

end Alias

/-! ## Credentials -/

namespace Socks.Requester

/-- Nothing that is configured is at fault. -/
def NotConfigured (f : Failure) : Prop := ∀ cause, f ≠ .config cause

theorem fits_iff {c : Credentials} : fits c = true ↔
    (Bytes.ofText c.username).length ≤ 255 ∧ (Bytes.ofText c.password).length ≤ 255 := by
  unfold fits
  rw [Bool.and_eq_true, decide_eq_true_eq, decide_eq_true_eq]

theorem prove_of_not_fits {b : Backend} {c : Credentials} (hc : b.credentials = some c)
    (hf : ¬ fits c = true) : prove b = Exchange.fail (.config (.longCredentials b.toText)) := by
  rw [Bool.not_eq_true] at hf
  unfold prove
  rw [hc]
  dsimp only
  rw [hf]
  rfl

/-- A requester blames its configuration exactly if it has credentials that are too long. -/
theorem blames_prove_iff (b : Backend) :
    Exchange.Blames NotConfigured (prove b) ↔ ∀ c, b.credentials = some c → fits c = true := by
  constructor
  · intro h c hc
    refine Classical.byContradiction fun hf => ?_
    rw [prove_of_not_fits hc hf] at h
    exact h .here _ rfl
  · intro h
    have hio : ∀ e, NotConfigured (.io e) := fun e => nofun
    unfold prove
    split
    · exact Exchange.blames_fail nofun
    · rename_i c hc
      dsimp only
      rw [h c hc]
      refine (Exchange.blames_send hio _).bind fun _ =>
        (Exchange.blames_readExact hio 2).bind fun answer => ?_
      split
      · exact Exchange.blames_pure _
      · exact Exchange.blames_fail nofun

end Socks.Requester

/-! ## What is promised -/

namespace Settings

/-- A client can ask for `d`. -/
def Requestable (d : Endpoint) : Prop :=
  ∃ b a rest, Socks.Address.parse b = .ok (some (a, rest)) ∧ d = a.toEndpoint

theorem validate_eq_ok_iff {s : Settings} : s.validate = .ok s ↔ s.fault? = none := by
  unfold validate
  cases s.fault? <;> simp

/-- What is looked at before anything is served. -/
theorem fault?_eq_none_iff {s : Settings} : s.fault? = none ↔
    (∀ c ∈ s.ciphers, ∃ suite, Cipher.Suite.ofName? c.name = some suite) ∧
      s.aliases.ports ≠ [] ∧ s.aliases.suffix ≠ "" ∧ s.route.timeoutMs ≠ 0 ∧
      s.store.hotCapacity ≠ 0 := by
  unfold fault?
  split
  · rename_i c hf
    have hn := List.find?_some hf
    refine iff_of_false nofun fun h => ?_
    obtain ⟨suite, hs⟩ := h.1 c (List.mem_of_find?_eq_some hf)
    rw [hs] at hn
    cases hn
  · rename_i hf
    have hall : ∀ c ∈ s.ciphers, ∃ suite, Cipher.Suite.ofName? c.name = some suite := by
      intro c hc
      have hn := List.find?_eq_none.1 hf c hc
      rw [Option.isNone_iff_eq_none] at hn
      exact Option.ne_none_iff_exists'.1 hn
    rw [and_iff_right hall]
    simp only [List.isEmpty_iff, String.isEmpty_iff, ite_eq_iff, reduceCtorEq, and_false, false_or,
      and_true, ne_eq]

theorem exists_pair {s : Settings} (h : s.validate = .ok s) {c : CipherSettings}
    (hc : c ∈ s.ciphers) (datagrams : Bool) :
    ∃ pair, Cipher.Pair.ofName c.name c.secret datagrams = .ok pair := by
  obtain ⟨suite, hs⟩ := (fault?_eq_none_iff.1 (validate_eq_ok_iff.1 h)).1 c hc
  unfold Cipher.Pair.ofName Cipher.SharedKey.ofName Cipher.Suite.ofName
  rw [hs]
  exact ⟨_, rfl⟩

theorem length_standIn (a : Aliases) (now draw : Nat) (d : Endpoint) :
    (Bytes.ofText (a.substitute now draw d).1.standIn.host).length =
      (Text.Decimal.render d.hash.toNat).length + (Bytes.ofText a.policy.suffix).length :=
  Alias.length_host _ _

/-- A backend can be asked for an alias exactly if there is room for the suffix behind the hash. -/
theorem exists_encode_standIn_iff (a : Aliases) (now draw : Nat) (d : Endpoint) :
    (∃ w, (Socks.Address.ofEndpoint (a.substitute now draw d).1.standIn).encode = .ok w) ↔
      (Text.Decimal.render d.hash.toNat).length + (Bytes.ofText a.policy.suffix).length ≤ 255 := by
  rw [← length_standIn a now draw d]
  exact Socks.Address.exists_encode_iff

/-- Clients can ask for every name of at most 255 bytes. -/
theorem requestable_of_length_le {e : Endpoint} (h : (Bytes.ofText e.host).length ≤ 255) :
    Requestable e := by
  have hfits : (Socks.Address.domain e.host e.port).encode = .ok _ := if_neg (Nat.not_lt.2 h)
  exact ⟨_, _, [], Socks.Address.parse_encode hfits, rfl⟩

/-- Some hashes have twenty digits. -/
theorem length_long_hash :
    (Text.Decimal.render (Endpoint.hash ⟨"example.test", 80⟩).toNat).length = 20 := by
  cbv

/-- **Settings that pass last exactly if nothing in them is too long.** Every cipher that they name
gives sessions, for streams and for datagrams. Whatever a backend does that asks for its
credentials, the configuration is not what fails, exactly if name and password have at most 255
bytes each. A backend can be asked for the alias of a destination exactly if the digits of its hash
and the suffix have at most 255 bytes, and for that of every destination that clients can ask for
exactly if the suffix has at most 235. -/
theorem passed_settings_last_iff (s : Settings) (h : s.validate = .ok s) :
    (∀ c ∈ s.ciphers, ∀ datagrams,
      ∃ pair, Cipher.Pair.ofName c.name c.secret datagrams = .ok pair) ∧
    (∀ b ∈ s.route.backends, Exchange.Blames Socks.Requester.NotConfigured
        (Socks.Requester.prove b) ↔ ∀ c, b.credentials = some c →
      (Bytes.ofText c.username).length ≤ 255 ∧ (Bytes.ofText c.password).length ≤ 255) ∧
    (∀ (a : Aliases) (now draw : Nat) (d : Endpoint), a.policy = s.aliases →
      ((∃ w, (Socks.Address.ofEndpoint (a.substitute now draw d).1.standIn).encode = .ok w) ↔
        (Text.Decimal.render d.hash.toNat).length + (Bytes.ofText s.aliases.suffix).length
          ≤ 255)) ∧
    ((∀ (a : Aliases) (now draw : Nat) (d : Endpoint), a.policy = s.aliases → Requestable d →
        ∃ w, (Socks.Address.ofEndpoint (a.substitute now draw d).1.standIn).encode = .ok w) ↔
      (Bytes.ofText s.aliases.suffix).length ≤ 235) := by
  refine ⟨fun c hc => exists_pair h hc, fun b _ => ?_, ?_, ?_⟩
  · rw [Socks.Requester.blames_prove_iff]
    simp only [Socks.Requester.fits_iff]
  · intro a now draw d ha
    rw [← ha]
    exact exists_encode_standIn_iff a now draw d
  · constructor
    · intro hall
      have he := (exists_encode_standIn_iff _ 0 0 ⟨"example.test", 80⟩).1
        (hall { policy := s.aliases, registry := .ofPolicy {} } 0 0 _ rfl
          (requestable_of_length_le (by decide)))
      rw [length_long_hash] at he
      exact Nat.le_of_add_le_add_left he
    · intro hl a now draw d ha _
      have hd := Alias.length_render_le d.hash
      rw [exists_encode_standIn_iff, ha]
      omega

/-- Settings for one backend. -/
def relaying (b : Backend) (suffix : String) (cipher : Option CipherSettings) : Settings :=
  { route := { mode := .backend, backends := [b], cipher }, aliases := { suffix } }

theorem validate_relaying {b : Backend} {suffix : String} {cipher : Option CipherSettings}
    (hs : suffix ≠ "")
    (hc : ∀ c ∈ cipher, ∃ suite, Cipher.Suite.ofName? c.name = some suite) :
    (relaying b suffix cipher).validate = .ok (relaying b suffix cipher) := by
  refine validate_eq_ok_iff.2 (fault?_eq_none_iff.2 ⟨fun c h => ?_, ?_⟩)
  · have hm : c ∈ cipher.toList := by simpa [ciphers, relaying] using h
    exact hc c (Option.mem_toList.1 hm)
  · exact ⟨by simp [relaying], hs, by simp [relaying], by simp [relaying]⟩

theorem ne_empty_of_length {suffix : String} {n : Nat} (h : (Bytes.ofText suffix).length = n + 1) :
    suffix ≠ "" := by
  rintro rfl
  cases h

/-- With a suffix that just fits, the alias of `example.test:80` has a host of 255 bytes. -/
theorem settings_with_fitting_suffix_last :
    let suffix := String.ofList (List.replicate 235 'x')
    let b : Backend := ⟨⟨"relay.test", 1080⟩, some ⟨"alice", "pw"⟩⟩
    let c : CipherSettings := ⟨"ChaCha20-Poly1305", "quiet"⟩
    let s := relaying b suffix (some c)
    let a : Aliases := { policy := s.aliases, registry := .ofPolicy {} }
    s.validate = .ok s ∧ (∃ pair, Cipher.Pair.ofName c.name c.secret false = .ok pair) ∧
      Exchange.Blames Socks.Requester.NotConfigured (Socks.Requester.prove b) ∧
      ∃ w, (Socks.Address.ofEndpoint
        (a.substitute 0 0 ⟨"example.test", 80⟩).1.standIn).encode = .ok w := by
  intro suffix b c s a
  have hl : (Bytes.ofText suffix).length = 235 := Bytes.length_ofText_replicate 235 (by decide)
  have hs : s.validate = .ok s := by
    refine validate_relaying (ne_empty_of_length hl) fun c' hc => ?_
    cases hc
    exact ⟨.chacha20Poly1305, by decide⟩
  obtain ⟨hciphers, hcredentials, -, haliases⟩ := passed_settings_last_iff s hs
  refine ⟨hs, hciphers c List.mem_cons_self false,
    (hcredentials b List.mem_cons_self).2 fun c' hc => ?_,
    haliases.2 hl.le a 0 0 _ rfl (requestable_of_length_le (by decide))⟩
  cases hc
  decide

/-- Settings pass with which a backend can neither be asked for the alias of `example.test:80`, whose
host has 256 bytes, nor be shown the credentials that it asks for. -/
theorem settings_pass_that_fail_later :
    let suffix := String.ofList (List.replicate 236 'x')
    let b : Backend := ⟨⟨"relay.test", 1080⟩, some ⟨String.ofList (List.replicate 256 'u'), "p"⟩⟩
    let s := relaying b suffix none
    let a : Aliases := { policy := s.aliases, registry := .ofPolicy {} }
    s.validate = .ok s ∧
      (Socks.Address.ofEndpoint (a.substitute 0 0 ⟨"example.test", 80⟩).1.standIn).encode =
        .error (.domainLength 256) ∧
      Talks (Socks.Requester.prove b) [] []
        (.done (.error (.config (.longCredentials "relay.test:1080")))) := by
  intro suffix b s a
  have hl : (Bytes.ofText suffix).length = 236 := Bytes.length_ofText_replicate 236 (by decide)
  have hhost := (length_standIn a 0 0 ⟨"example.test", 80⟩).trans
    (congrArg₂ (· + ·) length_long_hash hl)
  have hu : (Bytes.ofText (String.ofList (List.replicate 256 'u'))).length = 256 :=
    Bytes.length_ofText_replicate 256 (by decide)
  have hb : Endpoint.toText ⟨"relay.test", 1080⟩ = "relay.test:1080" := by cbv
  have hnone : ∀ c ∈ (none : Option CipherSettings),
      ∃ suite, Cipher.Suite.ofName? c.name = some suite := fun c hc => absurd hc (Option.not_mem_none c)
  refine ⟨validate_relaying (ne_empty_of_length hl) hnone, ?_, ?_⟩
  · have he := Socks.Address.encode_of_lt (hhost ▸ (by decide : 255 < 20 + 236))
    rwa [hhost] at he
  · rw [Socks.Requester.prove_of_not_fits rfl, Backend.toText, hb]
    · exact .here
    · rw [Socks.Requester.fits_iff]
      exact fun h => absurd (hu ▸ h.1) (by decide)

end Settings

end SocksChain
