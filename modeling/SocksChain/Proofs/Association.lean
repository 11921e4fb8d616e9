import SocksChain.Association
import SocksChain.Proofs.Cipher.Datagram

/-!
What a dropped datagram leaves behind. Nothing of it is relayed, and the association keeps all that
later datagrams depend on, but for two things: the first sender at the client's address is the
client even if what it sent is dropped, and a datagram of the backend that does not open closes the
session that opens its datagrams.
-/

namespace SocksChain

namespace Remote

/-- Where requests go before any datagram has come. -/
inductive Fresh : Remote → Prop
  | destinations : Fresh .destinations
  | backend (place : Ip.Zoned) (k : Cipher.SharedKey) : Fresh (.backend place (k.pair true))

/-- Where requests go at any time: to a backend in datagrams of their own, each opened on its own
unless an earlier one has failed. -/
inductive Plain : Remote → Prop
  | destinations : Plain .destinations
  | backend (place : Ip.Zoned) (k : Cipher.SharedKey) (failed : Bool) :
    Plain (.backend place ⟨.datagram k, .datagram k failed⟩)

theorem Fresh.plain {r : Remote} (h : r.Fresh) : r.Plain := by
  cases h with
  | destinations => exact .destinations
  | backend place k => exact .backend place k false

/-- The same with a session, if any, that has or has not failed. -/
def withFailed (r : Remote) (failed : Bool) : Remote :=
  match r with
  | .backend place ⟨encryptor, .datagram k _⟩ => .backend place ⟨encryptor, .datagram k failed⟩
  | r => r

theorem Plain.withFailed {r : Remote} (h : r.Plain) (failed : Bool) :
    (r.withFailed failed).Plain := by
  cases h with
  | destinations => exact .destinations
  | backend place k f => exact .backend place k failed

end Remote

namespace Association

/-- A datagram that arrives, and what the world around it does meanwhile. -/
structure Arrival where
  sender : Ip.Zoned
  datagram : Bytes
  lookup : String → Except IoError (List Ip.Address)
  refuses : Parcel → Option IoError

def meet (a : Association) (x : Arrival) : Fate × Association :=
  a.receive x.lookup x.refuses x.sender (x.datagram.take longestDatagram)

/-- What the socket gets of a datagram. -/
def Arrival.received (x : Arrival) : Bytes := x.datagram.take longestDatagram

theorem Arrival.received_of_lock {x : Arrival} {k : Cipher.SharedKey} {salt text : Bytes}
    (hx : x.datagram = Cipher.Datagram.lock k salt text)
    (h : salt.length + text.length + Crypto.tagLength ≤ longestDatagram) :
    x.received = Cipher.Datagram.lock k salt text := by
  rw [received, hx]
  exact List.take_of_length_le (Nat.le_trans (Cipher.Datagram.length_lock_le k salt text) h)

/-- What a parcel comes to that is given to the socket to send. -/
def Arrival.handsOn (x : Arrival) (parcel : Parcel) : Fate :=
  match x.refuses parcel with
  | some e => .dropped (.io e)
  | none => .sent parcel

/-- What datagrams come to that arrive one after another. -/
def relay (a : Association) : List Arrival → List Fate × Association
  | [] => ([], a)
  | x :: later => ((a.meet x).1 :: ((a.meet x).2.relay later).1, ((a.meet x).2.relay later).2)

def Reachable (a : Association) : Prop :=
  ∃ (clientIp : Ip.Address) (remote : Remote) (entropy : Cipher.Entropy) (earlier : List Arrival),
    remote.Fresh ∧ (({ clientIp, remote, entropy } : Association).relay earlier).2 = a

/-- The association with these random bytes still to be drawn. -/
def drawing (a : Association) (e : Cipher.Entropy) : Association := { a with entropy := e }

/-- A datagram of the backend that does not open, when all before it have. -/
def Closes (a : Association) (x : Arrival) : Prop :=
  a.client ≠ none ∧ a.isFromClient x.sender = false ∧
    ∃ k, a.remote = .backend x.sender ⟨.datagram k, .datagram k false⟩ ∧
      ∃ cause, Cipher.Datagram.unlock k (x.datagram.take longestDatagram) = .error cause

section Meeting

variable {a : Association} {x : Arrival}

/-- A request draws random bytes, and changes nothing else. -/
theorem forward_snd (h : a.remote.Plain) (lookup : String → Except IoError (List Ip.Address))
    (packet : Bytes) : ∃ e, (a.forward lookup packet).2 = a.drawing e := by
  obtain ⟨clientIp, remote, client, toRemote, toClient, dropped, entropy⟩ := a
  unfold forward
  cases Socks.Packet.decode packet with
  | error f => exact ⟨_, rfl⟩
  | ok found =>
    cases h with
    | destinations =>
      dsimp only
      cases destination lookup found.1 <;> exact ⟨_, rfl⟩
    | backend place k failed => exact ⟨_, rfl⟩

/-- The reply that the session fails on. -/
theorem handBack_of_error {client sender : Ip.Zoned} {datagram : Bytes} {k : Cipher.SharedKey}
    {cause : CipherCause} (hr : a.remote = .backend sender ⟨.datagram k, .datagram k false⟩)
    (hu : Cipher.Datagram.unlock k datagram = .error cause) :
    a.handBack client sender datagram =
      (some (.error (.cipher cause)), { a with remote := a.remote.withFailed true }) := by
  simp [handBack, hr, Cipher.Decryptor.updateAll, Cipher.Decryptor.update, hu, Remote.withFailed]

/-- What a reply comes to: it is handed on or refused for what it is, or it is the one that the
session fails on. -/
theorem handBack_cases (h : a.remote.Plain) (client sender : Ip.Zoned) (datagram : Bytes) :
    (a.handBack client sender datagram).2 = a ∨
      ∃ k cause, a.remote = .backend sender ⟨.datagram k, .datagram k false⟩ ∧
        Cipher.Datagram.unlock k datagram = .error cause := by
  obtain ⟨clientIp, remote, _, toRemote, toClient, dropped, entropy⟩ := a
  cases h with
  | destinations =>
    refine .inl ?_
    unfold handBack
    dsimp only
    cases Socks.Packet.encode (.ip sender.socket) datagram <;> rfl
  | backend place k failed =>
    by_cases hs : sender = place
    · subst hs
      cases failed with
      | true => simp [handBack, Cipher.Decryptor.updateAll, Cipher.Decryptor.update]
      | false =>
        cases hu : Cipher.Datagram.unlock k datagram with
        | ok tail => simp [handBack, Cipher.Decryptor.updateAll, Cipher.Decryptor.update, hu]
        | error cause => exact .inr ⟨k, cause, rfl, hu⟩
    · exact .inl (by simp [handBack, hs])

theorem send_cases (a counted : Association) (refuses : Parcel → Option IoError)
    (parcel : Parcel) : a.send counted refuses parcel = (.sent parcel, counted) ∨
      ∃ e, a.send counted refuses parcel = (.dropped (.io e), a.drop) := by
  unfold send
  cases refuses parcel with
  | none => exact .inl rfl
  | some e => exact .inr ⟨e, rfl⟩

theorem send_fst (a counted : Association) (x : Arrival) (parcel : Parcel) :
    (a.send counted x.refuses parcel).1 = x.handsOn parcel := by
  unfold send Arrival.handsOn
  cases x.refuses parcel <;> rfl

theorem isFromClient_of_some {client : Ip.Zoned} (hc : a.client = some client)
    (sender : Ip.Zoned) : a.isFromClient sender = decide (client = sender) := by
  unfold isFromClient
  rw [hc]

theorem meet_of_client (hc : a.isFromClient x.sender = true) :
    a.meet x = match { a with client := some x.sender }.forward x.lookup
        (x.datagram.take longestDatagram) with
      | (.ok parcel, b) => b.send { b with toRemote := b.toRemote + 1 } x.refuses parcel
      | (.error f, b) => (.dropped f, b.drop) :=
  if_pos hc

theorem meet_of_other (hc : a.isFromClient x.sender = false) {client : Ip.Zoned}
    (hcl : a.client = some client) :
    a.meet x = match a.handBack client x.sender (x.datagram.take longestDatagram) with
      | (none, b) => (.ignored, b)
      | (some (.ok parcel), b) => b.send { b with toClient := b.toClient + 1 } x.refuses parcel
      | (some (.error f), b) => (.dropped f, b.drop) := by
  have hne : ¬ a.isFromClient x.sender = true := by
    rw [hc]
    nofun
  unfold meet receive
  refine (if_neg hne).trans ?_
  generalize a.client = c at hcl
  cases hcl
  rfl

/-- What a reply comes to with a backend. -/
theorem meet_reply_of_backend {place : Ip.Zoned} {k : Cipher.SharedKey} {failed : Bool}
    (hr : a.remote = .backend place ⟨.datagram k, .datagram k failed⟩)
    (hc : a.isFromClient x.sender = false) {client : Ip.Zoned} (hcl : a.client = some client) :
    (a.meet x).1 = if x.sender ≠ place then .ignored
      else if failed then .dropped (.cipher .sessionClosed)
      else match Cipher.Datagram.unlock k x.received with
        | .error cause => .dropped (.cipher cause)
        | .ok tail =>
          match wrap tail with
          | .error f => .dropped f
          | .ok packet => x.handsOn ⟨client, packet⟩ := by
  rw [meet_of_other hc hcl]
  unfold handBack
  simp only [hr]
  by_cases hs : x.sender = place
  · rw [if_neg fun hn => hn hs, if_neg fun hn => hn hs]
    cases failed with
    | true => rfl
    | false =>
      unfold Arrival.received
      simp only [Cipher.Decryptor.updateAll, Cipher.Decryptor.update]
      cases Cipher.Datagram.unlock k (x.datagram.take longestDatagram) with
      | error cause => rfl
      | ok tail =>
        dsimp only
        cases wrap tail with
        | error f => rfl
        | ok packet => exact send_fst _ _ x _
  · rw [if_pos hs, if_pos hs]

theorem meet_request (h : a.remote.Plain) (hc : a.isFromClient x.sender = true) :
    ∃ e, (∃ parcel, a.meet x = (.sent parcel,
          { { a with client := some x.sender }.drawing e with toRemote := a.toRemote + 1 })) ∨
      ∃ f, a.meet x = (.dropped f, ({ a with client := some x.sender }.drawing e).drop) := by
  obtain ⟨e, he⟩ := forward_snd (a := { a with client := some x.sender }) h x.lookup
    (x.datagram.take longestDatagram)
  refine ⟨e, ?_⟩
  have hmeet := meet_of_client hc
  match hf : { a with client := some x.sender }.forward x.lookup
      (x.datagram.take longestDatagram) with
  | (.error f, b) =>
    rw [hf] at he hmeet
    subst he
    exact .inr ⟨f, hmeet⟩
  | (.ok parcel, b) =>
    rw [hf] at he hmeet
    subst he
    rcases send_cases ({ a with client := some x.sender }.drawing e)
      { { a with client := some x.sender }.drawing e with toRemote := a.toRemote + 1 } x.refuses
      parcel with hs | ⟨_, hs⟩
    · exact .inl ⟨parcel, hmeet.trans hs⟩
    · exact .inr ⟨_, hmeet.trans hs⟩

theorem meet_stranger (hc : a.isFromClient x.sender = false) (hn : a.client = none) :
    a.meet x = (.ignored, a) := by
  unfold meet receive
  rw [if_neg (by rw [hc]; nofun), hn]

/-- What the datagram comes to that the session fails on. -/
theorem meet_of_closes (hx : a.Closes x) :
    ∃ f, a.meet x = (.dropped f, { a with remote := a.remote.withFailed true }.drop) := by
  obtain ⟨hn, hc, k, hr, cause, hu⟩ := hx
  obtain ⟨client, hcl⟩ := Option.ne_none_iff_exists'.mp hn
  refine ⟨.cipher cause, ?_⟩
  rw [meet_of_other hc hcl, handBack_of_error hr hu]

theorem meet_reply (h : a.remote.Plain) (hc : a.isFromClient x.sender = false) {client : Ip.Zoned}
    (hcl : a.client = some client) :
    a.meet x = (.ignored, a) ∨
      (∃ parcel, a.meet x = (.sent parcel, { a with toClient := a.toClient + 1 })) ∨
      (∃ f, a.meet x = (.dropped f, a.drop)) ∨
      a.Closes x ∧ ∃ f, a.meet x =
        (.dropped f, { a with remote := a.remote.withFailed true }.drop) := by
  have hmeet := meet_of_other hc hcl
  rcases handBack_cases h client x.sender (x.datagram.take longestDatagram) with he |
    ⟨k, cause, hr, hu⟩
  · match hb : a.handBack client x.sender (x.datagram.take longestDatagram) with
    | (none, b) =>
      rw [hb] at he hmeet
      subst he
      exact .inl hmeet
    | (some (.error f), b) =>
      rw [hb] at he hmeet
      subst he
      exact .inr (.inr (.inl ⟨f, hmeet⟩))
    | (some (.ok parcel), b) =>
      rw [hb] at he hmeet
      subst he
      dsimp only at hmeet
      rcases send_cases b { b with toClient := b.toClient + 1 } x.refuses parcel with hs | ⟨_, hs⟩
      · exact .inr (.inl ⟨parcel, hmeet.trans hs⟩)
      · exact .inr (.inr (.inl ⟨_, hmeet.trans hs⟩))
  · have hx : a.Closes x := ⟨by rw [hcl]; nofun, hc, k, hr, cause, hu⟩
    exact .inr (.inr (.inr ⟨hx, meet_of_closes hx⟩))

/-- A dropped datagram makes its sender the client, if there was none, or closes the session. -/
theorem meet_dropped (h : a.remote.Plain) {f : Failure} {a' : Association}
    (hd : a.meet x = (.dropped f, a')) :
    (a.client = none ∧ x.sender.socket.ip = a.clientIp ∧
        ∃ e, a' = ({ a with client := some x.sender }.drawing e).drop) ∨
      (a.client ≠ none ∧ ∃ e, a' = (a.drawing e).drop) ∨
      a.Closes x ∧ a' = { a with remote := a.remote.withFailed true }.drop := by
  cases hc : a.isFromClient x.sender with
  | true =>
    obtain ⟨e, ⟨parcel, hm⟩ | ⟨g, hm⟩⟩ := meet_request h hc
    · cases hm.symm.trans hd
    · cases hm.symm.trans hd
      by_cases hn : a.client = none
      · refine .inl ⟨hn, ?_, e, rfl⟩
        unfold isFromClient at hc
        rw [hn] at hc
        exact of_decide_eq_true hc
      · obtain ⟨client, hcl⟩ := Option.ne_none_iff_exists'.mp hn
        rw [isFromClient_of_some hcl, decide_eq_true_eq] at hc
        refine .inr (.inl ⟨hn, e, ?_⟩)
        rw [← hc, ← hcl]
  | false =>
    by_cases hn : a.client = none
    · cases (meet_stranger hc hn).symm.trans hd
    · obtain ⟨client, hcl⟩ := Option.ne_none_iff_exists'.mp hn
      rcases meet_reply h hc hcl with hm | ⟨parcel, hm⟩ | ⟨g, hm⟩ | ⟨hx, g, hm⟩
      · cases hm.symm.trans hd
      · cases hm.symm.trans hd
      · cases hm.symm.trans hd
        exact .inr (.inl ⟨hn, a.entropy, rfl⟩)
      · cases hm.symm.trans hd
        exact .inr (.inr ⟨hx, rfl⟩)

/-- What a request leaves. -/
theorem exists_snd_meet_of_client (h : a.remote.Plain) (hc : a.isFromClient x.sender = true) :
    ∃ e m n, (a.meet x).2 =
      { a with client := some x.sender, entropy := e, toRemote := m, dropped := n } := by
  obtain ⟨e, ⟨parcel, hm⟩ | ⟨f, hm⟩⟩ := meet_request h hc
  · exact ⟨e, _, _, congrArg Prod.snd hm⟩
  · exact ⟨e, _, _, congrArg Prod.snd hm⟩

/-- What anything else leaves. -/
theorem exists_snd_meet_of_other (h : a.remote.Plain) (hc : a.isFromClient x.sender = false) :
    ∃ remote m n, (remote = a.remote ∨ remote = a.remote.withFailed true) ∧
      (a.meet x).2 = { a with remote := remote, toClient := m, dropped := n } := by
  by_cases hn : a.client = none
  · exact ⟨_, _, _, .inl rfl, congrArg Prod.snd (meet_stranger hc hn)⟩
  · obtain ⟨client, hcl⟩ := Option.ne_none_iff_exists'.mp hn
    rcases meet_reply h hc hcl with hm | ⟨parcel, hm⟩ | ⟨f, hm⟩ | ⟨-, f, hm⟩
    · exact ⟨_, _, _, .inl rfl, congrArg Prod.snd hm⟩
    · exact ⟨_, _, _, .inl rfl, congrArg Prod.snd hm⟩
    · exact ⟨_, _, _, .inl rfl, congrArg Prod.snd hm⟩
    · exact ⟨_, _, _, .inr rfl, congrArg Prod.snd hm⟩

theorem plain_meet (h : a.remote.Plain) (x : Arrival) : (a.meet x).2.remote.Plain := by
  cases hc : a.isFromClient x.sender with
  | true =>
    obtain ⟨e, m, n, hm⟩ := exists_snd_meet_of_client h hc
    rw [hm]
    exact h
  | false =>
    obtain ⟨remote, m, n, rfl | rfl, hm⟩ := exists_snd_meet_of_other h hc
    · rw [hm]
      exact h
    · rw [hm]
      exact h.withFailed true

theorem plain_relay (h : a.remote.Plain) (arrivals : List Arrival) :
    (a.relay arrivals).2.remote.Plain := by
  induction arrivals generalizing a with
  | nil => exact h
  | cons x later ih => exact ih (plain_meet h x)

theorem Reachable.plain (h : a.Reachable) : a.remote.Plain := by
  obtain ⟨clientIp, remote, entropy, earlier, hr, rfl⟩ := h
  exact plain_relay hr.plain earlier

end Meeting

section Counter

variable {a : Association}

theorem forward_drop (a : Association) (lookup : String → Except IoError (List Ip.Address))
    (packet : Bytes) :
    a.drop.forward lookup packet =
      ((a.forward lookup packet).1, (a.forward lookup packet).2.drop) := by
  unfold forward
  cases Socks.Packet.decode packet with
  | error f => rfl
  | ok found =>
    obtain ⟨clientIp, remote, client, toRemote, toClient, dropped, entropy⟩ := a
    cases remote with
    | destinations =>
      unfold drop
      dsimp only
      cases destination lookup found.1 <;> rfl
    | backend place pair => rfl

theorem handBack_drop (a : Association) (client sender : Ip.Zoned) (datagram : Bytes) :
    a.drop.handBack client sender datagram =
      ((a.handBack client sender datagram).1, (a.handBack client sender datagram).2.drop) := by
  obtain ⟨clientIp, remote, client, toRemote, toClient, dropped, entropy⟩ := a
  unfold handBack drop
  cases remote with
  | destinations =>
    dsimp only
    cases Socks.Packet.encode (.ip sender.socket) datagram <;> rfl
  | backend place pair =>
    dsimp only
    split <;> rfl

theorem send_drop (a : Association) (refuses : Parcel → Option IoError) (parcel : Parcel)
    (m n : Nat) : a.drop.send { a.drop with toRemote := m, toClient := n } refuses parcel =
      ((a.send { a with toRemote := m, toClient := n } refuses parcel).1,
        (a.send { a with toRemote := m, toClient := n } refuses parcel).2.drop) := by
  unfold send
  cases refuses parcel <;> rfl

/-- Nothing depends on how many datagrams were dropped. -/
theorem meet_drop (a : Association) (x : Arrival) :
    a.drop.meet x = ((a.meet x).1, (a.meet x).2.drop) := by
  have hfrom : a.drop.isFromClient x.sender = a.isFromClient x.sender := rfl
  cases hc : a.isFromClient x.sender with
  | true =>
    have hpinned : { a.drop with client := some x.sender } =
      drop { a with client := some x.sender } := rfl
    rw [meet_of_client hc, meet_of_client (hfrom.trans hc), hpinned, forward_drop]
    match { a with client := some x.sender }.forward x.lookup
        (x.datagram.take longestDatagram) with
    | (.error f, b) => rfl
    | (.ok parcel, b) => exact send_drop b x.refuses parcel (b.toRemote + 1) b.toClient
  | false =>
    by_cases hn : a.client = none
    · rw [meet_stranger hc hn, meet_stranger (hfrom.trans hc) hn]
    · obtain ⟨client, hcl⟩ := Option.ne_none_iff_exists'.mp hn
      rw [meet_of_other hc hcl, meet_of_other (hfrom.trans hc) hcl, handBack_drop]
      match a.handBack client x.sender (x.datagram.take longestDatagram) with
      | (none, b) => rfl
      | (some (.error f), b) => rfl
      | (some (.ok parcel), b) => exact send_drop b x.refuses parcel b.toRemote (b.toClient + 1)

theorem relay_drop (a : Association) (later : List Arrival) :
    a.drop.relay later = ((a.relay later).1, (a.relay later).2.drop) := by
  induction later generalizing a with
  | nil => rfl
  | cons x later ih => simp only [relay, meet_drop, ih]

end Counter

/-- Associations in which requests fare alike: only what opens replies, and the counters, differ. -/
structure Alike (a b : Association) : Prop where
  clientIp : a.clientIp = b.clientIp
  client : a.client = b.client
  entropy : a.entropy = b.entropy
  remote : a.remote.withFailed false = b.remote.withFailed false

section Requests

variable {a b c : Association} {x : Arrival}

theorem Alike.symm (h : a.Alike b) : b.Alike a :=
  ⟨h.clientIp.symm, h.client.symm, h.entropy.symm, h.remote.symm⟩

theorem Alike.trans (h : a.Alike b) (h' : b.Alike c) : a.Alike c :=
  ⟨h.clientIp.trans h'.clientIp, h.client.trans h'.client, h.entropy.trans h'.entropy,
    h.remote.trans h'.remote⟩

theorem Alike.isFromClient (h : a.Alike b) (sender : Ip.Zoned) :
    a.isFromClient sender = b.isFromClient sender := by
  unfold Association.isFromClient
  rw [h.client, h.clientIp]

theorem Alike.forward (h : a.Alike b) (ha : a.remote.Plain) (hb : b.remote.Plain)
    (lookup : String → Except IoError (List Ip.Address)) (packet : Bytes) :
    (a.forward lookup packet).1 = (b.forward lookup packet).1 ∧
      (a.forward lookup packet).2.Alike (b.forward lookup packet).2 := by
  obtain ⟨ip, remote, client, _, _, _, e⟩ := a
  obtain ⟨ip', remote', client', _, _, _, e'⟩ := b
  obtain ⟨rfl, rfl, rfl, hr⟩ := h
  dsimp only at ha hb hr
  unfold Association.forward
  cases Socks.Packet.decode packet with
  | error f => exact ⟨rfl, rfl, rfl, rfl, hr⟩
  | ok found =>
    cases ha with
    | destinations =>
      cases hb with
      | backend place k failed => cases hr
      | destinations =>
        dsimp only
        cases destination lookup found.1 <;> exact ⟨rfl, rfl, rfl, rfl, rfl⟩
    | backend place k failed =>
      cases hb with
      | destinations => cases hr
      | backend place' k' failed' =>
        cases hr
        exact ⟨rfl, rfl, rfl, rfl, rfl⟩

theorem withFailed_withFailed (r : Remote) (f f' : Bool) :
    (r.withFailed f).withFailed f' = r.withFailed f' := by
  match r with
  | .destinations => rfl
  | .backend _ ⟨_, .stream _⟩ => rfl
  | .backend _ ⟨_, .datagram _ _⟩ => rfl

/-- What does not come from the client makes no difference to requests. -/
theorem alike_meet_of_other (ha : a.remote.Plain) (hc : a.isFromClient x.sender = false) :
    (a.meet x).2.Alike a := by
  obtain ⟨remote, m, n, rfl | rfl, hm⟩ := exists_snd_meet_of_other ha hc
  · rw [hm]
    exact ⟨rfl, rfl, rfl, rfl⟩
  · rw [hm]
    exact ⟨rfl, rfl, rfl, withFailed_withFailed _ _ _⟩

theorem Alike.send (h : a.Alike b) (refuses : Parcel → Option IoError) (parcel : Parcel) :
    (a.send { a with toRemote := a.toRemote + 1 } refuses parcel).1 =
        (b.send { b with toRemote := b.toRemote + 1 } refuses parcel).1 ∧
      (a.send { a with toRemote := a.toRemote + 1 } refuses parcel).2.Alike
        (b.send { b with toRemote := b.toRemote + 1 } refuses parcel).2 := by
  unfold Association.send
  cases refuses parcel with
  | none => exact ⟨rfl, h.clientIp, h.client, h.entropy, h.remote⟩
  | some e => exact ⟨rfl, h.clientIp, h.client, h.entropy, h.remote⟩

theorem Alike.meet_of_client (h : a.Alike b) (ha : a.remote.Plain) (hb : b.remote.Plain)
    (hc : a.isFromClient x.sender = true) :
    (a.meet x).1 = (b.meet x).1 ∧ (a.meet x).2.Alike (b.meet x).2 := by
  have hpinned : Alike { a with client := some x.sender } { b with client := some x.sender } :=
    ⟨h.clientIp, rfl, h.entropy, h.remote⟩
  obtain ⟨h₁, h₂⟩ := hpinned.forward ha hb x.lookup (x.datagram.take longestDatagram)
  rw [Association.meet_of_client hc, Association.meet_of_client (h.isFromClient _ ▸ hc)]
  match hfa : { a with client := some x.sender }.forward x.lookup
      (x.datagram.take longestDatagram),
    hfb : { b with client := some x.sender }.forward x.lookup
      (x.datagram.take longestDatagram) with
  | (.ok parcel, a₁), (r, b₁) =>
    rw [hfa, hfb] at h₁ h₂
    subst h₁
    exact h₂.send x.refuses parcel
  | (.error f, a₁), (r, b₁) =>
    rw [hfa, hfb] at h₁ h₂
    subst h₁
    exact ⟨rfl, h₂.clientIp, h₂.client, h₂.entropy, h₂.remote⟩

theorem Alike.meet (h : a.Alike b) (ha : a.remote.Plain) (hb : b.remote.Plain) (x : Arrival) :
    (a.meet x).2.Alike (b.meet x).2 := by
  cases hc : a.isFromClient x.sender with
  | true => exact (h.meet_of_client ha hb hc).2
  | false =>
    have hc' : b.isFromClient x.sender = false := h.isFromClient _ ▸ hc
    exact ((alike_meet_of_other ha hc).trans h).trans (alike_meet_of_other hb hc').symm

theorem client_meet (ha : a.remote.Plain) {client : Ip.Zoned} (hcl : a.client = some client)
    (x : Arrival) : (a.meet x).2.client = some client := by
  cases hc : a.isFromClient x.sender with
  | true =>
    have hs : some x.sender = some client := by
      rw [isFromClient_of_some hcl, decide_eq_true_eq] at hc
      rw [hc]
    obtain ⟨e, m, n, hm⟩ := exists_snd_meet_of_client ha hc
    rw [hm]
    exact hs
  | false => exact (alike_meet_of_other ha hc).client.trans hcl

/-- The client's datagrams fare alike, whatever comes between them. -/
theorem Alike.relay (h : a.Alike b) (ha : a.remote.Plain) (hb : b.remote.Plain)
    {later : List Arrival} {i : Nat} (hx : later[i]? = some x) (hc : a.client = some x.sender) :
    (a.relay later).1[i]? = (b.relay later).1[i]? := by
  induction later generalizing a b i with
  | nil => rfl
  | cons y later ih =>
    cases i with
    | zero =>
      cases hx
      have hfrom : a.isFromClient x.sender = true := by
        rw [isFromClient_of_some hc, decide_eq_true_eq]
      exact congrArg some (h.meet_of_client ha hb hfrom).1
    | succ i =>
      exact ih (h.meet ha hb y) (plain_meet ha y) (plain_meet hb y) hx (client_meet ha hc y)

end Requests

section Later

variable {a : Association} {x : Arrival} {k : Cipher.SharedKey} {place client : Ip.Zoned}
  {failed : Bool}

/-- What the datagram at a place of a list comes to. -/
theorem getElem?_relay (a : Association) (earlier : List Arrival) (x : Arrival)
    (later : List Arrival) :
    (a.relay (earlier ++ x :: later)).1[earlier.length]? =
      some ((a.relay earlier).2.meet x).1 := by
  induction earlier generalizing a with
  | nil => rfl
  | cons y earlier ih => exact ih (a.meet y).2

theorem client_relay (ha : a.remote.Plain) (hcl : a.client = some client)
    (arrivals : List Arrival) : (a.relay arrivals).2.client = some client := by
  induction arrivals generalizing a with
  | nil => exact hcl
  | cons x later ih => exact ih (plain_meet ha x) (client_meet ha hcl x)

/-- The session of a backend stays, and stays failed. -/
theorem remote_meet (h : a.remote = .backend place ⟨.datagram k, .datagram k failed⟩)
    (x : Arrival) : ∃ failed', (failed = true → failed' = true) ∧
      (a.meet x).2.remote = .backend place ⟨.datagram k, .datagram k failed'⟩ := by
  have hp : a.remote.Plain := h ▸ .backend place k failed
  cases hc : a.isFromClient x.sender with
  | true =>
    obtain ⟨e, m, n, hm⟩ := exists_snd_meet_of_client hp hc
    rw [hm]
    exact ⟨failed, id, h⟩
  | false =>
    obtain ⟨remote, m, n, rfl | rfl, hm⟩ := exists_snd_meet_of_other hp hc
    · rw [hm]
      exact ⟨failed, id, h⟩
    · rw [hm]
      exact ⟨true, fun _ => rfl, congrArg (Remote.withFailed · true) h⟩

theorem remote_relay (h : a.remote = .backend place ⟨.datagram k, .datagram k failed⟩)
    (arrivals : List Arrival) : ∃ failed', (failed = true → failed' = true) ∧
      (a.relay arrivals).2.remote = .backend place ⟨.datagram k, .datagram k failed'⟩ := by
  induction arrivals generalizing a failed with
  | nil => exact ⟨failed, id, h⟩
  | cons x later ih =>
    obtain ⟨failed₁, h₁, hm⟩ := remote_meet h x
    obtain ⟨failed₂, h₂, hr⟩ := ih hm
    exact ⟨failed₂, h₂ ∘ h₁, hr⟩

/-- What is not from the client comes to this, wherever in a list it arrives: a stranger's datagram
is ignored, and the backend's is refused if its session has failed. -/
theorem relay_of_other (h : a.remote = .backend place ⟨.datagram k, .datagram k failed⟩)
    (hcl : a.client = some client) (hne : client ≠ x.sender) (earlier later : List Arrival) :
    (x.sender ≠ place →
      (a.relay (earlier ++ x :: later)).1[earlier.length]? = some .ignored) ∧
    (x.sender = place → failed = true →
      (a.relay (earlier ++ x :: later)).1[earlier.length]? =
        some (.dropped (.cipher .sessionClosed))) := by
  have hclient := client_relay (h ▸ .backend place k failed) hcl earlier
  obtain ⟨failed', hstays, hremote⟩ := remote_relay h earlier
  have hother : (a.relay earlier).2.isFromClient x.sender = false := by
    rw [isFromClient_of_some hclient]
    exact decide_eq_false hne
  rw [getElem?_relay, meet_reply_of_backend hremote hother hclient]
  refine ⟨fun hs => ?_, fun hs hfailed => ?_⟩
  · rw [if_pos hs]
  · rw [if_neg (not_not_intro hs), if_pos (hstays hfailed)]

/-- Behind the datagram that the session fails on, the backend's datagrams are refused, and all
others fare as they would without it. -/
theorem relay_of_closes (ha : a.remote.Plain) (hx : a.Closes x) (later : List Arrival) {i : Nat}
    {y : Arrival} (hy : later[i]? = some y) :
    ({ a with remote := a.remote.withFailed true }.relay later).1[i]? =
      if y.sender = x.sender then some (.dropped (.cipher .sessionClosed))
      else (a.relay later).1[i]? := by
  obtain ⟨hn, hc, k, hr, -⟩ := hx
  obtain ⟨client, hcl⟩ := Option.ne_none_iff_exists'.mp hn
  have hne : client ≠ x.sender := by
    rw [isFromClient_of_some hcl] at hc
    exact of_decide_eq_false hc
  have hclosed : a.remote.withFailed true = .backend x.sender ⟨.datagram k, .datagram k true⟩ :=
    congrArg (Remote.withFailed · true) hr
  obtain ⟨hlt, rfl⟩ := List.getElem?_eq_some_iff.mp hy
  have hlater : later = later.take i ++ later[i] :: later.drop (i + 1) := by
    rw [← List.drop_eq_getElem_cons hlt, List.take_append_drop]
  have hi : (later.take i).length = i := List.length_take_of_le (Nat.le_of_lt hlt)
  by_cases hs : later[i].sender = x.sender
  · have hrefused := (relay_of_other (a := { a with remote := a.remote.withFailed true }) hclosed
      hcl (hs ▸ hne) (later.take i) (later.drop (i + 1))).2 hs rfl
    rw [← hlater, hi] at hrefused
    rw [hrefused, if_pos hs]
  · rw [if_neg hs]
    have halike : Alike { a with remote := a.remote.withFailed true } a :=
      ⟨rfl, rfl, rfl, withFailed_withFailed _ _ _⟩
    by_cases hclient : client = later[i].sender
    · exact halike.relay (ha.withFailed true) ha hy (hcl.trans (congrArg some hclient))
    · have hwith := (relay_of_other (a := { a with remote := a.remote.withFailed true }) hclosed
        hcl hclient (later.take i) (later.drop (i + 1))).1 hs
      have hwithout := (relay_of_other hr hcl hclient (later.take i) (later.drop (i + 1))).1 hs
      rw [← hlater, hi] at hwith hwithout
      rw [hwith, hwithout]

end Later

end Association

end SocksChain
