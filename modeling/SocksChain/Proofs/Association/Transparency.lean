import SocksChain.Proofs.Association
import SocksChain.Proofs.Cipher.Datagram
import SocksChain.Proofs.Socks.Packet

/-!
Whom an association serves, and what it makes of their datagrams. Its requests all come from the
first sender at the client's address, and its replies all go there. What a request holds arrives
where it is to go, sealed for the backend if there is one; and what comes back reaches the client as
a packet that says whom it came from, or what the backend has sealed. Senders are told apart by all
of their address; the packets have room for no zone and no flow label.
-/

namespace SocksChain

theorem Remote.Plain.eq_or {r : Remote} (h : r.Plain) : r = .destinations ∨
    ∃ place k failed, r = .backend place ⟨.datagram k, .datagram k failed⟩ := by
  cases h with
  | destinations => exact .inl rfl
  | backend place k failed => exact .inr ⟨place, k, failed, rfl⟩

namespace Association

open Socks Cipher

/-- The first sender at an address. -/
def firstAt (ip : Ip.Address) (arrivals : List Arrival) : Option Ip.Zoned :=
  (arrivals.find? fun x => x.sender.socket.ip = ip).map Arrival.sender

section Pinned

variable {a : Association} {x : Arrival}

theorem firstAt_cons (ip : Ip.Address) (x : Arrival) (later : List Arrival) :
    firstAt ip (x :: later) = if x.sender.socket.ip = ip then some x.sender else firstAt ip later := by
  unfold firstAt
  rw [List.find?_cons]
  by_cases h : x.sender.socket.ip = ip
  · simp [h]
  · simp [h]

theorem firstAt_append (ip : Ip.Address) (earlier later : List Arrival) :
    firstAt ip (earlier ++ later) = (firstAt ip earlier).or (firstAt ip later) := by
  unfold firstAt
  rw [List.find?_append]
  cases earlier.find? fun x => x.sender.socket.ip = ip <;> rfl

theorem firstAt_of_isFromClient (hc : a.isFromClient x.sender = true) (hn : a.client = none) :
    firstAt a.clientIp [x] = some x.sender := by
  unfold isFromClient at hc
  rw [hn] at hc
  rw [firstAt_cons, if_pos (of_decide_eq_true hc)]

/-- Of what a request or a reply depends on, a datagram changes only the client, if there was none,
and whether the session that opens replies has failed. -/
theorem meet_keeps (h : a.remote.Plain) (x : Arrival) :
    (a.meet x).2.clientIp = a.clientIp ∧
      (a.meet x).2.client = a.client.or (firstAt a.clientIp [x]) ∧
      (a.meet x).2.remote.withFailed false = a.remote.withFailed false := by
  cases hc : a.isFromClient x.sender with
  | true =>
    have hclient : some x.sender = a.client.or (firstAt a.clientIp [x]) := by
      cases hcl : a.client with
      | none => exact (firstAt_of_isFromClient hc hcl).symm
      | some client =>
        rw [isFromClient_of_some hcl, decide_eq_true_eq] at hc
        rw [hc]
        rfl
    obtain ⟨e, m, n, hm⟩ := exists_snd_meet_of_client h hc
    rw [hm]
    exact ⟨rfl, hclient, rfl⟩
  | false =>
    have halike := alike_meet_of_other h hc
    refine ⟨halike.clientIp, halike.client.trans ?_, halike.remote⟩
    cases hcl : a.client with
    | some client => rfl
    | none =>
      have hip : ¬ x.sender.socket.ip = a.clientIp := by
        unfold isFromClient at hc
        rw [hcl] at hc
        exact of_decide_eq_false hc
      rw [firstAt_cons, if_neg hip]
      rfl

theorem relay_keeps (h : a.remote.Plain) (arrivals : List Arrival) :
    (a.relay arrivals).2.clientIp = a.clientIp ∧
      (a.relay arrivals).2.client = a.client.or (firstAt a.clientIp arrivals) ∧
      (a.relay arrivals).2.remote.withFailed false = a.remote.withFailed false := by
  induction arrivals generalizing a with
  | nil => exact ⟨rfl, (Option.or_none).symm, rfl⟩
  | cons x later ih =>
    obtain ⟨hip, hclient, hremote⟩ := meet_keeps h x
    obtain ⟨hip', hclient', hremote'⟩ := ih (plain_meet h x)
    refine ⟨hip'.trans hip, ?_, hremote'.trans hremote⟩
    rw [relay, hclient', hclient, hip, Option.or_assoc]
    exact congrArg _ (firstAt_append a.clientIp [x] later).symm

/-- A datagram is a request exactly if its sender is the first one at the client's address. -/
theorem isFromClient_iff {clientIp : Ip.Address} {earlier : List Arrival}
    (hip : a.clientIp = clientIp) (hcl : a.client = firstAt clientIp earlier) :
    a.isFromClient x.sender = true ↔ firstAt clientIp (earlier ++ [x]) = some x.sender := by
  unfold isFromClient
  rw [firstAt_append, ← hcl, hip]
  cases a.client with
  | some client => simp
  | none =>
    rw [firstAt_cons]
    by_cases h : x.sender.socket.ip = clientIp
    · simp [h]
    · simp [h, firstAt]

end Pinned

section Passing

variable {a : Association} {x : Arrival}

theorem wrap_eq_ok_iff {tail packet : Bytes} : wrap tail = .ok packet ↔
    (∃ found, Address.parse tail = .ok (some found)) ∧ packet = 0 :: 0 :: 0 :: tail := by
  unfold wrap
  match Address.parse tail with
  | .ok (some found) =>
    constructor
    · intro h
      cases h
      exact ⟨⟨found, rfl⟩, rfl⟩
    · rintro ⟨-, rfl⟩
      rfl
  | .ok none => simp
  | .error f => simp

/-- What a request comes to without a backend: its payload goes to its destination. -/
theorem meet_request_of_destinations (hr : a.remote = .destinations)
    (hc : a.isFromClient x.sender = true) {address : Address} {payload : Bytes}
    (hp : Packet.encode address payload = .ok x.received) :
    (a.meet x).1 = match destination x.lookup address with
      | .error e => .dropped (.io e)
      | .ok place => x.handsOn ⟨.ofSocket place, payload⟩ := by
  obtain ⟨b, -, -, hd⟩ := Packet.exists_of_encode hp
  unfold Arrival.received at hd
  rw [meet_of_client hc]
  unfold forward
  simp only [hd, hr]
  cases destination x.lookup address with
  | error e => rfl
  | ok place => exact send_fst _ _ x _

/-- What a request comes to with a backend: address and payload go there, locked. -/
theorem meet_request_of_backend {place : Ip.Zoned} {k : SharedKey} {failed : Bool}
    (hr : a.remote = .backend place ⟨.datagram k, .datagram k failed⟩)
    (hc : a.isFromClient x.sender = true) {address : Address} {payload : Bytes}
    (hp : Packet.encode address payload = .ok x.received) :
    ∃ b, address.encode = .ok b ∧ (a.meet x).1 = x.handsOn
      ⟨place, Datagram.lock k (a.entropy.draw k.suite.saltLength) (b ++ payload)⟩ := by
  obtain ⟨b, hb, hpacket, hd⟩ := Packet.exists_of_encode hp
  rw [hpacket] at hd
  unfold Arrival.received at hpacket
  refine ⟨b, hb, ?_⟩
  rw [meet_of_client hc]
  unfold forward
  simp only [hr, hpacket, hd, List.drop_succ_cons, List.drop_zero, Encryptor.update]
  exact send_fst _ _ x _

/-- What a reply comes to without a backend: a packet that says whom it is from, but for zone and
flow label. -/
theorem meet_reply_of_destinations (hr : a.remote = .destinations)
    (hc : a.isFromClient x.sender = false) {client : Ip.Zoned} (hcl : a.client = some client) :
    ∃ packet, Packet.decode packet = .ok (.ip x.sender.socket, x.received) ∧
      (a.meet x).1 = x.handsOn ⟨client, packet⟩ := by
  match he : Packet.encode (.ip x.sender.socket) x.received with
  | .error f =>
    unfold Packet.encode at he
    match hs : x.sender.socket with
    | ⟨.v4 _, _⟩ =>
      rw [hs] at he
      cases he
    | ⟨.v6 _, _⟩ =>
      rw [hs] at he
      cases he
  | .ok packet =>
    obtain ⟨-, -, -, hd⟩ := Packet.exists_of_encode he
    refine ⟨packet, hd, ?_⟩
    unfold Arrival.received at he
    rw [meet_of_other hc hcl]
    unfold handBack
    simp only [hr, he]
    exact send_fst _ _ x _

/-- What an association without a backend makes of a datagram. A request has its payload sent to
where its address leads; anything else is a reply, and becomes a packet that says whom it is from,
but for zone and flow label. -/
structure PassesOn (a : Association) (x : Arrival) : Prop where
  request : a.isFromClient x.sender = true →
    ∀ address payload, Packet.encode address payload = .ok x.received →
      (a.meet x).1 = match destination x.lookup address with
        | .error e => .dropped (.io e)
        | .ok place => x.handsOn ⟨.ofSocket place, payload⟩
  reply : a.isFromClient x.sender = false → ∀ client, a.client = some client →
    ∃ packet, Packet.decode packet = .ok (.ip x.sender.socket, x.received) ∧
      (a.meet x).1 = x.handsOn ⟨client, packet⟩

/-- What an association with a backend makes of a datagram. A request is locked, and opens there as
the bytes of its address and its payload. Nothing else is delivered but what comes from the backend,
opens and starts with an address; of a suite that authenticates, it has been locked with the key.
What the backend has sealed is read by the client as what it is, and reaches it unless the session
has failed before. -/
structure PassesThrough (place : Ip.Zoned) (k : SharedKey) (a : Association) (x : Arrival) :
    Prop where
  request : a.isFromClient x.sender = true →
    ∀ address payload, Packet.encode address payload = .ok x.received → ∃ b sealed,
      address.encode = .ok b ∧ (a.meet x).1 = x.handsOn ⟨place, sealed⟩ ∧
        (k.pair true).decryptor.updateAll sealed = (.ok (b ++ payload), (k.pair true).decryptor)
  reply : a.isFromClient x.sender = false → ∀ parcel, (a.meet x).1 = .sent parcel →
    x.sender = place ∧ ∃ tail, Datagram.unlock k x.received = .ok tail ∧
      (k.suite.authenticates = true →
        x.received = Datagram.lock k (x.received.take k.suite.saltLength) tail) ∧
      (∃ found, Address.parse tail = .ok (some found)) ∧ parcel.payload = 0 :: 0 :: 0 :: tail
  genuine : a.isFromClient x.sender = false → ∀ address payload b salt, address.encode = .ok b →
    salt.length = k.suite.saltLength → x.received = Datagram.lock k salt (b ++ payload) →
      (∀ parcel, (a.meet x).1 = .sent parcel →
        Packet.decode parcel.payload = .ok (address, payload)) ∧
      ∀ client, a.client = some client → x.sender = place →
        a.remote = .backend place (k.pair true) → ∃ packet,
          Packet.decode packet = .ok (address, payload) ∧
            (a.meet x).1 = x.handsOn ⟨client, packet⟩

theorem passesOn (hr : a.remote = .destinations) (x : Arrival) : a.PassesOn x where
  request hc _ _ hp := meet_request_of_destinations hr hc hp
  reply hc _ hcl := meet_reply_of_destinations hr hc hcl

theorem eq_sent_of_handsOn {parcel parcel' : Parcel} (h : x.handsOn parcel = .sent parcel') :
    parcel = parcel' := by
  unfold Arrival.handsOn at h
  split at h
  · cases h
  · exact Fate.sent.inj h

/-- What is delivered of the backend's datagrams. -/
theorem exists_of_sent {place : Ip.Zoned} {k : SharedKey} {failed : Bool}
    (hr : a.remote = .backend place ⟨.datagram k, .datagram k failed⟩)
    (hc : a.isFromClient x.sender = false) {parcel : Parcel} (hs : (a.meet x).1 = .sent parcel) :
    x.sender = place ∧ a.client = some parcel.target ∧ ∃ tail,
      Datagram.unlock k x.received = .ok tail ∧
      (∃ found, Address.parse tail = .ok (some found)) ∧ parcel.payload = 0 :: 0 :: 0 :: tail := by
  cases hcl : a.client with
  | none =>
    rw [meet_stranger hc hcl] at hs
    cases hs
  | some client =>
    rw [meet_reply_of_backend hr hc hcl] at hs
    split at hs
    · cases hs
    · rename_i hplace
      split at hs
      · cases hs
      · split at hs
        · cases hs
        · rename_i tail hu
          split at hs
          · cases hs
          · rename_i packet hw
            obtain rfl := eq_sent_of_handsOn hs
            obtain ⟨hfound, rfl⟩ := wrap_eq_ok_iff.mp hw
            exact ⟨Decidable.not_not.mp hplace, rfl, tail, hu, hfound, rfl⟩

theorem passesThrough {place : Ip.Zoned} {k : SharedKey} {failed : Bool}
    (hr : a.remote = .backend place ⟨.datagram k, .datagram k failed⟩) (x : Arrival) :
    a.PassesThrough place k x where
  request := by
    intro hc address payload hp
    obtain ⟨b, hb, hm⟩ := meet_request_of_backend hr hc hp
    refine ⟨b, _, hb, hm, ?_⟩
    have hu := Datagram.unlock_lock (k := k) (a.entropy.length_draw k.suite.saltLength)
      (b ++ payload)
    simp only [SharedKey.pair, if_true, Decryptor.updateAll, Decryptor.update, hu]
  reply := by
    intro hc parcel hs
    obtain ⟨hplace, -, tail, hu, hfound, hp⟩ := exists_of_sent hr hc hs
    exact ⟨hplace, tail, hu, fun ha => Datagram.eq_lock_of_unlock ha hu, hfound, hp⟩
  genuine := by
    intro hc address payload b salt hb hsalt hx
    have hu : Datagram.unlock k x.received = .ok (b ++ payload) := by
      rw [hx]
      exact Datagram.unlock_lock hsalt _
    have hparse := Address.parse_append payload (Address.parse_encode hb)
    refine ⟨fun parcel hs => ?_, fun client hcl hplace hfresh => ?_⟩
    · obtain ⟨-, -, tail, hu', -, hp⟩ := exists_of_sent hr hc hs
      cases hu.symm.trans hu'
      rw [hp]
      exact Packet.decode_of_parse 0 0 hparse
    · refine ⟨_, Packet.decode_of_parse 0 0 hparse, ?_⟩
      rw [meet_reply_of_backend hfresh hc hcl, if_neg fun hn => hn hplace,
        if_neg Bool.false_ne_true, hu]
      dsimp only
      rw [wrap_eq_ok_iff.mpr ⟨⟨_, hparse⟩, rfl⟩]

/-- Whatever is sent but is no request goes to the client. -/
theorem client_of_sent (h : a.remote.Plain) (hc : a.isFromClient x.sender = false)
    {parcel : Parcel} (hs : (a.meet x).1 = .sent parcel) : a.client = some parcel.target := by
  rcases h.eq_or with hr | ⟨place, k, failed, hr⟩
  · cases hcl : a.client with
    | none =>
      rw [meet_stranger hc hcl] at hs
      cases hs
    | some client =>
      obtain ⟨packet, -, hm⟩ := meet_reply_of_destinations hr hc hcl
      obtain rfl := eq_sent_of_handsOn (hm.symm.trans hs)
      rfl
  · exact (exists_of_sent hr hc hs).2.1

end Passing

end Association

end SocksChain
