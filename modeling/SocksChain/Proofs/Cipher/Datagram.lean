import SocksChain.Proofs.Cipher.Integrity

/-!
Datagrams of a shared key. What has been locked opens as what it was, whatever its salt and whatever
came before it; and of a suite that authenticates, nothing opens that is not exactly what locking its
text with its salt gives.
-/

namespace SocksChain

/-- Whatever unlocks is what locking the text gives. -/
theorem Crypto.Aead.lock_of_unlock? {c : Crypto.Aead} {nonce locked text : Bytes}
    (h : c.unlock? nonce locked = some text) : c.lock nonce text = locked := by
  unfold Aead.unlock? at h
  split at h
  · cases h
  · dsimp only at h
    split at h
    · rename_i ht
      cases h
      rw [Aead.lock, Aead.crypt_crypt, ht, List.take_append_drop]
    · cases h

namespace Cipher

theorem SharedKey.keyed_of_not_authenticates {k : SharedKey} (h : k.suite.authenticates = false)
    (salt : Bytes) : k.keyed salt = .keystream (.ofKey (Crypto.Md5.hash (k.master ++ salt))) := by
  obtain ⟨suite, master⟩ := k
  cases suite with
  | rc4Md5 => rfl
  | _ => cases h

namespace Datagram

variable {k : SharedKey} {salt : Bytes}

theorem unlock_lock (hs : salt.length = k.suite.saltLength) (text : Bytes) :
    unlock k (lock k salt text) = .ok text := by
  have htake : ∀ body : Bytes, (salt ++ body).take k.suite.saltLength = salt := fun body => by
    rw [← hs, List.take_left]
  have hdrop : ∀ body : Bytes, (salt ++ body).drop k.suite.saltLength = body := fun body => by
    rw [← hs, List.drop_left]
  cases ha : k.suite.authenticates with
  | true =>
    have hk := SharedKey.keyed_of_authenticates ha salt
    simp only [lock, hk]
    unfold unlock
    simp only [htake, hdrop, hk, Crypto.Aead.unlock?_lock, List.length_append, hs,
      Crypto.Aead.length_lock, ha]
    rw [if_neg (by simp), if_neg (by omega)]
  | false =>
    have hk := SharedKey.keyed_of_not_authenticates ha salt
    simp only [lock, hk]
    unfold unlock
    simp only [htake, hdrop, hk, List.length_append, hs, ha, Crypto.Rc4.apply_apply]
    rw [if_neg (by simp), if_neg (by omega)]

theorem length_lock_le (k : SharedKey) (salt text : Bytes) :
    (lock k salt text).length ≤ salt.length + text.length + Crypto.tagLength := by
  unfold lock
  split
  · rw [List.length_append, Crypto.Aead.length_lock]
    omega
  · rw [List.length_append, Crypto.Rc4.length_apply]
    omega

/-- What opens under a suite that authenticates has been locked with the key. -/
theorem eq_lock_of_unlock (ha : k.suite.authenticates = true) {packet text : Bytes}
    (h : unlock k packet = .ok text) :
    packet = lock k (packet.take k.suite.saltLength) text := by
  have hk := SharedKey.keyed_of_authenticates ha (packet.take k.suite.saltLength)
  unfold unlock at h
  dsimp only at h
  split at h
  · cases h
  · split at h
    · cases h
    · rw [hk] at h
      dsimp only at h
      split at h
      · rename_i payload hu
        cases h
        simp only [lock, hk, Crypto.Aead.lock_of_unlock? hu, List.take_append_drop]
      · cases h

/-- Without authentication, a change of the last byte is the same change of the text. -/
theorem lock_concat (ha : k.suite.authenticates = false) (salt text : Bytes) (x mask : UInt8) :
    ∃ front y, lock k salt (text ++ [x]) = front ++ [y] ∧
      lock k salt (text ++ [x ^^^ mask]) = front ++ [y ^^^ mask] := by
  have hk := SharedKey.keyed_of_not_authenticates ha salt
  generalize Crypto.Rc4.ofKey _ = r at hk
  refine ⟨salt ++ (r.apply text).1, x ^^^ (r.apply text).2.next.1, ?_, ?_⟩
  · simp [lock, hk, Crypto.Rc4.apply_append, Crypto.Rc4.apply_cons]
  · have hx : x ^^^ mask ^^^ (r.apply text).2.next.1 = x ^^^ (r.apply text).2.next.1 ^^^ mask := by
      rw [UInt8.xor_assoc, UInt8.xor_comm mask, UInt8.xor_assoc]
    simp [lock, hk, Crypto.Rc4.apply_append, Crypto.Rc4.apply_cons, hx]

end Datagram

namespace Encryptor

theorem length_feed (s : Encryptor) (e : Entropy) (texts : List Bytes) :
    (s.feed e texts).1.length = texts.length := by
  induction texts generalizing s e with
  | nil => rfl
  | cons text rest ih => exact congrArg (· + 1) (ih _ _)

/-- Every packet of a datagram session is its own text, locked with a salt of its own. -/
theorem eq_lock_of_mem_feed {k : SharedKey} (e : Entropy) (texts : List Bytes) {x : Bytes × Bytes}
    (h : x ∈ ((datagram k).feed e texts).1.zip texts) :
    ∃ salt, salt.length = k.suite.saltLength ∧ x.1 = Datagram.lock k salt x.2 := by
  induction texts generalizing e with
  | nil => cases h
  | cons text rest ih =>
    rcases List.mem_cons.mp h with rfl | h
    · exact ⟨e.draw k.suite.saltLength, e.length_draw _, rfl⟩
    · exact ih _ h

end Encryptor

namespace Decryptor

/-- As long as every packet opens, a datagram session stays as it is. -/
theorem feed_datagram {k : SharedKey} {arrivals : List (Bytes × Bytes)}
    (h : ∀ x ∈ arrivals, Datagram.unlock k x.1 = .ok x.2) :
    (datagram k false).feed (arrivals.map (·.1)) =
      (arrivals.map fun x => (x.2, none), datagram k false) := by
  induction arrivals with
  | nil => rfl
  | cons x rest ih =>
    obtain ⟨hx, hrest⟩ := List.forall_mem_cons.mp h
    have hupdate : (datagram k false).update x.1 = (x.2, none, datagram k false) := by
      simp only [update, hx]
    simp only [List.map_cons, feed, hupdate, ih hrest]

end Decryptor

/-- **Datagrams open in whatever order they arrive.** Of what one session has sealed, any packets may
be lost, repeated or overtaken by others: each one that arrives opens as the text that was sealed in
it, and the session that opens it is as fresh before the next one as it was at first. -/
theorem SharedKey.datagrams_open_in_any_order (key : SharedKey) (e : Entropy) (texts : List Bytes)
    {arrivals : List (Bytes × Bytes)}
    (h : arrivals ⊆ ((key.pair true).encryptor.feed e texts).1.zip texts) :
    let packets := ((key.pair true).encryptor.feed e texts).1
    let arriving := arrivals.map (·.1)
    packets.length = texts.length ∧
      ((key.pair true).decryptor.feed arriving).1 = arrivals.map (fun x => (x.2, none)) ∧
      ∀ n, let s := ((key.pair true).decryptor.feed (arriving.take n)).2
        s = (key.pair true).decryptor ∧ s.isPartial = false := by
  intro packets arriving
  have hopens : ∀ x ∈ arrivals, Datagram.unlock key x.1 = .ok x.2 := by
    intro x hx
    obtain ⟨salt, hs, hlock⟩ := Encryptor.eq_lock_of_mem_feed e texts (h hx)
    rw [hlock]
    exact Datagram.unlock_lock hs x.2
  refine ⟨Encryptor.length_feed _ e texts, congrArg Prod.fst (Decryptor.feed_datagram hopens),
    fun n => ?_⟩
  have hfront : ∀ x ∈ arrivals.take n, Datagram.unlock key x.1 = .ok x.2 :=
    fun x hx => hopens x (List.mem_of_mem_take hx)
  have hs : ((key.pair true).decryptor.feed (arriving.take n)).2 = (key.pair true).decryptor := by
    rw [← List.map_take]
    exact congrArg Prod.snd (Decryptor.feed_datagram hfront)
  exact ⟨hs, congrArg Decryptor.isPartial hs⟩

/-- Of three datagrams the first is lost, and the last comes twice and before the second. -/
theorem SharedKey.datagrams_open_out_of_order :
    let key := SharedKey.ofSecret .aes256Gcm "secret"
    let texts : List Bytes := [[1], [], [2, 3]]
    let packet (text : Bytes) := Datagram.lock key (({} : Entropy).draw 32) text
    let arrivals := [(packet [2, 3], [2, 3]), (packet [], []), (packet [2, 3], [2, 3])]
    arrivals ⊆ ((key.pair true).encryptor.feed {} texts).1.zip texts ∧
      ((key.pair true).decryptor.feed (arrivals.map (·.1))).1 =
        [([2, 3], none), ([], none), ([2, 3], none)] := by
  intro key texts packet arrivals
  have hsent : ((key.pair true).encryptor.feed {} texts).1.zip texts =
      [(packet [1], [1]), (packet [], []), (packet [2, 3], [2, 3])] := rfl
  have h : arrivals ⊆ ((key.pair true).encryptor.feed {} texts).1.zip texts := by
    rw [hsent]
    simp [arrivals]
  exact ⟨h, (datagrams_open_in_any_order key {} texts h).2.1⟩

end Cipher

end SocksChain
