import SocksChain.Proofs.Channel.Delivery

/-!
Sending. A write or a flush that is not ready has used up one of the answers that its sink still
has to give; so on every outlet, whatever fails on it and with or without a cipher, something comes
of it. A dialogue that only writes therefore runs to its end, and the inlet does not matter to it.
-/

namespace SocksChain.Channel

/-- An attempt that always uses something up when it is not ready comes to something. -/
theorem exists_of_retry_of_lt {σ α : Type} {toCome : σ → Nat} {attempt : σ → Attempt α × σ}
    (h : ∀ s, (attempt s).1 = .notReady → toCome (attempt s).2 < toCome s) (s : σ) :
    ∃ r s', retry toCome attempt s = (some r, s') := by
  have hex : ∃ r s', retry toCome attempt s = (some r, s') ∧ True := by
    refine exists_of_retry (P := fun _ => True) (R := fun _ _ => True) (fun s _ => ?_) trivial
    have hs := h s
    generalize attempt s = x at hs ⊢
    rcases x with ⟨a | _ | e, s'⟩
    · trivial
    · exact ⟨trivial, hs rfl⟩
    · trivial
  obtain ⟨r, s', hr, -⟩ := hex
  exact ⟨r, s', hr⟩

theorem Sink.length_writes_write (k : Sink) (b : Bytes) :
    (k.write b).2.writes.length ≤ k.writes.length ∧
      ((k.write b).1 = .notReady → (k.write b).2.writes.length < k.writes.length) ∧
      (k.write b).2.flushes = k.flushes := by
  unfold Sink.write
  split <;> rename_i h <;> simp [h, Sink.take]

theorem length_writes_drain (sealed : Bytes) (k : Sink) :
    (drain sealed k).2.2.writes.length ≤ k.writes.length ∧
      ((drain sealed k).1 = .notReady → (drain sealed k).2.2.writes.length < k.writes.length) ∧
      (drain sealed k).2.2.flushes = k.flushes := by
  fun_induction drain sealed k with
  | case1 => exact ⟨Nat.le_refl _, nofun, rfl⟩
  | case2 sealed k hs k' hw =>
    have hk := k.length_writes_write sealed
    rw [hw] at hk
    exact ⟨hk.1, nofun, hk.2.2⟩
  | case3 sealed k hs n k' hw hlt ih =>
    have hk := k.length_writes_write sealed
    rw [hw] at hk
    exact ⟨Nat.le_trans ih.1 hk.1, fun h => Nat.lt_of_lt_of_le (ih.2.1 h) hk.1,
      ih.2.2.trans hk.2.2⟩
  | case4 sealed k hs k' hw =>
    have hk := k.length_writes_write sealed
    rw [hw] at hk
    exact ⟨hk.1, fun _ => hk.2.1 rfl, hk.2.2⟩
  | case5 sealed k hs e k' hw =>
    have hk := k.length_writes_write sealed
    rw [hw] at hk
    exact ⟨hk.1, nofun, hk.2.2⟩

namespace Outlet

theorem toCome_settle (o : Outlet) : o.settle.2.toCome ≤ o.toCome ∧
    (o.settle.1 = .notReady → o.settle.2.toCome < o.toCome) := by
  unfold settle
  split
  · exact ⟨Nat.le_refl _, nofun⟩
  · rename_i c hc
    obtain ⟨hle, hlt, hf⟩ := length_writes_drain c.sealed o.sink
    simp only [toCome]
    rw [hf]
    exact ⟨Nat.add_le_add_right hle _, fun h => Nat.add_lt_add_right (hlt h) _⟩

theorem accept_ne_notReady (o : Outlet) (c : Enciphering) (text : Bytes) :
    (o.accept c text).1 ≠ .notReady := by
  unfold accept
  dsimp only
  split <;> nofun

theorem toCome_lt_of_write (b : Bytes) (o : Outlet) (h : (o.write b).1 = .notReady) :
    (o.write b).2.toCome < o.toCome := by
  unfold write at h ⊢
  split at h <;> rename_i hl
  · obtain ⟨-, hlt, hf⟩ := o.sink.length_writes_write b
    simp only [toCome]
    rw [hf]
    exact Nat.add_lt_add_right (hlt h) _
  · have hs := o.toCome_settle
    split at h
    · split at h
      · split at h
        · cases h
        · exact absurd h (accept_ne_notReady _ _ _)
      · cases h
    · rename_i o' ho
      rw [ho] at hs
      exact hs.2 rfl
    · cases h

theorem toCome_lt_of_flush (o : Outlet) (h : o.flush.1 = .notReady) :
    o.flush.2.toCome < o.toCome := by
  have hs := o.toCome_settle
  unfold flush at h ⊢
  match ho : o.settle with
  | (.ready a, o') =>
    rw [ho] at h hs
    dsimp only at h hs ⊢
    refine Nat.lt_of_lt_of_le ?_ hs.1
    simp only [toCome]
    unfold Sink.flush at h ⊢
    split at h <;> rename_i hf
    · cases h
    · cases h
    · simp [hf]
    · cases h
  | (.notReady, o') =>
    rw [ho] at hs
    exact hs.2 rfl
  | (.failed e, o') =>
    rw [ho] at h
    cases h

theorem exists_of_retry_write (o : Outlet) (b : Bytes) :
    ∃ r o', retry toCome (fun o => o.write b) o = (some r, o') :=
  exists_of_retry_of_lt (toCome_lt_of_write b) o

theorem exists_of_retry_flush (o : Outlet) : ∃ r o', retry toCome flush o = (some r, o') :=
  exists_of_retry_of_lt toCome_lt_of_flush o

end Outlet

namespace Dialogue

variable {α β : Type}

/-- A dialogue that never reads. -/
inductive Mute : Dialogue α → Prop
  | done {a : α} : Mute (.done a)
  | write {b : Bytes} {next : Except IoError Nat → Dialogue α} :
      (∀ r, Mute (next r)) → Mute (.write b next)
  | flush {next : Except IoError Unit → Dialogue α} : (∀ r, Mute (next r)) → Mute (.flush next)

theorem Mute.bind {d : Dialogue α} {f : α → Dialogue β} (h : d.Mute) (hf : ∀ a, (f a).Mute) :
    (d.bind f).Mute := by
  induction h with
  | done => exact hf _
  | write _ ih => exact .write ih
  | flush _ ih => exact .flush ih

/-- It comes to an end, and to the same one whatever arrives. -/
theorem Mute.exists_run {d : Dialogue α} (h : d.Mute) (o : Outlet) :
    ∃ a o', ∀ i, d.run ⟨i, o⟩ = (.done a, ⟨i, o'⟩) := by
  induction h generalizing o with
  | done => exact ⟨_, o, fun i => rfl⟩
  | @write b next hn ih =>
    obtain ⟨r, o', hr⟩ := o.exists_of_retry_write b
    obtain ⟨a, o'', ha⟩ := ih r o'
    refine ⟨a, o'', fun i => ?_⟩
    simp only [run, hr]
    exact ha i
  | @flush next hn ih =>
    obtain ⟨r, o', hr⟩ := o.exists_of_retry_flush
    obtain ⟨a, o'', ha⟩ := ih r o'
    refine ⟨a, o'', fun i => ?_⟩
    simp only [run, hr]
    exact ha i

end Dialogue

namespace Exchange

open Dialogue

variable {α : Type}

theorem mute_bind {x : Exchange α} {β : Type} {f : α → Exchange β} (h : Mute x)
    (hf : ∀ a, Mute (f a)) : Mute (x >>= f : Exchange β) := by
  refine Mute.bind h fun r => ?_
  cases r with
  | error e => exact .done
  | ok a => exact hf a

theorem mute_writeAll (b : Bytes) : Mute (writeAll b) := by
  induction hn : b.length using Nat.strongRecOn generalizing b with
  | ind n ih =>
    subst hn
    rw [writeAll]
    split
    · exact .done
    · rename_i hb
      refine .write fun r => ?_
      rcases r with e | n
      · exact .done
      · cases n with
        | zero => exact .done
        | succ n => exact ih _ (length_drop_succ_lt hb n) _ rfl

theorem mute_send (b : Bytes) : Mute (send b) := by
  refine mute_bind (mute_writeAll b) fun _ => .flush fun r => ?_
  cases r with
  | error e => exact .done
  | ok _ => exact .done

end Exchange

end SocksChain.Channel
