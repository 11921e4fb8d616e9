import SocksChain.Proofs.Channel.Delivery
import SocksChain.Proofs.Cipher.RoundTrip

/-!
What a ciphered outlet has sealed. Whatever its sink does, what the sink has taken and what the
outlet holds back come together to what the session has sealed, in order. A write seals one piece of
text, once, after everything held back has gone; or it seals nothing. On a sink that takes
everything in the end no call fails, and after a flush the other end can read all of it.
-/

namespace SocksChain.Channel

open Cipher

section Draining

variable {sealed : Bytes} {k k' : Sink}

theorem Sink.taken_of_write {b : Bytes} {answer : Attempt Nat} (h : k.write b = (answer, k')) :
    k'.taken = k.taken ++
      match answer with
      | .ready n => b.take n
      | _ => [] := by
  unfold Sink.write at h
  split at h <;> cases h
  · exact congrArg (k.taken ++ ·) List.take_length.symm
  · refine congrArg (k.taken ++ ·) ?_
    dsimp only
    rw [List.length_take, ← List.take_eq_take_min]
  · exact (List.append_nil _).symm
  · exact (List.append_nil _).symm

@[simp] theorem Sink.taken_flush (k : Sink) : k.flush.2.taken = k.taken := by
  unfold Sink.flush
  split <;> rfl

theorem drain_nil (k : Sink) : drain [] k = (.ready (), [], k) := by
  rw [drain, dif_pos rfl]

/-- When every write is taken whole. -/
theorem drain_of_writes_nil (sealed : Bytes) (hk : k.writes = []) :
    drain sealed k = (.ready (), [], k.take sealed) := by
  have hwrite : k.write sealed = (.ready sealed.length, k.take sealed) := by
    unfold Sink.write
    rw [hk]
  cases sealed with
  | nil => rw [drain_nil, Sink.take, List.append_nil]
  | cons x rest =>
    have hdrop : (x :: rest).drop (rest.length + 1) = [] := List.drop_length
    rw [drain, dif_neg (List.cons_ne_nil x rest)]
    simp only [hwrite, List.length_cons, hdrop, drain_nil]

theorem drain_of_notReady (hs : sealed ≠ []) (hw : k.write sealed = (.notReady, k')) :
    drain sealed k = (.notReady, sealed, k') := by
  rw [drain, dif_neg hs, hw]

theorem drain_of_failed {err : IoError} (hs : sealed ≠ [])
    (hw : k.write sealed = (.failed err, k')) : drain sealed k = (.failed err, sealed, k') := by
  rw [drain, dif_neg hs, hw]

/-- What has been taken, and what is left to take, is what there was. -/
theorem taken_drain (sealed : Bytes) (k : Sink) :
    (drain sealed k).2.2.taken ++ (drain sealed k).2.1 = k.taken ++ sealed := by
  fun_induction drain sealed k with
  | case1 k => rfl
  | case2 sealed k hs k' hw => simp [Sink.taken_of_write hw]
  | case3 sealed k hs n k' hw hlt ih => simp [ih, Sink.taken_of_write hw]
  | case4 sealed k hs k' hw => simp [Sink.taken_of_write hw]
  | case5 sealed k hs e k' hw => simp [Sink.taken_of_write hw]

theorem drain_ready (h : (drain sealed k).1 = .ready ()) : (drain sealed k).2.1 = [] := by
  fun_induction drain sealed k with
  | case1 k => rfl
  | case2 => cases h
  | case3 sealed k hs n k' hw hlt ih => exact ih h
  | case4 => cases h
  | case5 => cases h

theorem Sink.Takes.drain (h : k.Takes) (sealed : Bytes) :
    Unfailing (fun y => y.2.toCome) (fun y => y.2.Takes) (fun _ y => y.2.Takes) (sealed, k)
      (drain sealed k) := by
  fun_induction Channel.drain sealed k with
  | case1 k => exact .ready h (Nat.le_refl _)
  | case2 sealed k hs k' hw =>
    have hwrite := h.write hs
    rw [hw] at hwrite
    cases hwrite with
    | ready hr hle => exact absurd hr.1 (Nat.lt_irrefl 0)
  | case3 sealed k hs n k' hw hlt ih =>
    have hwrite := h.write hs
    rw [hw] at hwrite
    cases hwrite with
    | ready hr hle => exact (ih hr.2.2.1).of_le hle
  | case4 sealed k hs k' hw =>
    have hwrite := h.write hs
    rw [hw] at hwrite
    cases hwrite with
    | notReady hr hlt => exact .notReady hr.1 hlt
  | case5 sealed k hs e k' hw =>
    have hwrite := h.write hs
    rw [hw] at hwrite
    cases hwrite

end Draining

/-- Nothing is held back. -/
def Outlet.Settled (o : Outlet) : Prop := ∀ c, o.layer = some c → c.sealed = []

/-- The session over the outlet, which was fresh with these random bytes, has sealed `texts`, one
after another; all of it has been taken or is held back. -/
def Outlet.HasSealed (o : Outlet) (key : SharedKey) (e : Entropy) (texts : List Bytes) : Prop :=
  ∃ c sent, o.layer = some c ∧
    (key.pair false).encryptor.feed e texts = (sent, c.encryptor, c.entropy) ∧
    o.sink.taken ++ c.sealed = sent.flatten

/-- Whoever has the key reads `text`, and a whole number of frames, in what has been taken, however
it is cut. -/
def Outlet.ReadsAs (o : Outlet) (key : SharedKey) (text : Bytes) : Prop :=
  ∀ pieces : List Bytes, pieces.flatten = o.sink.taken →
    let r := (key.pair false).decryptor.feed pieces
    (∀ a ∈ r.1, a.2 = none) ∧ r.1.flatMap (·.1) = text ∧ r.2.isPartial = false

namespace Outlet

variable {o o' : Outlet} {key : SharedKey} {e : Entropy} {texts : List Bytes} {b text : Bytes}

/-- What a write can come to. What is held back goes out first; as long as that waits or fails,
nothing is sealed. An error after that comes too late for the piece of text, which is sealed. -/
inductive Writes (key : SharedKey) (e : Entropy) (texts : List Bytes) (o : Outlet) (b : Bytes) :
    Attempt Nat × Outlet → Prop
  | waits {o' : Outlet} : o.settle.1 = .notReady → o'.HasSealed key e texts →
      Writes key e texts o b (.notReady, o')
  | refused {o' : Outlet} {err : IoError} : o.settle.1 = .failed err → o'.HasSealed key e texts →
      Writes key e texts o b (.failed err, o')
  | nothing {o' : Outlet} : b = [] → o.settle.1 = .ready () → o'.HasSealed key e texts →
      Writes key e texts o b (.ready 0, o')
  | accepted {o' : Outlet} : b ≠ [] → o.settle.1 = .ready () →
      o'.HasSealed key e (texts ++ [b.take writePiece]) →
      Writes key e texts o b (.ready (b.take writePiece).length, o')
  | lost {o' : Outlet} {err : IoError} : b ≠ [] → o.settle.1 = .ready () →
      o'.HasSealed key e (texts ++ [b.take writePiece]) →
      Writes key e texts o b (.failed err, o')

theorem settled_settle (h : o.settle.1 = .ready ()) : o.settle.2.Settled := by
  obtain ⟨k, layer⟩ := o
  cases layer with
  | none => exact nofun
  | some c =>
    intro c' hc
    cases hc
    exact drain_ready h

theorem HasSealed.settle (h : o.HasSealed key e texts) : o.settle.2.HasSealed key e texts := by
  obtain ⟨k, layer⟩ := o
  obtain ⟨c, sent, rfl, hfeed, hsent⟩ := h
  exact ⟨_, sent, rfl, hfeed, (taken_drain c.sealed k).trans hsent⟩

/-- What is sealed onto an empty buffer comes after everything sealed before. -/
theorem HasSealed.accept {k : Sink} {c : Enciphering} (h : HasSealed ⟨k, some c⟩ key e texts)
    (hs : c.sealed = []) (text : Bytes) :
    (accept ⟨k, some c⟩ c text).2.HasSealed key e (texts ++ [text]) ∧
      ((accept ⟨k, some c⟩ c text).1 = .ready text.length ∨
        ∃ err, (accept ⟨k, some c⟩ c text).1 = .failed err) := by
  obtain ⟨_, sent, ⟨⟩, hfeed, hsent⟩ := h
  rw [hs, List.append_nil] at hsent
  have hsealed : HasSealed ⟨k, some ⟨(c.encryptor.update c.entropy text).2.1,
      (c.encryptor.update c.entropy text).2.2, (c.encryptor.update c.entropy text).1⟩⟩ key e
      (texts ++ [text]) := by
    refine ⟨_, sent ++ [(c.encryptor.update c.entropy text).1], rfl, ?_, ?_⟩
    · rw [Encryptor.feed_concat, hfeed]
    · rw [List.flatten_concat, hsent]
  -- Whatever the second attempt to empty the buffer comes to, the text has been sealed before it.
  have hsettle := hsealed.settle
  unfold Outlet.accept
  dsimp only
  generalize Outlet.settle _ = settled at hsettle ⊢
  obtain ⟨answer, o'⟩ := settled
  cases answer with
  | ready _ => exact ⟨hsettle, .inl rfl⟩
  | notReady => exact ⟨hsettle, .inl rfl⟩
  | failed err => exact ⟨hsettle, .inr ⟨err, rfl⟩⟩

theorem HasSealed.write (h : o.HasSealed key e texts) (b : Bytes) :
    o.Writes key e texts b (o.write b) := by
  have hsettle := h.settle
  have hempty : o.settle.1 = .ready () → o.settle.2.Settled := settled_settle
  obtain ⟨k, layer⟩ := o
  obtain ⟨c, sent, rfl, -⟩ := h
  unfold Outlet.write
  dsimp only
  match hr : Outlet.settle ⟨k, some c⟩ with
  | (.notReady, o') =>
    rw [hr] at hsettle
    exact .waits (by rw [hr]) hsettle
  | (.failed err, o') =>
    rw [hr] at hsettle
    exact .refused (by rw [hr]) hsettle
  | (.ready _, ⟨k', layer'⟩) =>
    rw [hr] at hsettle hempty
    obtain ⟨c', -, hc', -⟩ := id hsettle
    cases hc'
    by_cases hb : b = []
    · simp only [hb, List.isEmpty_nil, if_true]
      exact .nothing rfl (by rw [hr]) hsettle
    · have hacc := hsettle.accept (hempty rfl c' rfl) (b.take writePiece)
      simp only [List.isEmpty_iff, hb, if_false]
      generalize Outlet.accept _ _ _ = x at hacc ⊢
      obtain ⟨answer, o''⟩ := x
      obtain ⟨hsealed, rfl | ⟨err, rfl⟩⟩ := hacc
      · exact .accepted hb (by rw [hr]) hsealed
      · exact .lost hb (by rw [hr]) hsealed

theorem write_of_failed {k : Sink} {c : Enciphering} {err : IoError}
    (h : Outlet.settle ⟨k, some c⟩ = (.failed err, o')) (b : Bytes) :
    Outlet.write ⟨k, some c⟩ b = (.failed err, o') := by
  simp only [Outlet.write, h]

/-- What is done to the sink once nothing is held back seals nothing. -/
theorem HasSealed.after_settle (h : o.HasSealed key e texts) {f : Sink → Attempt Unit × Sink}
    (hf : ∀ k, (f k).2.taken = k.taken) :
    let r := match o.settle with
      | (.ready _, o) => ((f o.sink).1, { o with sink := (f o.sink).2 })
      | r => r
    r.2.HasSealed key e texts ∧ (r.1 = .ready () → r.2.Settled) := by
  have hsettle := h.settle
  have hempty : o.settle.1 = .ready () → o.settle.2.Settled := settled_settle
  generalize o.settle = x at hsettle hempty ⊢
  obtain ⟨_ | _ | _, o'⟩ := x
  · obtain ⟨c, sent, hc, hfeed, hsent⟩ := hsettle
    exact ⟨⟨c, sent, hc, hfeed, by rwa [hf]⟩, fun _ => hempty rfl⟩
  · exact ⟨hsettle, nofun⟩
  · exact ⟨hsettle, nofun⟩

theorem HasSealed.flush (h : o.HasSealed key e texts) :
    o.flush.2.HasSealed key e texts ∧ (o.flush.1 = .ready () → o.flush.2.Settled) :=
  h.after_settle Sink.taken_flush

theorem HasSealed.shutdown (h : o.HasSealed key e texts) :
    o.shutdown.2.HasSealed key e texts ∧ (o.shutdown.1 = .ready () → o.shutdown.2.Settled) :=
  h.after_settle (f := fun k => (.ready (), k.shutdown)) fun _ => rfl

/-- The other end can read all that has been sealed once nothing is held back. -/
theorem HasSealed.readsAs (h : o.HasSealed key e texts) (hs : o.Settled) :
    o.ReadsAs key texts.flatten := by
  obtain ⟨c, sent, hc, hfeed, hsent⟩ := h
  rw [hs c hc, List.append_nil] at hsent
  intro pieces hp
  refine key.feed_sent e texts pieces ?_
  rw [hp, hfeed, hsent]

/-- What has been sealed is no more than one text. -/
theorem HasSealed.flatten_unique {texts' : List Bytes} (h : o.HasSealed key e texts)
    (h' : o.HasSealed key e texts') : texts.flatten = texts'.flatten := by
  obtain ⟨c, sent, hc, hfeed, hsent⟩ := h
  obtain ⟨c', sent', hc', hfeed', hsent'⟩ := h'
  obtain rfl : c = c' := Option.some.inj (hc.symm.trans hc')
  have hp : [o.sink.taken ++ c.sealed].flatten = sent.flatten := List.flatten_singleton.trans hsent
  have hp' : [o.sink.taken ++ c.sealed].flatten = sent'.flatten :=
    List.flatten_singleton.trans hsent'
  have hread := (key.feed_sent e texts _ (by rw [hp, hfeed])).2.1
  exact hread.symm.trans (key.feed_sent e texts' _ (by rw [hp', hfeed'])).2.1

theorem ReadsAs.unique {text' : Bytes} (h : o.ReadsAs key text) (h' : o.ReadsAs key text') :
    text = text' := by
  have hp : [o.sink.taken].flatten = o.sink.taken := List.flatten_singleton
  exact (h _ hp).2.1.symm.trans (h' _ hp).2.1

section Unfailing

variable {k : Sink} {c : Enciphering}

theorem settle_takes (h : k.Takes) : Unfailing toCome (fun o' => o'.sink.Takes)
    (fun _ o' => o'.sink.Takes) ⟨k, some c⟩ (settle ⟨k, some c⟩) :=
  (h.drain c.sealed).within
    (fun y : Bytes × Sink => (⟨y.2, some { c with sealed := y.1 }⟩ : Outlet)) (fun _ => rfl)
    (fun _ hk => hk) (fun _ _ hk => hk)

/-- What is sealed onto an empty buffer is accepted, however much of it the sink takes at once. -/
theorem accept_takes (h : k.Takes) (text : Bytes) : ∃ o', Outlet.accept ⟨k, some c⟩ c text =
    (.ready text.length, o') ∧ o'.sink.Takes ∧ o'.toCome ≤ toCome ⟨k, some c⟩ := by
  have hsettle := settle_takes (c := ⟨(c.encryptor.update c.entropy text).2.1,
    (c.encryptor.update c.entropy text).2.2, (c.encryptor.update c.entropy text).1⟩) h
  unfold Outlet.accept
  dsimp only
  generalize Outlet.settle _ = settled at hsettle ⊢
  cases hsettle with
  | ready hk hle => exact ⟨_, rfl, hk, hle⟩
  | notReady hk hlt => exact ⟨_, rfl, hk, Nat.le_of_lt hlt⟩

theorem write_takes (h : k.Takes) (b : Bytes) : Unfailing toCome (fun o' => o'.sink.Takes)
    (fun _ o' => o'.sink.Takes) ⟨k, some c⟩ (Outlet.write ⟨k, some c⟩ b) := by
  have hsettle := settle_takes (c := c) h
  unfold Outlet.write
  dsimp only
  generalize Outlet.settle _ = settled at hsettle ⊢
  cases hsettle with
  | notReady hk hlt => exact .notReady hk hlt
  | @ready _ o' hk hle =>
    obtain ⟨k', layer'⟩ := o'
    cases layer' with
    | none => exact .ready hk hle
    | some c' =>
      obtain ⟨o', ha, hk', hle'⟩ := accept_takes (c := c') hk (b.take writePiece)
      dsimp only
      split
      · exact .ready hk hle
      · rw [ha]
        exact .ready hk' (Nat.le_trans hle' hle)

theorem flush_takes (h : k.Takes) : Unfailing toCome (fun o' => o'.sink.Takes)
    (fun _ o' => o'.sink.Takes) ⟨k, some c⟩ (Outlet.flush ⟨k, some c⟩) := by
  have hsettle := settle_takes (c := c) h
  unfold Outlet.flush
  generalize Outlet.settle _ = settled at hsettle ⊢
  cases hsettle with
  | notReady hk hlt => exact .notReady hk hlt
  | @ready _ o' hk hle =>
    refine Unfailing.of_le (t := o') ?_ hle
    exact (Sink.Takes.flush hk).within (fun k => (⟨k, o'.layer⟩ : Outlet)) (fun _ => rfl)
      (fun _ hk' => hk'.1) (fun _ _ hk' => hk'.1)

theorem shutdown_takes (h : k.Takes) : Unfailing toCome (fun o' => o'.sink.Takes)
    (fun _ o' => o'.sink.Takes) ⟨k, some c⟩ (Outlet.shutdown ⟨k, some c⟩) := by
  have hsettle := settle_takes (c := c) h
  unfold Outlet.shutdown
  generalize Outlet.settle _ = settled at hsettle ⊢
  cases hsettle with
  | notReady hk hlt => exact .notReady hk hlt
  | ready hk hle => exact .ready ⟨hk.writes, hk.flushes⟩ hle

end Unfailing

end Outlet

theorem length_take_writePiece_pos {b : Bytes} (hb : b ≠ []) : 0 < (b.take writePiece).length := by
  have hpos := List.length_pos_iff.mpr hb
  rw [List.length_take]
  unfold writePiece
  omega

section Carrying

variable {key : SharedKey} {e : Entropy}

/-- An outlet that has sealed `x` in some pieces, and takes everything in the end. -/
def Outlet.CarriesSealed (key : SharedKey) (e : Entropy) (o : Outlet) (x : Bytes) : Prop :=
  o.sink.Takes ∧ ∃ texts, o.HasSealed key e texts ∧ texts.flatten = x

theorem Outlet.CarriesSealed.flush {o : Outlet} {x : Bytes} (h : o.CarriesSealed key e x) :
    Unfailing toCome (fun o' => o'.CarriesSealed key e x)
      (fun _ o' => o'.CarriesSealed key e x ∧ o'.Settled) o o.flush := by
  obtain ⟨k, layer⟩ := o
  obtain ⟨hk, texts, hs, rfl⟩ := h
  obtain ⟨c, -, rfl, -⟩ := id hs
  have htakes := flush_takes (c := c) hk
  have hsealed := hs.flush
  generalize Outlet.flush _ = x at htakes hsealed ⊢
  cases htakes with
  | notReady hk hlt => exact .notReady ⟨hk, texts, hsealed.1, rfl⟩ hlt
  | ready hk hle => exact .ready ⟨⟨hk, texts, hsealed.1, rfl⟩, hsealed.2 rfl⟩ hle

theorem carrying_sealed : Carrying (Outlet.CarriesSealed key e) where
  write := by
    rintro ⟨k, layer⟩ _ b ⟨hk, texts, hs, rfl⟩ hb
    obtain ⟨c, -, rfl, -⟩ := id hs
    have htakes := Outlet.write_takes (c := c) hk b
    have hwrites := hs.write b
    generalize Outlet.write _ _ = x at htakes hwrites ⊢
    cases htakes with
    | notReady hk hlt =>
      cases hwrites with
      | waits _ hs => exact .notReady ⟨hk, texts, hs, rfl⟩ hlt
    | ready hk hle =>
      cases hwrites with
      | nothing hnil => exact absurd hnil hb
      | accepted _ _ hs =>
        refine .ready ⟨length_take_writePiece_pos hb, List.length_take_le' _ _, hk, _, hs, ?_⟩ hle
        rw [List.flatten_concat, List.length_take, ← List.take_eq_take_min]
  flush _ _ h := h.flush.within id (fun _ => rfl) (fun _ hw => hw) fun _ _ hr => hr.1

/-- A text that is sent comes after all that has been sealed before. -/
theorem Outlet.HasSealed.send {o : Outlet} {texts : List Bytes} (h : o.HasSealed key e texts)
    (hk : o.sink.Takes) (b : Bytes) (i : Inlet) : ∃ o',
      Dialogue.run (Exchange.send b) ⟨i, o⟩ = (.done (.ok ()), ⟨i, o'⟩) ∧
      o'.ReadsAs key (texts.flatten ++ b) := by
  obtain ⟨o₁, hrun, ho₁⟩ := Exchange.run_writeAll carrying_sealed b (l := ⟨i, o⟩)
    (⟨hk, texts, h, rfl⟩ : o.CarriesSealed key e texts.flatten)
  obtain ⟨_, o', hflush, ⟨-, all, hall, hflat⟩, hsettled⟩ :=
    Unfailing.exists_retry
      (fun o (h : CarriesSealed key e o (texts.flatten ++ b)) => h.flush) ho₁
  refine ⟨o', ?_, ?_⟩
  · rw [Exchange.send, Exchange.run_bind _ hrun]
    simp only [Exchange.flush, ExceptT.mk, Dialogue.run, hflush]
  · rw [← hflat]
    exact hall.readsAs hsettled

end Carrying

end SocksChain.Channel
