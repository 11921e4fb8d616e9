import SocksChain.Proofs.Channel.Sending

/-!
What is still to come on a channel. No call adds to it. A write, a flush or a shutdown that is not
ready has used something up; so has a read that is not ready, unless everything has arrived and the
channel stays open, and then the read has changed nothing and will always find the same. So where no
more will arrive than has arrived, every dialogue comes to an end.
-/

namespace SocksChain.Channel

theorem Source.length_read_le (s : Source) (limit : Nat) :
    (s.read limit).2.arrivals.length ≤ s.arrivals.length := by
  unfold read
  split <;> rename_i h
  · exact Nat.le_refl _
  · simp [h]
  · simp [h]
  · split <;> simp [h]

theorem Source.read_of_notReady {s : Source} {limit : Nat} (h : (s.read limit).1 = .notReady) :
    (s.read limit).2.arrivals.length < s.arrivals.length ∨
      s.arrivals = [] ∧ s.closed = false ∧ (s.read limit).2 = s := by
  unfold read at h ⊢
  split <;> rename_i hs
  · refine .inr ⟨hs, ?_, rfl⟩
    rw [hs] at h
    dsimp only at h
    split at h
    · cases h
    · rename_i hc
      exact Bool.eq_false_iff.2 hc
  · exact .inl (by simp [hs])
  · simp [hs] at h
  · rw [hs] at h
    dsimp only at h
    split at h <;> cases h

theorem Source.arrivals_ne_nil_of_ready {s : Source} {limit : Nat} {x : UInt8} {b : Bytes}
    (h : (s.read limit).1 = .ready (x :: b)) : s.arrivals ≠ [] := by
  intro hs
  simp only [read, hs] at h
  split at h <;> cases h

/-- A ciphered read uses up what it reads from beneath. -/
theorem Deciphering.length_read (d : Deciphering) (limit : Nat) (s : Source) :
    (d.read limit s).2.2.arrivals.length ≤ s.arrivals.length ∧
      ((d.read limit s).1 = .notReady → (d.read limit s).2.2.arrivals.length < s.arrivals.length ∨
        s.arrivals = [] ∧ s.closed = false ∧ (d.read limit s).2 = (d, s)) := by
  fun_induction read d limit s with
  | case1 => exact ⟨Nat.le_refl _, fun h => by cases h⟩
  | case2 d s =>
    refine ⟨Nat.le_refl _, fun h => ?_⟩
    unfold atEnd at h
    split at h <;> cases h
  | case3 d s _ _ s' hr =>
    have hle := s.length_read_le readPiece
    have hnone : (s.read readPiece).1 = .notReady := by rw [hr]
    have hwait := Source.read_of_notReady hnone
    rw [hr] at hle hwait
    refine ⟨hle, fun _ => hwait.imp_right fun hsame => ?_⟩
    exact ⟨hsame.1, hsame.2.1, congrArg (Prod.mk d) hsame.2.2⟩
  | case4 d s _ _ e s' hr =>
    have hle := s.length_read_le readPiece
    rw [hr] at hle
    exact ⟨hle, fun h => by cases h⟩
  | case5 d s _ _ s' hr =>
    have hle := s.length_read_le readPiece
    rw [hr] at hle
    refine ⟨hle, fun h => ?_⟩
    unfold atEnd at h
    split at h <;> cases h
  | case6 d s _ _ x b s' hr =>
    have hle := s.length_read_le readPiece
    rw [hr] at hle
    exact ⟨hle, fun h => by cases h⟩
  | case7 d s _ _ x b s' hr _ text decryptor _ ih =>
    have hle := s.length_read_le readPiece
    have hs : s.arrivals ≠ [] := Source.arrivals_ne_nil_of_ready (by rw [hr])
    rw [hr] at hle
    refine ⟨Nat.le_trans ih.1 hle, fun h => .inl ?_⟩
    rcases ih.2 h with hlt | ⟨hnil, -, hsame⟩
    · exact Nat.lt_of_lt_of_le hlt hle
    · rw [hsame, hnil]
      exact List.length_pos_iff.mpr hs

/-- A read that is not ready has used something up, or will never be ready. -/
theorem Inlet.toCome_read (i : Inlet) (limit : Nat) : (i.read limit).2.toCome ≤ i.toCome ∧
    ((i.read limit).1 = .notReady →
      (i.read limit).2.toCome < i.toCome ∨ (i.read limit).2 = i) := by
  obtain ⟨s, layer⟩ := i
  cases layer with
  | none =>
    refine ⟨s.length_read_le limit, fun h => (Source.read_of_notReady h).imp_right fun hsame => ?_⟩
    simp only [read, hsame.2.2]
  | some d =>
    obtain ⟨hle, hwait⟩ := d.length_read limit s
    refine ⟨hle, fun h => (hwait h).imp_right fun hsame => ?_⟩
    simp only [read, hsame.2.2]

section Closed

theorem Source.closed_read (s : Source) (limit : Nat) : (s.read limit).2.closed = s.closed := by
  unfold read
  split
  · rfl
  · rfl
  · rfl
  · split <;> rfl

theorem Deciphering.closed_read (d : Deciphering) (limit : Nat) (s : Source) :
    (d.read limit s).2.2.closed = s.closed := by
  fun_induction read d limit s with
  | case1 | case2 => rfl
  | case3 d s _ _ s' hr | case4 d s _ _ e s' hr | case5 d s _ _ s' hr
  | case6 d s _ _ x b s' hr =>
    have hc := s.closed_read readPiece
    rw [hr] at hc
    exact hc
  | case7 d s _ _ x b s' hr _ text decryptor _ ih =>
    have hc := s.closed_read readPiece
    rw [hr] at hc
    exact ih.trans hc

/-- Where no more will arrive, a read that is not ready has used something up, whether there is a
cipher or not. -/
theorem Inlet.read_of_closed {i : Inlet} (h : i.source.closed = true) (limit : Nat) :
    (i.read limit).2.source.closed = true ∧
      ((i.read limit).1 = .notReady → (i.read limit).2.toCome < i.toCome) := by
  obtain ⟨s, layer⟩ := i
  cases layer with
  | none =>
    refine ⟨(s.closed_read limit).trans h, fun hr => ?_⟩
    rcases Source.read_of_notReady hr with hlt | ⟨-, hc, -⟩
    · exact hlt
    · cases h.symm.trans hc
  | some d =>
    refine ⟨(d.closed_read limit s).trans h, fun hr => ?_⟩
    rcases (d.length_read limit s).2 hr with hlt | ⟨-, hc, -⟩
    · exact hlt
    · cases h.symm.trans hc

theorem Inlet.exists_of_retry_read {i : Inlet} (h : i.source.closed = true) (limit : Nat) :
    ∃ r i', retry toCome (fun i => i.read limit) i = (some r, i') ∧ i'.source.closed = true := by
  refine exists_of_retry (P := fun i : Inlet => i.source.closed = true)
    (R := fun _ i' => i'.source.closed = true) (fun i h => ?_) h
  have hi := Inlet.read_of_closed h limit
  generalize i.read limit = x at hi ⊢
  rcases x with ⟨b | _ | e, i'⟩
  · exact hi.1
  · exact ⟨hi.1, hi.2 rfl⟩
  · exact hi.1

/-- Where no more will arrive, every dialogue comes to an end. -/
theorem Dialogue.exists_run {α : Type} (d : Dialogue α) {l : Link}
    (h : l.inlet.source.closed = true) : ∃ a l', d.run l = (.done a, l') := by
  induction d generalizing l with
  | done a => exact ⟨a, l, rfl⟩
  | read limit next ih =>
    obtain ⟨r, i, hr, hi⟩ := Inlet.exists_of_retry_read h limit
    simp only [run, hr]
    exact ih r hi
  | write b next ih =>
    obtain ⟨r, o, hr⟩ := l.outlet.exists_of_retry_write b
    simp only [run, hr]
    exact ih r h
  | flush next ih =>
    obtain ⟨r, o, hr⟩ := l.outlet.exists_of_retry_flush
    simp only [run, hr]
    exact ih r h

/-- A bare inlet whose arrivals are all there will be. -/
def Inlet.Closed (i : Inlet) : Prop := i.layer = none ∧ i.source.closed = true

theorem Dialogue.exists_run_of_closed {α : Type} (d : Dialogue α) {l : Link}
    (h : l.inlet.Closed) : ∃ a l', d.run l = (.done a, l') :=
  d.exists_run h.2

end Closed

namespace Outlet

theorem toCome_accept_le (o : Outlet) (c : Enciphering) (text : Bytes) :
    (o.accept c text).2.toCome ≤ o.toCome := by
  have hle := (Outlet.toCome_settle ⟨o.sink, some ⟨(c.encryptor.update c.entropy text).2.1,
    (c.encryptor.update c.entropy text).2.2, (c.encryptor.update c.entropy text).1⟩⟩).1
  unfold accept
  dsimp only
  split <;> rename_i hs <;> rw [hs] at hle <;> exact hle

theorem toCome_write_le (o : Outlet) (b : Bytes) : (o.write b).2.toCome ≤ o.toCome := by
  unfold write
  split
  · obtain ⟨hle, -, hf⟩ := o.sink.length_writes_write b
    simp only [toCome, hf]
    exact Nat.add_le_add_right hle _
  · have hle := o.toCome_settle.1
    split <;> rename_i hs <;> rw [hs] at hle
    · split
      · split
        · exact hle
        · exact Nat.le_trans (toCome_accept_le _ _ _) hle
      · exact hle
    · exact hle
    · exact hle

theorem toCome_flush_le (o : Outlet) : o.flush.2.toCome ≤ o.toCome := by
  have hle := o.toCome_settle.1
  unfold flush
  split
  · rename_i o' hs
    rw [hs] at hle
    refine Nat.le_trans ?_ hle
    simp only [toCome, Sink.flush]
    split <;> rename_i hf <;> simp [hf]
  · exact hle

theorem toCome_shutdown (o : Outlet) : o.shutdown.2.toCome ≤ o.toCome ∧
    (o.shutdown.1 = .notReady → o.shutdown.2.toCome < o.toCome) := by
  have hsettle := o.toCome_settle
  unfold shutdown
  split
  · rename_i o' hs
    rw [hs] at hsettle
    exact ⟨hsettle.1, nofun⟩
  · exact hsettle

end Outlet

end SocksChain.Channel
