import SocksChain.Proofs.Channel.Delivery

/-!
Counted reading. A read gives no more than was asked for, so whoever asks for what is still missing
takes that off the channel and nothing behind it; where there is less, all of it is taken and the
end is found too early.
-/

namespace SocksChain.Channel

theorem Source.length_le_of_read {s : Source} {limit : Nat} {b : Bytes}
    (h : (s.read limit).1 = .ready b) : b.length ≤ limit := by
  unfold read at h
  split at h
  · split at h
    · cases h
      exact Nat.zero_le _
    · cases h
  · cases h
  · cases h
  · rename_i piece rest _
    split at h
    · rename_i hd
      cases h
      simpa using hd
    · cases h
      exact List.length_take_le _ _

theorem Deciphering.length_le_of_atEnd {d : Deciphering} {b : Bytes} (limit : Nat)
    (h : d.atEnd = .ready b) : b.length ≤ limit := by
  unfold atEnd at h
  split at h
  · cases h
  · cases h
    exact Nat.zero_le _

theorem Deciphering.length_le_of_read {d : Deciphering} {limit : Nat} {s : Source} {b : Bytes}
    (h : (d.read limit s).1 = .ready b) : b.length ≤ limit := by
  fun_induction read d limit s with
  | case1 d s hp =>
    cases h
    exact List.length_take_le _ _
  | case2 d s hp he => exact length_le_of_atEnd limit h
  | case3 => cases h
  | case4 => cases h
  | case5 d s hp he s' hr => exact length_le_of_atEnd limit h
  | case6 => cases h
  | case7 d s hp he x b' s' hr hlt text decryptor hu ih => exact ih h

/-- A read gives no more than was asked for. -/
theorem Inlet.length_le_of_read {i : Inlet} {limit : Nat} {b : Bytes}
    (h : (i.read limit).1 = .ready b) : b.length ≤ limit := by
  unfold read at h
  split at h
  · exact Source.length_le_of_read h
  · exact Deciphering.length_le_of_read h

/-- What comes of trying again is what came of the last try. -/
theorem exists_of_retry_ok {σ α : Type} {toCome : σ → Nat} {attempt : σ → Attempt α × σ} {s s' : σ}
    {a : α} (h : retry toCome attempt s = (some (.ok a), s')) : ∃ t, attempt t = (.ready a, s') := by
  induction hn : toCome s using Nat.strongRecOn generalizing s with
  | ind n ih =>
    subst hn
    rw [retry] at h
    rcases hr : attempt s with ⟨r, t⟩
    rw [hr] at h
    cases r with
    | ready x =>
      cases h
      exact ⟨s, hr⟩
    | failed e => cases h
    | notReady =>
      dsimp only at h
      split at h
      · rename_i hlt
        exact ih _ hlt h rfl
      · cases h

/-- A read brings what is next, as much of it as was asked for at most. -/
theorem Bringing.retry_read_le {P : Inlet → Bytes → Prop} (hP : Bringing P) {i : Inlet} {s : Bytes}
    (h : P i s) {limit : Nat} (hl : 0 < limit) : ∃ b left i',
      retry Inlet.toCome (fun i => i.read limit) i = (some (.ok b), i') ∧ P i' left ∧
        s = b ++ left ∧ b.length ≤ limit ∧ (b = [] → s = []) := by
  obtain ⟨b, i', hr, left, hi, hs, hb⟩ := hP.retry_read h hl
  obtain ⟨t, ht⟩ := exists_of_retry_ok hr
  exact ⟨b, left, i', hr, hi, hs, Inlet.length_le_of_read (congrArg Prod.fst ht), hb⟩

namespace Exchange

variable {α β : Type} {P : Inlet → Bytes → Prop} {l : Link} {s : Bytes}

theorem run_bind_error {x : Exchange α} (f : α → Exchange β) {l' : Link} {e : Failure}
    (h : Dialogue.run x l = (.done (.error e), l')) :
    Dialogue.run (x >>= f : Exchange β) l = (.done (.error e), l') :=
  Dialogue.run_bind x _ l h

theorem run_read_of_retry {limit : Nat} {b : Bytes} {i : Inlet}
    (h : retry Inlet.toCome (fun i => i.read limit) l.inlet = (some (.ok b), i)) :
    Dialogue.run (read limit) l = (.done (.ok b), { l with inlet := i }) := by
  simp only [read, ExceptT.mk, Dialogue.run, h]

/-- A byte is read if there is one. -/
theorem run_readByte_cons (hP : Bringing P) {x : UInt8} (h : P l.inlet (x :: s)) :
    ∃ i, Dialogue.run readByte l = (.done (.ok x), { l with inlet := i }) ∧ P i s := by
  obtain ⟨b, left, i, hr, hi, hs, hle, hb⟩ := hP.retry_read_le h Nat.one_pos
  match b, hle, hb with
  | [], _, hb => cases hb rfl
  | [y], _, _ =>
    obtain ⟨rfl, rfl⟩ := List.cons.inj hs
    exact ⟨i, run_bind _ (run_read_of_retry hr), hi⟩

theorem run_readByte_nil (hP : Bringing P) (h : P l.inlet []) :
    ∃ i, Dialogue.run readByte l =
      (.done (.error (.io ⟨.unexpectedEof, none⟩)), { l with inlet := i }) ∧ P i [] := by
  obtain ⟨b, left, i, hr, hi, hs, -, -⟩ := hP.retry_read_le h Nat.one_pos
  obtain ⟨rfl, rfl⟩ := List.append_eq_nil_iff.mp hs.symm
  exact ⟨i, run_bind _ (run_read_of_retry hr), hi⟩

theorem run_readOn_zero (got : Bytes) (l : Link) :
    Dialogue.run (readOn got 0) l = (.done (.ok got), l) := by
  rw [readOn, if_pos rfl]
  rfl

/-- One read of a counted reading: the end of input, or some of what is missing. -/
theorem run_readOn_step (hP : Bringing P) (h : P l.inlet s) {n : Nat} (hn : 0 < n) (got : Bytes) :
    (∃ i, s = [] ∧ P i [] ∧
      Dialogue.run (readOn got n) l = (.done (.error (.io .earlyEof)), { l with inlet := i })) ∨
    ∃ b left i, s = b ++ left ∧ P i left ∧ 0 < b.length ∧ b.length ≤ n ∧
      Dialogue.run (readOn got n) l =
        Dialogue.run (readOn (got ++ b) (n - b.length)) { l with inlet := i } := by
  obtain ⟨b, left, i, hr, hi, rfl, hle, hb⟩ := hP.retry_read_le h hn
  rw [readOn, if_neg (Nat.ne_of_gt hn), Dialogue.run, hr]
  cases b with
  | nil =>
    obtain rfl : left = [] := hb rfl
    exact .inl ⟨i, rfl, hi, rfl⟩
  | cons x b => exact .inr ⟨x :: b, left, i, rfl, hi, Nat.succ_pos _, hle, rfl⟩

/-- Where there is enough, exactly so much is read. -/
theorem run_readOn_of_le (hP : Bringing P) (h : P l.inlet s) {n : Nat} (hn : n ≤ s.length)
    (got : Bytes) : ∃ i, Dialogue.run (readOn got n) l =
      (.done (.ok (got ++ s.take n)), { l with inlet := i }) ∧ P i (s.drop n) := by
  induction hk : n using Nat.strongRecOn generalizing got n l s with
  | ind k ih =>
    subst hk
    rcases Nat.eq_zero_or_pos n with rfl | hpos
    · exact ⟨l.inlet, by rw [run_readOn_zero, List.take_zero, List.append_nil], h⟩
    · rcases run_readOn_step hP h hpos got with ⟨i, rfl, -, -⟩ | ⟨b, left, i, rfl, hi, hb, hle, hr⟩
      · exact absurd hn (Nat.not_le.mpr hpos)
      · have hleft : n - b.length ≤ left.length := by
          rw [List.length_append] at hn
          omega
        obtain ⟨i', hr', hi'⟩ := ih _ (Nat.sub_lt hpos hb) (l := { l with inlet := i }) hi hleft
          (got ++ b) rfl
        refine ⟨i', ?_, ?_⟩
        · rw [hr, hr', List.append_assoc, List.take_append, List.take_of_length_le hle]
        · rwa [List.drop_append, List.drop_of_length_le hle, List.nil_append]

/-- Where there is too little, the end is found early, and nothing is left. -/
theorem run_readOn_of_lt (hP : Bringing P) (h : P l.inlet s) {n : Nat} (hn : s.length < n)
    (got : Bytes) : ∃ i, Dialogue.run (readOn got n) l =
      (.done (.error (.io .earlyEof)), { l with inlet := i }) ∧ P i [] := by
  induction hk : n using Nat.strongRecOn generalizing got n l s with
  | ind k ih =>
    subst hk
    have hpos : 0 < n := Nat.zero_lt_of_lt hn
    rcases run_readOn_step hP h hpos got with ⟨i, -, hi, hr⟩ | ⟨b, left, i, rfl, hi, hb, -, hr⟩
    · exact ⟨i, hr, hi⟩
    · have hleft : left.length < n - b.length := by
        rw [List.length_append] at hn
        omega
      obtain ⟨i', hr', hi'⟩ := ih _ (Nat.sub_lt hpos hb) (l := { l with inlet := i }) hi hleft
        (got ++ b) rfl
      exact ⟨i', hr.trans hr', hi'⟩

end Exchange

end SocksChain.Channel
