import SocksChain.Proofs.Relay.Independence

/-!
Receivers that vanish. A write that finds its peer gone, and a flush after a chunk that does, only
make the side inactive: the flow reads on, and the opposite direction of a relay is left alone. The
flush at the end of input is not so classified, and there alone a peer that has gone ends the flow
with an error, and the relay with it.
-/

namespace SocksChain.Relay

open Channel

/-- The flush at the end of input has found that the peer had gone. -/
def LosesAtEnd (acts : List Act) : Prop :=
  ∃ front e, acts = front ++ [.flush (.failed e)] ∧ AtEnd front ∧ e.kind.peerGone = true

theorem AtEnd.of_concat {acts : List Act} {a : Act} (h : AtEnd (acts ++ [a])) :
    a = .read (.ready []) ∨ a = .flush .notReady ∧ AtEnd acts := by
  obtain ⟨front, waits, heq, hfront, hwaits⟩ := h
  rcases List.eq_nil_or_concat waits with rfl | ⟨tries, b, rfl⟩
  · exact .inl (List.append_singleton_inj.mp heq).2
  · rw [List.concat_eq_append, ← List.cons_append, ← List.append_assoc] at heq
    obtain ⟨rfl, rfl⟩ := List.append_singleton_inj.mp heq
    refine .inr ⟨hwaits a (by simp), front, tries, rfl, hfront, fun b hb => hwaits b (by simp [hb])⟩

section Turning

variable {f f' : Flow} {a : Act}

/-- Once the input has ended, a flow waits for its last flush or is over. -/
theorem Turns.phase_of_atEnd {acts : List Act} (h : Turns f a f') (hend : AtEnd (acts ++ [a]))
    (hf : AtEnd acts → f.phase = .lastFlush ∨ f.phase.isOver = true) :
    f'.phase = .lastFlush ∨ f'.phase.isOver = true := by
  rcases hend.of_concat with rfl | ⟨rfl, hacts⟩
  · cases h with
    | waits _ hw => rcases hw with h | ⟨b, h⟩ | h | h <;> cases h
    | ends => exact .inl rfl
    | stops => exact .inr rfl
    | takes _ _ hb => exact absurd rfl hb
    | drops _ _ hb => exact absurd rfl hb
    | loses _ _ he => cases he
    | fails _ _ he => cases he
  · rw [h.eq_of_waits (.inr (.inr (.inl rfl)))]
    exact hf hacts

/-- A refusal loses the chunk that is on its way, or it cuts off the last flush. -/
theorem Turns.of_refusal {e : IoError} (h : Turns f a f') (he : a.refusal? = some e) :
    (∃ size, f.phase.chunk? = some size ∧ f' = f.lose size e) ∨
      f.phase = .lastFlush ∧ a = .flush (.failed e) ∧ f' = f.fail e := by
  cases h with
  | waits _ hw => exact absurd (he.symm.trans (Act.refusal?_of_waits hw)) nofun
  | loses _ hs he' hg =>
    obtain rfl := Option.some.inj (he.symm.trans he')
    exact .inl ⟨_, hs, by simp [Flow.lose, hg]⟩
  | fails _ hs he' hg =>
    obtain rfl := Option.some.inj (he.symm.trans he')
    exact .inl ⟨_, hs, by simp [Flow.lose, hg]⟩
  | cut hp =>
    cases he
    exact .inr ⟨hp, rfl, rfl⟩
  | @writes _ _ n _ hn =>
    obtain ⟨n, rfl⟩ := Nat.exists_eq_succ_of_ne_zero (Nat.pos_iff_ne_zero.mp hn)
    cases he
  | @written _ _ n _ hn =>
    obtain ⟨n, rfl⟩ := Nat.exists_eq_succ_of_ne_zero (Nat.pos_iff_ne_zero.mp hn)
    cases he
  | _ => cases he

end Turning

namespace Lane

/-- What is asked of a flow whose receiver may vanish: it fails only by an error of its source, or
by one of its receiver that does not say that the peer has gone; and whatever call finds the peer
gone, the side becomes inactive, the chunk on its way is discarded, and the flow reads on. -/
structure Harmless (l : Lane) (acts : List Act) : Prop where
  fails_by : ∀ e, l.run.1.phase = .failed e → .read (.failed e) ∈ acts ∨
    ∃ a ∈ acts, a.refusal? = some e ∧ e.kind.peerGone = false
  reads_on : ∀ front a rest m e, acts = front ++ a :: rest → l.Course front m →
    a.refusal? = some e → e.kind.peerGone = true →
    m.step.2.1 = { m.1 with
      phase := .reading, active := false, discarded := m.1.discarded + m.1.phase.uncounted }

namespace Course

variable {l m : Lane} {acts : List Act}

theorem phase_of_atEnd (h : l.Course acts m) (hend : AtEnd acts) :
    m.1.phase = .lastFlush ∨ m.1.phase.isOver = true := by
  refine h.induct (P := fun acts f => AtEnd acts → f.phase = .lastFlush ∨ f.phase.isOver = true)
    ?_ ?_ hend
  · rintro ⟨front, waits, hnil, -⟩
    simp at hnil
  · exact fun acts f a f' hf ht hend => ht.phase_of_atEnd hend hf

/-- If the last flush finds that the peer has gone, the flow does not read on. -/
theorem not_harmless (h : l.Course acts l.run) (hloses : LosesAtEnd acts) : ¬l.Harmless acts := by
  intro hharmless
  obtain ⟨front, e, rfl, hend, hg⟩ := hloses
  obtain ⟨m, hm, hlast⟩ := h.split
  obtain ⟨hact, -⟩ := hlast.of_cons
  -- The flow would have to read on, but it was waiting for its last flush, and that is cut off.
  have hon := hharmless.reads_on front _ [] m e rfl hm rfl hg
  have hphase : m.1.phase = .lastFlush := (hm.phase_of_atEnd hend).resolve_right fun hover => by
    rw [act_eq_none_iff.mpr hover] at hact
    cases hact
  rcases (turns_step hact).of_refusal rfl with ⟨size, hs, -⟩ | ⟨-, -, hfail⟩
  · rw [hphase] at hs
    cases hs
  · cases (congrArg Flow.phase hon).symm.trans (congrArg Flow.phase hfail)

/-- A flow is harmless but for its last flush. -/
theorem harmless_iff (h : l.Course acts l.run) (hl : l.1.phase = .reading) :
    l.Harmless acts ↔ ¬LosesAtEnd acts := by
  refine ⟨fun hharmless hloses => h.not_harmless hloses hharmless, fun hkept => ⟨?_, ?_⟩⟩
  · intro e he
    have hhistory := h.history hl
    unfold History at hhistory
    rw [he] at hhistory
    rcases hhistory with ⟨front, a, rfl, rfl | hrefused⟩ | ⟨front, rfl, hend⟩
    · exact .inl (by simp)
    · exact .inr ⟨a, by simp, hrefused⟩
    · refine .inr ⟨.flush (.failed e), by simp, rfl, Bool.eq_false_iff.mpr fun hg => ?_⟩
      exact hkept ⟨front, e, rfl, hend, hg⟩
  · rintro front a rest m e rfl hm he hg
    obtain ⟨m', hm', hnext⟩ := h.split
    obtain rfl := hm'.unique hm
    obtain ⟨hact, hrest⟩ := hnext.of_cons
    rcases (turns_step hact).of_refusal he with ⟨size, hs, hlose⟩ | ⟨hphase, rfl, hfail⟩
    · rw [hlose, Flow.lose, if_pos hg, Phase.uncounted_of_chunk hs]
    · have hover : m'.step.2.isOver = true := by
        unfold isOver
        rw [hfail]
        rfl
      obtain ⟨rfl, -⟩ := hrest.eq_nil_of_over hover
      have hhistory := hm.history hl
      unfold History at hhistory
      rw [hphase] at hhistory
      exact absurd ⟨front, e, rfl, hhistory.2, hg⟩ hkept

end Course

end Lane

namespace Joint

variable {j : Joint} {alone : Direction → Lane} {order : List Direction} {x : Direction}

/-- A pipe that does not fail by itself never ends the other one before its time. -/
theorem Tracks.other_of_result (h : j.Tracks alone) (hr : (j.polls order).result?.isSome = true)
    (hx : ∀ e, (alone x).run.1.phase ≠ .failed e) :
    (alone x.other).run.isOver = true ∧
      ∃ k, (j.polls order).lane x.other = (alone x.other).run.more k := by
  obtain ⟨turns, -, htracks, -⟩ := h.polls order
  have hover : (polled alone turns x.other).1.phase.isOver = true := by
    obtain ⟨r, hr⟩ := Option.isSome_iff_exists.mp hr
    rw [← htracks.phase]
    cases r with
    | ok t =>
      rw [(result?_eq_ok_iff.mp hr).1 x.other]
      rfl
    | error e =>
      obtain ⟨y, e, hy⟩ := result?_eq_error_iff.mp ⟨e, hr⟩
      obtain rfl | rfl := x.eq_or_eq_other y
      · rw [htracks.phase] at hy
        have hrun : polled alone turns y = _ := polled_of_over (by rw [hy]; rfl)
        exact absurd (hrun ▸ hy) (hx e)
      · rw [hy]
        rfl
  have hrun := polled_of_over hover
  refine ⟨hrun ▸ hover, (polled alone turns x.other.other).1.discarded, ?_⟩
  rw [htracks x.other, hrun]

/-- **A vanished peer is harmless until the last flush.** A flow from `a` to `b`, whatever has been
discarded before, fails only by another error, and reads on after each call that finds the peer
gone, exactly if it is not the flush at the end of input that does. Then, if nothing else goes wrong
in one direction of a relay, the relay has no result in any order of polls, its own included, before
the opposite direction has come to the end of its run. -/
theorem vanished_peer_is_harmless_iff (active : Bool) (n : Nat) (a b : Link) :
    let first : Lane := (⟨.reading, active, 0, n⟩, a.inlet, b.outlet)
    let relay : Joint := { a, b }
    (∃ acts, first.Course acts first.run) ∧
    (∀ acts, first.Course acts first.run → (first.Harmless acts ↔ ¬LosesAtEnd acts)) ∧
    (∃ order, (Duplex.run { a, b }).joint = relay.polls order) ∧
    ∀ x acts, (relay.lane x).Course acts (relay.lane x).run → ¬LosesAtEnd acts →
      (∀ e, .read (.failed e) ∉ acts) →
      (∀ act ∈ acts, ∀ e, act.refusal? = some e → e.kind.peerGone = true) →
      ∀ order, (relay.polls order).result?.isSome = true →
        (relay.lane x.other).run.isOver = true ∧
        ∃ k, (relay.polls order).lane x.other = (relay.lane x.other).run.more k := by
  intro first relay
  obtain ⟨own, hown, -⟩ := Duplex.joint_run (d := { a, b }) rfl
  refine ⟨first.course_run, fun acts h => h.harmless_iff rfl, ⟨own, hown⟩, ?_⟩
  intro x acts h hkept hreads hrefusals order hr
  have hphase : (relay.lane x).1.phase = .reading := by cases x <;> rfl
  refine (tracks_start a b).other_of_result hr fun e he => ?_
  rcases ((h.harmless_iff hphase).mpr hkept).fails_by e he with hread | ⟨act, hm, hrefused, hother⟩
  · exact hreads e hread
  · cases hother.symm.trans (hrefusals act hm e hrefused)

/-- The flush after the first chunk finds that `b` has gone; what `b` has sent still reaches `a`. -/
theorem relay_outlives_vanished_peer :
    let a : Link := ⟨⟨⟨[.chunk [1]], true⟩, none⟩, {}⟩
    let b : Link := ⟨⟨⟨[.notReady, .chunk [2]], true⟩, none⟩,
      ⟨{ flushes := [.fails ⟨.connectionReset, none⟩] }, none⟩⟩
    let relay : Joint := { a, b }
    let acts : List Act := [.read (.ready [1]), .write [1] (.ready 1),
      .flush (.failed ⟨.connectionReset, none⟩), .read (.ready [])]
    (relay.lane .forth).Course acts (relay.lane .forth).run ∧
      (relay.lane .forth).Harmless acts ∧
      (relay.polls [.forth, .back, .back]).result? = some (.ok ⟨0, 1, 1⟩) ∧
      ∃ k, (relay.polls [.forth, .back, .back]).lane .back = (relay.lane .back).run.more k := by
  intro a b relay acts
  have hok : (relay.polls [.forth, .back, .back]).result? = some (.ok ⟨0, 1, 1⟩) := by cbv
  have hlast : (relay.lane .forth).run =
      (⟨.done, false, 0, 1⟩, ⟨⟨[], true⟩, none⟩, ⟨{ taken := [1] }, none⟩) := by
    show Flow.run ⟨.reading, true, 0, 0⟩ a.inlet b.outlet = _
    cbv
  have hcourse : (relay.lane .forth).Course acts (relay.lane .forth).run := by
    rw [hlast]
    exact .next (.next (.next (.next .start rfl) rfl) rfl) rfl
  have hkept : ¬LosesAtEnd acts := by
    rintro ⟨front, e, heq, -⟩
    simpa [acts] using congrArg List.getLast? heq
  obtain ⟨-, hpipe, -, hrelay⟩ := vanished_peer_is_harmless_iff true 0 a b
  refine ⟨hcourse, (hpipe acts hcourse).mpr hkept, hok, ?_⟩
  refine (hrelay .forth acts hcourse hkept (by simp [acts]) ?_ _ (by rw [hok]; rfl)).2
  simp [acts, Act.refusal?, IoKind.peerGone]

/-- The input of `a` has ended, and the last flush finds that `b` has gone: this ends the relay at
once, although `b` had sent a byte, which the opposite pipe by itself brings to `a`. -/
theorem last_flush_cuts_opposite_direction :
    let a : Link := ⟨⟨⟨[], true⟩, none⟩, {}⟩
    let b : Link := ⟨⟨⟨[.chunk [2]], true⟩, none⟩,
      ⟨{ flushes := [.fails ⟨.brokenPipe, none⟩] }, none⟩⟩
    let relay : Joint := { a, b }
    let acts : List Act := [.read (.ready []), .flush (.failed ⟨.brokenPipe, none⟩)]
    (relay.lane .forth).Course acts (relay.lane .forth).run ∧
      (relay.lane .forth).run.1 = ⟨.failed ⟨.brokenPipe, none⟩, true, 0, 0⟩ ∧
      ¬(relay.lane .forth).Harmless acts ∧
      (Duplex.run { a, b }).result? = some (.error ⟨.brokenPipe, none⟩) ∧
      (Duplex.run { a, b }).a.outlet.sink.taken = [] ∧
      (relay.lane .back).run.1 = ⟨.done, true, 1, 0⟩ := by
  intro a b relay acts
  have hlast : (relay.lane .forth).run =
      (⟨.failed ⟨.brokenPipe, none⟩, true, 0, 0⟩, ⟨⟨[], true⟩, none⟩, ⟨{}, none⟩) := by
    show Flow.run ⟨.reading, true, 0, 0⟩ a.inlet b.outlet = _
    cbv
  have hcourse : (relay.lane .forth).Course acts (relay.lane .forth).run := by
    rw [hlast]
    exact .next (.next .start rfl) rfl
  have hback : (relay.lane .back).run.1 = ⟨.done, true, 1, 0⟩ := by
    show (Flow.run ⟨.reading, true, 0, 0⟩ b.inlet a.outlet).1 = _
    cbv
  have hloses : LosesAtEnd acts :=
    ⟨[.read (.ready [])], _, rfl, ⟨[], [], rfl, by simp [Unshut], by simp⟩, rfl⟩
  exact ⟨hcourse, congrArg Prod.fst hlast, hcourse.not_harmless hloses, by cbv, by cbv, hback⟩

end Joint

end SocksChain.Relay
