import SocksChain.Proofs.Channel.Faithful
import SocksChain.Proofs.Relay.Course
import SocksChain.Tunnel

/-!
What a tunnel carries between links on which nothing fails. A flow has delivered what it has read,
apart from the chunk in its hand; each of its steps keeps that, and it only stops to wait for
something that is still to come. So a relay ends, and each side has then been sent exactly what the
other brought, behind what it had been sent before.
-/

namespace SocksChain

open Channel

namespace Relay

namespace Phase

/-- What goes with a phase, when `s` is still to be read. -/
def Fits (s : Bytes) (o : Outlet) : Phase → Prop
  | reading => True
  | writing rest _ => rest ≠ []
  | flushing _ => True
  | lastFlush => s = []
  | closing => s = [] ∧ o.Settled
  | done => s = [] ∧ o.Settled
  | failed _ => False

end Phase

namespace Flow

/-- The flow is on its way to deliver `n` bytes, after which its outlet has been given `all`. -/
structure Moves (f : Flow) (i : Inlet) (o : Outlet) (all : Bytes) (n : Nat) : Prop where
  active : f.active = true
  kept : f.discarded = 0
  progress : ∃ s x, i.Brings s ∧ o.Carries x ∧ x ++ f.phase.inHand ++ s = all ∧
    f.delivered + f.phase.uncounted + s.length = n ∧ f.phase.Fits s o

variable {f : Flow} {i : Inlet} {o : Outlet} {all : Bytes} {n : Nat}

theorem Moves.start {s x : Bytes} (hi : i.Brings s) (ho : o.Carries x) :
    Moves {} i o (x ++ s) s.length :=
  ⟨rfl, rfl, s, x, hi, ho, congrArg (· ++ s) (List.append_nil x), Nat.zero_add _, trivial⟩

section Transitions

variable {s x : Bytes} {d : Nat}

theorem moves_onRead {b : Bytes} (hi : i.Brings s) (ho : o.Carries x)
    (hall : x ++ [] ++ (b ++ s) = all) (hn : d + (b ++ s).length = n)
    (hb : b = [] → b ++ s = []) :
    Moves (onRead ⟨.reading, true, d, 0⟩ b) i o all n := by
  by_cases he : b = []
  · obtain ⟨rfl, rfl⟩ := List.append_eq_nil_iff.mp (hb he)
    exact ⟨rfl, rfl, [], x, hi, ho, hall, hn, rfl⟩
  · have hr : onRead ⟨.reading, true, d, 0⟩ b = ⟨.writing b b.length, true, d, 0⟩ := by
      simp only [onRead, List.isEmpty_iff, he, if_false, if_true]
    rw [hr]
    refine ⟨rfl, rfl, s, x, hi, ho, ?_, ?_, he⟩
    · rw [← hall, List.append_nil]
      exact List.append_assoc _ _ _
    · rw [← hn, List.length_append]
      exact Nat.add_assoc _ _ _

theorem moves_onWritten {rest : Bytes} {size m : Nat} (hi : i.Brings s)
    (ho : o.Carries (x ++ rest.take m)) (hall : x ++ rest ++ s = all)
    (hn : d + size + s.length = n) (hm : 0 < m) :
    Moves (onWritten ⟨.writing rest size, true, d, 0⟩ rest size m) i o all n := by
  have hsplit : x ++ rest.take m ++ rest.drop m ++ s = all := by
    rw [List.append_assoc x, List.take_append_drop, hall]
  by_cases he : rest.drop m = []
  · have hw : onWritten ⟨.writing rest size, true, d, 0⟩ rest size m =
        ⟨.flushing size, true, d, 0⟩ := by
      simp only [onWritten, Nat.ne_of_gt hm, he, List.isEmpty_nil, if_false, if_true]
    rw [hw]
    rw [he] at hsplit
    exact ⟨rfl, rfl, s, _, hi, ho, hsplit, hn, trivial⟩
  · have hw : onWritten ⟨.writing rest size, true, d, 0⟩ rest size m =
        ⟨.writing (rest.drop m) size, true, d, 0⟩ := by
      simp only [onWritten, Nat.ne_of_gt hm, List.isEmpty_iff, he, if_false]
    rw [hw]
    exact ⟨rfl, rfl, s, _, hi, ho, hsplit, hn, he⟩

theorem moves_onFlushed {size : Nat} (hi : i.Brings s) (ho : o.Carries x)
    (hall : x ++ [] ++ s = all) (hn : d + size + s.length = n) :
    Moves (onFlushed ⟨.flushing size, true, d, 0⟩ size) i o all n :=
  ⟨rfl, rfl, s, x, hi, ho, hall, hn, trivial⟩

end Transitions

/-- How a flow comes out of a step: it goes on at once, or it was made to wait and less is to come,
or it is done. -/
inductive Onward (all : Bytes) (n before : Nat) : Bool × Flow × Inlet × Outlet → Prop
  | goes {f : Flow} {i : Inlet} {o : Outlet} :
      Moves f i o all n → toCome i o ≤ before → Onward all n before (true, f, i, o)
  | waits {f : Flow} {i : Inlet} {o : Outlet} :
      Moves f i o all n → toCome i o < before → Onward all n before (false, f, i, o)
  | ends {f : Flow} {i : Inlet} {o : Outlet} :
      Moves f i o all n → toCome i o ≤ before → f.phase = .done →
      Onward all n before (false, f, i, o)

/-- One call on a channel keeps a flow on its way. -/
theorem Moves.step (h : Moves f i o all n) : Onward all n (toCome i o) (f.step i o) := by
  obtain ⟨phase, active, delivered, discarded⟩ := f
  obtain ⟨ha, hk, s, x, hi, ho, hall, hn, hfits⟩ := h
  simp only at ha hk
  subst ha hk
  cases phase with
  | reading =>
    have hread := bringing_brings i s chunkLimit hi (by decide)
    simp only [Flow.step]
    generalize i.read chunkLimit = r at hread ⊢
    cases hread with
    | notReady hi' hlt =>
      exact .waits ⟨rfl, rfl, s, x, hi', ho, hall, hn, hfits⟩ (Nat.add_lt_add_right hlt _)
    | ready hr hle =>
      obtain ⟨s', hi', rfl, hb⟩ := hr
      exact .goes (moves_onRead hi' ho hall hn hb) (Nat.add_le_add_right hle _)
  | writing rest size =>
    have hwrite := carrying_carries.write o x rest ho hfits
    simp only [Flow.step]
    generalize o.write rest = r at hwrite ⊢
    cases hwrite with
    | notReady ho' hlt =>
      exact .waits ⟨rfl, rfl, s, x, hi, ho', hall, hn, hfits⟩ (Nat.add_lt_add_left hlt _)
    | ready hr hle =>
      obtain ⟨hm, -, ho'⟩ := hr
      exact .goes (moves_onWritten hi ho' hall hn hm) (Nat.add_le_add_left hle _)
  | flushing size =>
    have hflush := ho.flush
    simp only [Flow.step]
    generalize o.flush = r at hflush ⊢
    cases hflush with
    | notReady ho' hlt =>
      exact .waits ⟨rfl, rfl, s, x, hi, ho', hall, hn, hfits⟩ (Nat.add_lt_add_left hlt _)
    | ready hr hle =>
      exact .goes (moves_onFlushed hi hr.1 hall hn) (Nat.add_le_add_left hle _)
  | lastFlush =>
    have hflush := ho.flush
    simp only [Flow.step]
    generalize o.flush = r at hflush ⊢
    cases hflush with
    | notReady ho' hlt =>
      exact .waits ⟨rfl, rfl, s, x, hi, ho', hall, hn, hfits⟩ (Nat.add_lt_add_left hlt _)
    | ready hr hle =>
      exact .goes ⟨rfl, rfl, s, x, hi, hr.1, hall, hn, hfits, hr.2⟩ (Nat.add_le_add_left hle _)
  | closing =>
    obtain ⟨o', hshut, ho', hs, hle⟩ := ho.shutdown hfits.2
    simp only [Flow.step, hshut]
    exact .ends ⟨rfl, rfl, s, x, hi, ho', hall, hn, hfits.1, hs⟩
      (Nat.le_of_eq (congrArg (i.toCome + ·) hle)) rfl
  | done => exact .ends ⟨rfl, rfl, s, x, hi, ho, hall, hn, hfits⟩ (Nat.le_refl _) rfl
  | failed e => exact hfits.elim

/-- A flow that is let go as far as it can is done, or something has made it wait. -/
theorem Moves.poll (h : Moves f i o all n) : ∃ f' i' o', f.poll i o = (f', i', o') ∧
    Moves f' i' o' all n ∧ toCome i' o' ≤ toCome i o ∧
    (f'.phase = .done ∨ toCome i' o' < toCome i o) := by
  induction f, i, o using Flow.poll.induct with
  | case1 f i o r hr =>
    have hs := h.step
    rw [hr] at hs
    rw [poll_of_stop hr]
    cases hs with
    | waits hm hlt => exact ⟨_, _, _, rfl, hm, Nat.le_of_lt hlt, .inr hlt⟩
    | ends hm hle hd => exact ⟨_, _, _, rfl, hm, hle, .inl hd⟩
  | case2 f i o f' i' o' hr hs ih =>
    have hs := h.step
    rw [hr] at hs
    rw [poll_of_go hr]
    cases hs with
    | goes hm hle =>
      obtain ⟨f'', i'', o'', hpoll, hm', hle', hend⟩ := ih hm
      exact ⟨f'', i'', o'', hpoll, hm', Nat.le_trans hle' hle,
        hend.imp_right fun hlt => Nat.lt_of_lt_of_le hlt hle⟩

theorem Moves.ne_failed (h : Moves f i o all n) (e : IoError) : f.phase ≠ .failed e := by
  obtain ⟨-, -, s, x, -, -, -, -, hfits⟩ := h
  intro he
  rw [he] at hfits
  exact hfits

/-- At its end a flow has delivered all it had to. -/
theorem Moves.conveys (h : Moves f i o all n) (hd : f.phase = .done) :
    o.Conveys all ∧ f.delivered = n := by
  obtain ⟨-, -, s, x, -, ho, hall, hn, hfits⟩ := h
  rw [hd] at hall hn hfits
  obtain ⟨rfl, hs⟩ := hfits
  simp only [Phase.inHand, List.append_nil] at hall
  subst hall
  exact ⟨ho.conveys hs, hn⟩

end Flow

namespace Duplex

/-- Both flows of a relay are on their way. -/
structure Moves (d : Duplex) (there back : Bytes) (n m : Nat) : Prop where
  forth : d.forth.Moves d.a.inlet d.b.outlet there n
  back : d.back.Moves d.b.inlet d.a.outlet back m

variable {d : Duplex} {there back : Bytes} {n m : Nat}

theorem Moves.result?_of_done (h : d.Moves there back n m) (hf : d.forth.phase = .done)
    (hb : d.back.phase = .done) : d.result? = some (.ok ⟨n, m, 0⟩) := by
  rw [result?, hf, hb, (h.forth.conveys hf).2, (h.back.conveys hb).2, h.forth.kept, h.back.kept]

/-- The only end that a relay comes to on its way is the good one. -/
theorem Moves.done_of_result? (h : d.Moves there back n m) (hr : d.result?.isSome) :
    d.forth.phase = .done ∧ d.back.phase = .done := by
  unfold result? at hr
  split at hr
  · rename_i e he
    exact absurd he (h.forth.ne_failed e)
  · rename_i e he _
    exact absurd he (h.back.ne_failed e)
  · exact ⟨‹_›, ‹_›⟩
  · cases hr

theorem Moves.pollForth (h : d.Moves there back n m) : d.pollForth.Moves there back n m ∧
    d.pollForth.back = d.back ∧ d.pollForth.toCome ≤ d.toCome ∧
    (d.pollForth.forth.phase = .done ∨ d.pollForth.toCome < d.toCome) := by
  obtain ⟨f, i, o, hp, hm, hle, hend⟩ := h.forth.poll
  have hd : d.pollForth =
      { d with forth := f, a := { d.a with inlet := i }, b := { d.b with outlet := o } } := by
    rw [Duplex.pollForth, hp]
  rw [hd]
  exact ⟨⟨hm, h.back⟩, rfl, Nat.add_le_add_right hle _,
    hend.imp_right fun hlt => Nat.add_lt_add_right hlt _⟩

theorem Moves.pollBack (h : d.Moves there back n m) : d.pollBack.Moves there back n m ∧
    d.pollBack.forth = d.forth ∧ d.pollBack.toCome ≤ d.toCome ∧
    (d.pollBack.back.phase = .done ∨ d.pollBack.toCome < d.toCome) := by
  obtain ⟨f, i, o, hp, hm, hle, hend⟩ := h.back.poll
  have hd : d.pollBack =
      { d with back := f, b := { d.b with inlet := i }, a := { d.a with outlet := o } } := by
    rw [Duplex.pollBack, hp]
  rw [hd]
  exact ⟨⟨h.forth, hm⟩, rfl, Nat.add_le_add_left hle _,
    hend.imp_right fun hlt => Nat.add_lt_add_left hlt _⟩

/-- Whichever flow goes first, a poll comes to an end or leaves less to come. -/
theorem Moves.poll (h : d.Moves there back n m) : d.poll.Moves there back n m ∧
    (d.poll.result?.isSome ∨ d.poll.toCome < d.toCome) := by
  have hnext : Moves { d with backFirst := !d.backFirst } there back n m := ⟨h.forth, h.back⟩
  unfold Duplex.poll
  dsimp only
  split
  · obtain ⟨hb, -, hle, hend⟩ := hnext.pollBack
    split
    · exact ⟨hb, .inl ‹_›⟩
    · obtain ⟨hf, hback, hle', hend'⟩ := hb.pollForth
      refine ⟨hf, ?_⟩
      rcases hend with hdone | hlt
      · rcases hend' with hdone' | hlt
        · rw [← hback] at hdone
          exact .inl (by rw [hf.result?_of_done hdone' hdone]; rfl)
        · exact .inr (Nat.lt_of_lt_of_le hlt hle)
      · exact .inr (Nat.lt_of_le_of_lt hle' hlt)
  · obtain ⟨hf, -, hle, hend⟩ := hnext.pollForth
    split
    · exact ⟨hf, .inl ‹_›⟩
    · obtain ⟨hb, hforth, hle', hend'⟩ := hf.pollBack
      refine ⟨hb, ?_⟩
      rcases hend with hdone | hlt
      · rcases hend' with hdone' | hlt
        · rw [← hforth] at hdone
          exact .inl (by rw [hb.result?_of_done hdone hdone']; rfl)
        · exact .inr (Nat.lt_of_lt_of_le hlt hle)
      · exact .inr (Nat.lt_of_le_of_lt hle' hlt)

/-- So a relay runs to its good end, and each outlet has then been given all that was to come. -/
theorem Moves.run (h : d.Moves there back n m) : d.run.result? = some (.ok ⟨n, m, 0⟩) ∧
    d.run.b.outlet.Conveys there ∧ d.run.a.outlet.Conveys back := by
  induction hk : d.toCome using Nat.strongRecOn generalizing d with
  | ind k ih =>
    subst hk
    obtain ⟨hm, hend⟩ := h.poll
    rw [Duplex.run]
    split
    · rename_i hr
      obtain ⟨hf, hb⟩ := hm.done_of_result? hr
      exact ⟨hm.result?_of_done hf hb, (hm.forth.conveys hf).1, (hm.back.conveys hb).1⟩
    · rename_i hr
      have hlt := hend.resolve_left hr
      rw [if_pos hlt]
      exact ih _ hlt hm rfl

end Duplex

end Relay

namespace Tunnel

theorem run_early {remote : Link} {y : Bytes} (ho : remote.outlet.Carries y) (pending : Bytes) :
    ∃ o, (ofEarly pending).early.run remote = (.done (.ok ()), { remote with outlet := o }) ∧
      o.Carries (y ++ pending) := by
  unfold ofEarly
  by_cases hp : pending = []
  · subst hp
    exact ⟨remote.outlet, rfl, by rwa [List.append_nil]⟩
  · rw [List.isEmpty_eq_false_iff.mpr hp]
    exact Exchange.run_send carrying_carries pending ho

/-- **What a tunnel carries.** Where nothing fails, a tunnel comes to its good end; what was at
hand already and what the client brings have then gone to the other side in this order, what that
side brings has gone to the client, and the totals say how much it was. -/
theorem run_carries {client remote : Link} {s t w y : Bytes} (pending : Bytes)
    (hci : client.inlet.Brings s) (hco : client.outlet.Carries w) (hri : remote.inlet.Brings t)
    (hro : remote.outlet.Carries y) :
    let r := (ofEarly pending).run client remote
    r.1.result? = some (.ok ⟨(pending ++ s).length, t.length, 0⟩) ∧
      r.2.2.outlet.Conveys (y ++ (pending ++ s)) ∧ r.2.1.outlet.Conveys (w ++ t) := by
  obtain ⟨o, hrun, ho⟩ := run_early hro pending
  let d : Relay.Duplex := { a := client, b := { remote with outlet := o } }
  have hm : d.Moves (y ++ pending ++ s) (w ++ t) s.length t.length :=
    ⟨.start hci ho, .start hri hco⟩
  obtain ⟨hr, hthere, hback⟩ := hm.run
  have hend : (ofEarly pending).run client remote =
      (⟨.done (.ok ()), pending.length, d.run.forth, d.run.back⟩, d.run.a, d.run.b) := by
    rw [Tunnel.run, hrun]
    rfl
  have hflows : Relay.Duplex.result? ⟨d.run.forth, d.run.back, {}, {}, false⟩ =
      some (.ok ⟨s.length, t.length, 0⟩) := hr
  rw [hend, ← List.append_assoc]
  refine ⟨?_, hthere, hback⟩
  rw [Tunnel.result?, hflows, List.length_append, Nat.add_comm]
  rfl

end Tunnel

end SocksChain
