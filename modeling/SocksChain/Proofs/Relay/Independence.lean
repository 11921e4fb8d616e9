import SocksChain.Proofs.Relay.Conservation
import SocksChain.Proofs.Relay.Settling
import SocksChain.Relay.Joint

/-!
The two directions of a relay. What one pipe does to what is shared is invisible to the other: the
count of discarded bytes only grows under it, and the flag of a side is asked by one pipe alone. So
in every order of polls each pipe is where it would be by itself after as many polls, and the relay
comes to its good end when both pipes do.
-/

namespace SocksChain.Relay

open Channel

namespace Flow

/-- The same flow, with `k` more bytes discarded before it began. -/
def more (f : Flow) (k : Nat) : Flow := { f with discarded := f.discarded + k }

variable (f : Flow) (k : Nat)

theorem lose_more (size : Nat) (e : IoError) : (f.more k).lose size e = (f.lose size e).more k := by
  unfold lose
  split
  · simp [more, Nat.add_right_comm]
  · rfl

theorem onRead_more (b : Bytes) : (f.more k).onRead b = (f.onRead b).more k := by
  obtain ⟨phase, active, delivered, discarded⟩ := f
  unfold onRead
  split
  · rfl
  · cases active with
    | true => rfl
    | false => simp [more, Nat.add_right_comm]

theorem onWritten_more (rest : Bytes) (size n : Nat) :
    (f.more k).onWritten rest size n = (f.onWritten rest size n).more k := by
  unfold onWritten
  rw [lose_more]
  split
  · rfl
  · split <;> rfl

/-- What was discarded before makes no difference to a step. -/
theorem step_more (i : Inlet) (o : Outlet) :
    (f.more k).step i o = ((f.step i o).1, (f.step i o).2.1.more k, (f.step i o).2.2) := by
  have hphase : (f.more k).phase = f.phase := rfl
  unfold step
  rw [hphase]
  split
  · rcases i.read chunkLimit with ⟨b | _ | e, i'⟩
    · simp only [onRead_more]
    · rfl
    · rfl
  · rcases o.write _ with ⟨n | _ | e, o'⟩
    · simp only [onWritten_more]
    · rfl
    · simp only [lose_more]
  · rcases o.flush with ⟨_ | _ | e, o'⟩
    · rfl
    · rfl
    · simp only [lose_more]
  · rcases o.flush with ⟨_ | _ | e, o'⟩ <;> rfl
  · rcases o.shutdown with ⟨_ | _ | e, o'⟩ <;> rfl
  · rfl
  · rfl

end Flow

namespace Lane

def more (l : Lane) (k : Nat) : Lane := (l.1.more k, l.2)

theorem more_injective (k : Nat) : Function.Injective (more · k) := by
  rintro ⟨⟨_, _, _, n⟩, _⟩ ⟨⟨_, _, _, m⟩, _⟩ h
  simp only [more, Flow.more, Prod.mk.injEq, Flow.mk.injEq, Nat.add_right_cancel_iff] at h
  obtain ⟨⟨rfl, rfl, rfl, rfl⟩, rfl⟩ := h
  rfl

theorem step_more (l : Lane) (k : Nat) : (l.more k).step = (l.step.1, l.step.2.more k) :=
  l.1.step_more k l.2.1 l.2.2

theorem poll_more (l : Lane) (k : Nat) : (l.more k).poll = l.poll.more k := by
  induction l using poll_induction with
  | hstop l m h =>
    have hstep : (l.more k).step = (false, m.more k) := by rw [step_more, h]
    rw [poll_of_stop hstep, poll_of_stop h]
  | hgo l m h ih =>
    have hstep : (l.more k).step = (true, m.more k) := by rw [step_more, h]
    rw [poll_of_go hstep, poll_of_go h, ih]

end Lane

namespace Direction

/-- The opposite direction. -/
def other : Direction → Direction
  | forth => back
  | back => forth

@[simp] theorem other_other (x : Direction) : x.other.other = x := by cases x <;> rfl

theorem other_ne (x : Direction) : x.other ≠ x := by cases x <;> decide

theorem eq_or_eq_other (x y : Direction) : y = x ∨ y = x.other := by
  cases x <;> cases y <;> decide

end Direction

namespace Joint

/-- What a poll in a direction works on. -/
def lane (j : Joint) : Direction → Lane
  | .forth => (⟨j.forth.phase, j.bActive, j.forth.delivered, j.discarded⟩, j.a.inlet, j.b.outlet)
  | .back => (⟨j.back.phase, j.aActive, j.back.delivered, j.discarded⟩, j.b.inlet, j.a.outlet)

theorem lane_poll (j : Joint) (x : Direction) : (j.poll x).lane x = (j.lane x).poll := by
  cases x <;> rfl

/-- To the opposite direction a poll only shows in the count of what has been discarded. -/
theorem lane_poll_other (j : Joint) (x : Direction) : (j.poll x).lane x.other =
    ({ (j.lane x.other).1 with discarded := (j.lane x).poll.1.discarded }, (j.lane x.other).2) := by
  cases x <;> rfl

/-- The pipes are where they are by themselves, but for what the opposite one has discarded. -/
def Tracks (j : Joint) (alone : Direction → Lane) : Prop :=
  ∀ x, j.lane x = (alone x).more (alone x.other).1.discarded

/-- What becomes of the pipes when each has its turns by itself. -/
def polled (alone : Direction → Lane) (turns : List Direction) (x : Direction) : Lane :=
  Lane.poll^[turns.count x] (alone x)

theorem polled_cons (alone : Direction → Lane) (x : Direction) (turns : List Direction) :
    polled alone (x :: turns) = polled (Function.update alone x (alone x).poll) turns := by
  funext y
  unfold polled
  by_cases hy : y = x
  · rw [hy, Function.update_self, List.count_cons_self, Function.iterate_succ_apply]
  · rw [Function.update_of_ne hy, List.count_cons_of_ne (Ne.symm hy)]

variable {j : Joint} {alone : Direction → Lane} {order : List Direction}

theorem tracks_start (a b : Link) : Tracks { a, b } (lane { a, b }) := by
  rintro (_ | _) <;> rfl

/-- A poll in one direction is a poll of that pipe by itself. -/
theorem Tracks.poll (h : j.Tracks alone) (x : Direction) :
    (j.poll x).Tracks (Function.update alone x (alone x).poll) := by
  have hself : (j.lane x).poll = (alone x).poll.more (alone x.other).1.discarded := by
    rw [h x, Lane.poll_more]
  intro y
  -- The opposite pipe has not moved: what it finds discarded is its own share and the new one.
  obtain rfl | rfl := x.eq_or_eq_other y
  · rw [lane_poll, hself, Function.update_self, Function.update_of_ne y.other_ne]
  · rw [lane_poll_other, hself, h x.other, Direction.other_other, Function.update_self,
      Function.update_of_ne x.other_ne]
    exact Prod.ext (by simp [Lane.more, Flow.more, Nat.add_comm]) rfl

theorem Tracks.phase (h : j.Tracks alone) (x : Direction) :
    (j.lane x).1.phase = (alone x).1.phase := by
  rw [h x]
  rfl

/-- A relay has a good end just when both pipes have. -/
theorem result?_eq_ok_iff {t : Totals} : j.result? = some (.ok t) ↔
    (∀ x, (j.lane x).1.phase = .done) ∧
      t = ⟨(j.lane .forth).1.delivered, (j.lane .back).1.delivered, j.discarded⟩ := by
  unfold result?
  constructor
  · intro h
    split at h <;> cases h
    rename_i hforth hback
    exact ⟨fun x => by cases x <;> assumption, rfl⟩
  · rintro ⟨hdone, rfl⟩
    have hforth : j.forth.phase = .done := hdone .forth
    have hback : j.back.phase = .done := hdone .back
    simp only [hforth, hback]
    rfl

/-- It has a bad end as soon as one of them has. -/
theorem result?_eq_error_iff : (∃ e, j.result? = some (.error e)) ↔
    ∃ x e, (j.lane x).1.phase = .failed e := by
  unfold result?
  constructor
  · rintro ⟨e, h⟩
    split at h <;> cases h
    · exact ⟨.forth, e, ‹_›⟩
    · exact ⟨.back, e, ‹_›⟩
  · rintro ⟨_ | _, e, h⟩
    · have hforth : j.forth.phase = .failed e := h
      exact ⟨e, by rw [hforth]⟩
    · have hback : j.back.phase = .failed e := h
      rw [hback]
      cases j.forth.phase <;> exact ⟨_, rfl⟩

theorem polls_of_result (h : j.result?.isSome = true) (order : List Direction) :
    j.polls order = j := by
  cases order with
  | nil => rfl
  | cons x order => exact if_pos h

theorem polls_cons (h : ¬j.result?.isSome = true) (x : Direction) (order : List Direction) :
    j.polls (x :: order) = (j.poll x).polls order := if_neg h

theorem polls_append (j : Joint) (xs ys : List Direction) :
    j.polls (xs ++ ys) = (j.polls xs).polls ys := by
  induction xs generalizing j with
  | nil => rfl
  | cons x xs ih =>
    by_cases hr : j.result?.isSome = true
    · rw [polls_of_result hr, polls_of_result hr, polls_of_result hr]
    · rw [List.cons_append, polls_cons hr, polls_cons hr, ih]

/-- In any order of polls each pipe goes on as it does by itself, as often as it has its turn before
there is a result. -/
theorem Tracks.polls (h : j.Tracks alone) (order : List Direction) :
    ∃ turns, turns <+: order ∧ (j.polls order).Tracks (polled alone turns) ∧
      (turns = order ∨ (j.polls order).result?.isSome = true) := by
  induction order generalizing j alone with
  | nil => exact ⟨[], List.prefix_refl _, h, .inl rfl⟩
  | cons x order ih =>
    by_cases hr : j.result?.isSome = true
    · rw [polls_of_result hr]
      exact ⟨[], List.nil_prefix, h, .inr hr⟩
    · rw [polls_cons hr]
      obtain ⟨turns, hprefix, htracks, hend⟩ := ih (h.poll x)
      rw [← polled_cons] at htracks
      refine ⟨x :: turns, List.cons_prefix_cons.mpr ⟨rfl, hprefix⟩, htracks, hend.imp_left ?_⟩
      rintro rfl
      rfl

/-- A pipe has settled in a relay when it has by itself. -/
theorem Tracks.settled_iff (h : j.Tracks alone) (x : Direction) :
    (j.lane x).poll = j.lane x ↔ (alone x).poll = alone x := by
  rw [h x, Lane.poll_more]
  exact ⟨fun hsame => Lane.more_injective _ hsame, fun hsame => by rw [hsame]⟩

theorem polled_eq_run {turns : List Direction} {x : Direction}
    (h : (polled alone turns x).poll = polled alone turns x) :
    polled alone turns x = (alone x).run :=
  Lane.iterate_eq_run_of_fixed h

/-- A pipe that has come to its end in a relay has come to the end of its run. -/
theorem polled_of_over {turns : List Direction} {x : Direction}
    (h : (polled alone turns x).1.phase.isOver = true) : polled alone turns x = (alone x).run :=
  polled_eq_run (Lane.poll_of_over h)

/-- Where both runs come to a good end no order of polls comes to a bad one. -/
theorem Tracks.ne_error (h : j.Tracks alone) (hdone : ∀ x, (alone x).run.1.phase = .done)
    (order : List Direction) (e : IoError) : (j.polls order).result? ≠ some (.error e) := by
  intro he
  obtain ⟨turns, -, htracks, -⟩ := h.polls order
  obtain ⟨x, e, hfailed⟩ := result?_eq_error_iff.mp ⟨e, he⟩
  rw [htracks.phase x] at hfailed
  have hrun : polled alone turns x = _ := polled_of_over (by rw [hfailed]; rfl)
  rw [hrun, hdone x] at hfailed
  cases hfailed

/-- And it comes to a good one unless a pipe can still go on. -/
theorem Tracks.exists_ok (h : j.Tracks alone) (hdone : ∀ x, (alone x).run.1.phase = .done)
    (hend : (j.polls order).result?.isSome = true ∨
      ∀ x, ((j.polls order).lane x).poll = (j.polls order).lane x) :
    ∃ t, (j.polls order).result? = some (.ok t) := by
  rcases hend with hr | hsettled
  · obtain ⟨r, hr⟩ := Option.isSome_iff_exists.mp hr
    cases r with
    | error e => exact absurd hr (h.ne_error hdone order e)
    | ok t => exact ⟨t, hr⟩
  · obtain ⟨turns, -, htracks, -⟩ := h.polls order
    refine ⟨_, result?_eq_ok_iff.mpr ⟨fun x => ?_, rfl⟩⟩
    rw [htracks.phase x, polled_eq_run ((htracks.settled_iff x).mp (hsettled x)), hdone x]

/-- Enough polls of either pipe will do. -/
theorem Tracks.exists_ok_of_le (h : j.Tracks alone) (hdone : ∀ x, (alone x).run.1.phase = .done) :
    ∃ n, ∀ order : List Direction, (∀ x, n ≤ order.count x) →
      ∃ t, (j.polls order).result? = some (.ok t) := by
  obtain ⟨n, hn⟩ := (alone .forth).exists_iterate_eq_run_of_le
  obtain ⟨k, hk⟩ := (alone .back).exists_iterate_eq_run_of_le
  refine ⟨n + k, fun order horder => h.exists_ok hdone ?_⟩
  obtain ⟨turns, -, htracks, rfl | hr⟩ := h.polls order
  · refine .inr fun x => (htracks.settled_iff x).mpr ?_
    have hrun : polled alone turns x = (alone x).run := by
      have hx := horder x
      cases x with
      | forth => exact hn _ (Nat.le_trans (Nat.le_add_right n k) hx)
      | back => exact hk _ (Nat.le_trans (Nat.le_add_left k n) hx)
    rw [hrun]
    exact Lane.poll_run _
  · exact .inl hr

theorem Tracks.unique {j' : Joint} (h : j.Tracks alone) (h' : j'.Tracks alone) : j = j' := by
  have hforth : j.lane .forth = j'.lane .forth := (h .forth).trans (h' .forth).symm
  have hback : j.lane .back = j'.lane .back := (h .back).trans (h' .back).symm
  obtain ⟨⟨_, _⟩, ⟨_, _⟩, _, _, _, ⟨_, _⟩, ⟨_, _⟩⟩ := j
  obtain ⟨⟨_, _⟩, ⟨_, _⟩, _, _, _, ⟨_, _⟩, ⟨_, _⟩⟩ := j'
  cases hforth
  cases hback
  rfl

end Joint

namespace Duplex

/-- The pipes of a relay and what they share. -/
def joint (d : Duplex) : Joint :=
  ⟨⟨d.forth.phase, d.forth.delivered⟩, ⟨d.back.phase, d.back.delivered⟩, d.back.active,
    d.forth.active, d.forth.discarded + d.back.discarded, d.a, d.b⟩

def lane (d : Duplex) : Direction → Lane
  | .forth => (d.forth, d.a.inlet, d.b.outlet)
  | .back => (d.back, d.b.inlet, d.a.outlet)

variable (d : Duplex)

theorem tracks_joint : d.joint.Tracks d.lane := by
  rintro (_ | _)
  · rfl
  · show (Flow.mk _ _ _ (d.forth.discarded + d.back.discarded), _) = _
    rw [Nat.add_comm]
    rfl

theorem result?_joint : d.joint.result? = d.result? := rfl

/-- A poll of one of the pipes. -/
def pollAt (d : Duplex) : Direction → Duplex
  | .forth => d.pollForth
  | .back => d.pollBack

theorem lane_pollAt (x : Direction) :
    (d.pollAt x).lane = Function.update d.lane x (d.lane x).poll := by
  funext y
  cases x <;> cases y <;> rfl

theorem joint_pollAt (x : Direction) : (d.pollAt x).joint = d.joint.poll x := by
  refine Joint.Tracks.unique ?_ (d.tracks_joint.poll x)
  rw [← lane_pollAt]
  exact tracks_joint _

/-- A poll of a relay polls one pipe, and then the other unless there is a result. -/
theorem exists_poll_eq : ∃ (x : Direction) (next : Duplex),
    next.joint = d.joint ∧ next.lane = d.lane ∧ d.poll =
    if (next.pollAt x).result?.isSome then next.pollAt x else (next.pollAt x).pollAt x.other := by
  unfold poll
  by_cases hb : d.backFirst = true
  · rw [if_pos hb]
    exact ⟨.back, { d with backFirst := !d.backFirst }, rfl, rfl, rfl⟩
  · rw [if_neg hb]
    exact ⟨.forth, { d with backFirst := !d.backFirst }, rfl, rfl, rfl⟩

variable {d}

theorem joint_poll (h : d.result? = none) : ∃ order, d.poll.joint = d.joint.polls order ∧
    (d.poll.result? = none → ∀ x, d.poll.lane x = (d.lane x).poll) := by
  have hnone : ¬d.joint.result?.isSome = true := by
    rw [result?_joint, h]
    nofun
  obtain ⟨x, next, hjoint, hlane, hpoll⟩ := d.exists_poll_eq
  have hfirst : (next.pollAt x).joint = d.joint.poll x := by rw [joint_pollAt, hjoint]
  rw [hpoll]
  by_cases hr : (next.pollAt x).result?.isSome = true
  · rw [if_pos hr]
    refine ⟨[x], hfirst.trans (Joint.polls_cons hnone x []).symm, fun hn => ?_⟩
    rw [hn] at hr
    cases hr
  · rw [if_neg hr]
    rw [← result?_joint, hfirst] at hr
    refine ⟨[x, x.other], ?_, fun _ y => ?_⟩
    · rw [joint_pollAt, hfirst, Joint.polls_cons hnone, Joint.polls_cons hr]
      rfl
    · rw [lane_pollAt, lane_pollAt, hlane]
      obtain rfl | rfl := x.eq_or_eq_other y
      · rw [Function.update_of_ne y.other_ne.symm, Function.update_self]
      · rw [Function.update_self, Function.update_of_ne x.other_ne]

/-- A relay polls its pipes in some order until there is a result or both have settled. -/
theorem joint_run (h : d.result? = none) : ∃ order, d.run.joint = d.joint.polls order ∧
    (d.run.result?.isSome = true ∨
      ∀ x, (d.run.joint.lane x).poll = d.run.joint.lane x) := by
  induction d using run.induct with
  | case1 d hr =>
    obtain ⟨order, hpoll, -⟩ := joint_poll h
    rw [run, if_pos hr]
    exact ⟨order, hpoll, .inl hr⟩
  | case2 d hr hlt ih =>
    obtain ⟨order, hpoll, -⟩ := joint_poll h
    obtain ⟨rest, hrun, hend⟩ := ih (Option.not_isSome_iff_eq_none.mp hr)
    rw [run, if_neg hr, if_pos hlt]
    refine ⟨order ++ rest, ?_, hend⟩
    rw [hrun, hpoll, Joint.polls_append]
  | case3 d hr hlt =>
    obtain ⟨order, hpoll, hlanes⟩ := joint_poll h
    replace hlanes := hlanes (Option.not_isSome_iff_eq_none.mp hr)
    rw [run, if_neg hr, if_neg hlt]
    refine ⟨order, hpoll, .inr fun x => (d.poll.tracks_joint.settled_iff x).mpr ?_⟩
    -- Neither poll adds to what is to come and the sum is not less, so neither has used up anything.
    have hsum : (d.poll.lane .forth).toCome + (d.poll.lane .back).toCome ≥
        (d.lane .forth).toCome + (d.lane .back).toCome := Nat.le_of_not_lt hlt
    rw [hlanes, hlanes] at hsum
    have hforth := (d.lane .forth).poll_settles.1
    have hback := (d.lane .back).poll_settles.1
    rw [hlanes]
    rcases (d.lane x).poll_settles.2 with hover | hless | hsame
    · exact Lane.poll_of_over hover
    · cases x <;> omega
    · exact hsame

end Duplex

namespace Joint

/-- A relay has ended as its pipes end by themselves: it has left the channels as they leave them,
and it tells what they have delivered and, in one number, what they have discarded. -/
structure EndsAsAlone (relay last : Joint) (t : Totals) : Prop where
  done : ∀ x, (relay.lane x).run.1.phase = .done
  a : last.a = ⟨(relay.lane .forth).run.2.1, (relay.lane .back).run.2.2⟩
  b : last.b = ⟨(relay.lane .back).run.2.1, (relay.lane .forth).run.2.2⟩
  forth : t.forth = (relay.lane .forth).run.1.delivered
  back : t.back = (relay.lane .back).run.1.delivered
  discarded : t.discarded =
    (relay.lane .forth).run.1.discarded + (relay.lane .back).run.1.discarded

theorem endsAsAlone_of_ok {relay : Joint} {order : List Direction} {t : Totals}
    (h : relay.Tracks relay.lane) (ht : (relay.polls order).result? = some (.ok t)) :
    relay.EndsAsAlone (relay.polls order) t := by
  obtain ⟨turns, -, htracks, -⟩ := h.polls order
  obtain ⟨hdone, rfl⟩ := result?_eq_ok_iff.mp ht
  have hrun : ∀ x, polled relay.lane turns x = (relay.lane x).run := fun x =>
    polled_of_over (by rw [← htracks.phase x, hdone x]; rfl)
  have hlane : ∀ x, (relay.polls order).lane x =
      (relay.lane x).run.more (relay.lane x.other).run.1.discarded := fun x => by
    rw [htracks x, hrun, hrun]
  have hforth := hlane .forth
  have hback := hlane .back
  refine ⟨fun x => ?_, ?_, ?_, ?_, ?_, ?_⟩
  · rw [← hrun x, ← htracks.phase x, hdone x]
  · exact congrArg₂ Link.mk (congrArg (·.2.1) hforth) (congrArg (·.2.2) hback)
  · exact congrArg₂ Link.mk (congrArg (·.2.1) hback) (congrArg (·.2.2) hforth)
  · exact congrArg (·.1.delivered) hforth
  · exact congrArg (·.1.delivered) hback
  · exact congrArg (·.1.discarded) hforth

/-- **The directions of a relay do not interfere.** Let two channels be joined, and let the pipes be
polled in any order. When the relay comes to its good end, both pipes come to theirs by themselves,
and the relay has ended as they do; what has been delivered either way and what has been discarded
are together all that was read. If both pipes come to their good end by themselves, no order of
polls ends in an error, every order with enough polls of each pipe ends well, and so does the run of
the relay, which is one of these orders. And until there is a result each pipe is where its own
polls bring it, whatever has become of the other. -/
theorem directions_do_not_interfere (a b : Link) :
    let relay : Joint := { a, b }
    (∀ order t, (relay.polls order).result? = some (.ok t) →
      relay.EndsAsAlone (relay.polls order) t ∧
      ∃ xs ys, (relay.lane .forth).Course xs (relay.lane .forth).run ∧
        (relay.lane .back).Course ys (relay.lane .back).run ∧
        (a.inlet.layer = none →
          a.inlet.source.unread = gotten xs ++ (relay.polls order).a.inlet.source.unread) ∧
        (b.inlet.layer = none →
          b.inlet.source.unread = gotten ys ++ (relay.polls order).b.inlet.source.unread) ∧
        t.forth + t.back + t.discarded = (gotten xs).length + (gotten ys).length) ∧
    ((∀ x, (relay.lane x).run.1.phase = .done) →
      (∀ order e, (relay.polls order).result? ≠ some (.error e)) ∧
      (∃ n, ∀ order : List Direction, (∀ x, n ≤ order.count x) →
        ∃ t, (relay.polls order).result? = some (.ok t)) ∧
      ∃ t, (Duplex.run { a, b }).result? = some (.ok t)) ∧
    (∃ order, (Duplex.run { a, b }).joint = relay.polls order) ∧
    ∀ order, (relay.polls order).result? = none → ∀ x, (relay.polls order).lane x =
      (Lane.poll^[order.count x] (relay.lane x)).more
        (Lane.poll^[order.count x.other] (relay.lane x.other)).1.discarded := by
  intro relay
  have htracks : relay.Tracks relay.lane := tracks_start a b
  obtain ⟨order, hrun, hend⟩ := Duplex.joint_run (d := { a, b }) rfl
  refine ⟨fun order t ht => ?_, fun hdone => ⟨htracks.ne_error hdone,
    htracks.exists_ok_of_le hdone, ?_⟩, ⟨order, hrun⟩, fun order hnone => ?_⟩
  · have hends := endsAsAlone_of_ok htracks ht
    obtain ⟨xs, hxs⟩ := (relay.lane .forth).course_run
    obtain ⟨ys, hys⟩ := (relay.lane .back).course_run
    refine ⟨hends, xs, ys, hxs, hys, fun ha => ?_, fun hb => ?_, ?_⟩
    · rw [hends.a]
      exact (hxs.unread ha).2
    · rw [hends.b]
      exact (hys.unread hb).2
    · have hforth : Keeps 0 _ _ _ := hxs.keeps rfl
      have hback : Keeps 0 _ _ _ := hys.keeps rfl
      replace hforth := hforth.counted (hends.done .forth)
      replace hback := hback.counted (hends.done .back)
      rw [hends.forth, hends.back, hends.discarded]
      omega
  · rw [← Duplex.result?_joint, hrun]
    rw [← Duplex.result?_joint, hrun] at hend
    exact htracks.exists_ok hdone hend
  · obtain ⟨turns, -, hturns, rfl | hr⟩ := htracks.polls order
    · exact hturns
    · rw [hnone] at hr
      cases hr

/-- One side sends a byte and ends; the other answers with two bytes after that. -/
theorem half_closed_relay_goes_on :
    let a : Link := ⟨⟨⟨[.chunk [1]], true⟩, none⟩, {}⟩
    let b : Link := ⟨⟨⟨[.notReady, .chunk [2, 3]], true⟩, none⟩, {}⟩
    let relay : Joint := { a, b }
    (relay.polls [.forth, .back]).result? = none ∧
      (relay.polls [.forth, .back, .back]).result? = some (.ok ⟨1, 2, 0⟩) ∧
      (relay.polls [.forth, .back, .back]).b.outlet = (relay.lane .forth).run.2.2 ∧
      (∀ order e, (relay.polls order).result? ≠ some (.error e)) ∧
      ∃ t, (Duplex.run { a, b }).result? = some (.ok t) := by
  intro a b relay
  have hnone : (relay.polls [.forth, .back]).result? = none := by cbv
  have hok : (relay.polls [.forth, .back, .back]).result? = some (.ok ⟨1, 2, 0⟩) := by cbv
  obtain ⟨halone, hall, -⟩ := directions_do_not_interfere a b
  obtain ⟨hends, -⟩ := halone _ _ hok
  obtain ⟨herror, -, hrun⟩ := hall hends.done
  exact ⟨hnone, hok, congrArg Link.outlet hends.b, herror, hrun⟩

end Joint

end SocksChain.Relay
