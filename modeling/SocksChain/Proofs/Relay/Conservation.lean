import SocksChain.Proofs.Channel.Sealing
import SocksChain.Proofs.Relay.History

/-!
No byte is lost or invented. As long as its receiver is there, a flow has given it all that it has
read but for the chunk in its hand; once the receiver has gone, everything is counted as discarded.
So what a flow has counted is what it has read, and what the receiver has taken is the beginning of
it, at least as much as was counted as delivered.
-/

namespace SocksChain.Relay

open Channel

/-- How a flow stands to what it has read and what has been taken, `n` bytes having been discarded
before it began. -/
inductive Keeps (n : Nat) (read given : Bytes) : Flow → Prop
  | running {phase : Phase} {d : Nat} : (∀ e, phase ≠ .failed e) → given ++ phase.inHand = read →
      d + phase.uncounted = read.length → phase.inHand.length ≤ phase.uncounted →
      Keeps n read given ⟨phase, true, d, n⟩
  | draining {phase : Phase} {d x : Nat} : phase = .reading ∨ phase = .done → given <+: read →
      d ≤ given.length → d + x = n + read.length → Keeps n read given ⟨phase, false, d, x⟩
  | broken {e : IoError} {active : Bool} {d x : Nat} : given <+: read → d ≤ given.length →
      Keeps n read given ⟨.failed e, active, d, x⟩

section Keeping

variable {n : Nat} {read given : Bytes} {f f' : Flow} {a : Act}

theorem Keeps.start (active : Bool) (n : Nat) : Keeps n [] [] ⟨.reading, active, 0, n⟩ := by
  cases active with
  | true => exact .running nofun rfl rfl (Nat.le_refl 0)
  | false => exact .draining (.inl rfl) (List.prefix_refl _) (Nat.le_refl 0) (Nat.zero_add n)

/-- In any case what has been taken was read before, and what counts as delivered was taken. -/
theorem Keeps.prefix (h : Keeps n read given f) :
    given <+: read ∧ f.delivered ≤ given.length := by
  cases h with
  | @running phase d _ hall hd hle =>
    refine ⟨⟨phase.inHand, hall⟩, ?_⟩
    have hlen := congrArg List.length hall
    rw [List.length_append] at hlen
    show d ≤ given.length
    omega
  | draining _ hpre hd _ => exact ⟨hpre, hd⟩
  | broken hpre hd => exact ⟨hpre, hd⟩

/-- Nothing more is in hand than is to be counted. -/
theorem Keeps.inHand_le (h : Keeps n read given f) : f.phase.inHand.length ≤ f.phase.uncounted := by
  cases h with
  | running _ _ _ hle => exact hle
  | draining hp => rcases hp with rfl | rfl <;> exact Nat.le_refl 0
  | broken => exact Nat.le_refl 0

theorem Keeps.fail (h : Keeps n read given f) (e : IoError) : Keeps n read given (f.fail e) := by
  obtain ⟨hpre, hd⟩ := h.prefix
  exact .broken hpre hd

theorem Keeps.idle (h : Keeps n read given f) (ha : f.active = false) : Idle f := by
  cases h with
  | running => cases ha
  | draining hp =>
    refine ⟨rfl, hp.imp_right ?_⟩
    rintro rfl
    rfl
  | broken => exact ⟨ha, .inr rfl⟩

/-- Something is on its way, or at its end, only where there is a receiver. -/
theorem Keeps.active (h : Keeps n read given f) {p : Phase} (hp : f.phase = p) (hr : p ≠ .reading)
    (ho : p.isOver = false) : f.active = true := by
  refine Bool.of_not_eq_false fun ha => ?_
  rcases (h.idle ha).2 with hq | hq
  · exact hr (hp.symm.trans hq)
  · rw [hp, ho] at hq
    cases hq

/-- A flow with a receiver goes on: `more` has been read and `brought` has been taken. -/
theorem Keeps.onward (h : Keeps n read given f) (ha : f.active = true)
    (hf : ∀ e, f.phase ≠ .failed e) {p : Phase} {d : Nat} {more brought : Bytes}
    (hp : ∀ e, p ≠ .failed e) (hhand : brought ++ p.inHand = f.phase.inHand ++ more)
    (hsum : d + p.uncounted = f.delivered + f.phase.uncounted + more.length)
    (hle : p.inHand.length ≤ p.uncounted) :
    Keeps n (read ++ more) (given ++ brought) { f with phase := p, delivered := d } := by
  cases h with
  | running _ hall hcount _ =>
    refine .running hp ?_ ?_ hle
    · rw [List.append_assoc, hhand, ← List.append_assoc, hall]
    · rw [List.length_append, ← hcount]
      exact hsum
  | draining => cases ha
  | broken => exact absurd rfl (hf _)

/-- Without a receiver what is read is discarded. -/
theorem Keeps.drop (h : Keeps n read given f) (ha : f.active = false) (hr : f.phase = .reading)
    (more : Bytes) {p : Phase} (hp : p = .reading ∨ p = .done) :
    Keeps n (read ++ more) given
      { f with phase := p, discarded := f.discarded + more.length } := by
  cases h with
  | running => cases ha
  | @draining _ d x _ hpre hd hsum =>
    refine .draining hp (hpre.trans (List.prefix_append _ _)) hd ?_
    rw [List.length_append]
    show d + (x + more.length) = n + (read.length + more.length)
    omega
  | broken => cases hr

/-- A chunk that could not be delivered is discarded, and the receiver with it. -/
theorem Keeps.lose (h : Keeps n read given f) {size : Nat} (hs : f.phase.chunk? = some size) :
    Keeps n read given
      { f with phase := .reading, active := false, discarded := f.discarded + size } := by
  have hu := Phase.uncounted_of_chunk hs
  obtain ⟨hpre, hd⟩ := h.prefix
  cases h with
  | @running _ d _ _ hsum =>
    refine .draining (.inl rfl) hpre hd ?_
    dsimp only at hu
    rw [hu] at hsum
    show d + (n + size) = n + read.length
    omega
  | draining hp => rcases hp with rfl | rfl <;> cases hs
  | broken => cases hs

/-- A turn keeps the books. -/
theorem Keeps.turn (h : Keeps n read given f) (ht : Turns f a f') :
    Keeps n (read ++ a.got) (given ++ a.given) f' := by
  have hphase : ∀ {p}, f.phase = p → p.isOver = false → ∀ e, f.phase ≠ .failed e := by
    rintro p rfl ho e he
    rw [he] at ho
    cases ho
  cases ht with
  | waits _ hw => simpa [Act.got_of_waits hw, Act.given_of_waits hw] using h
  | breaks => simpa [Act.got, Act.given] using h.fail _
  | cut => simpa [Act.got, Act.given] using h.fail _
  | fails _ _ he => simpa [Act.got_of_refusal he, Act.given_of_refusal he] using h.fail _
  | loses _ hs he => simpa [Act.got_of_refusal he, Act.given_of_refusal he] using h.lose hs
  | stops hp ha => simpa [Act.got, Act.given] using h.drop ha hp [] (.inr rfl)
  | @drops b hp ha => simpa [Act.got, Act.given, ← hp] using h.drop ha hp b (.inl rfl)
  | ends hp ha =>
    refine h.onward ha (hphase hp rfl) nofun ?_ ?_ (Nat.le_refl 0)
    · simp [hp, Phase.inHand, Act.got, Act.given]
    · simp [hp, Phase.uncounted, Act.got]
  | @takes b hp ha =>
    refine h.onward ha (hphase hp rfl) nofun ?_ ?_ (Nat.le_refl b.length)
    · simp [hp, Phase.inHand, Act.got, Act.given]
    · simp [hp, Phase.uncounted, Act.got]
  | @writes rest size m hp hm hlt =>
    have hle : rest.length ≤ size := by simpa [hp, Phase.inHand, Phase.uncounted] using h.inHand_le
    refine h.onward (h.active hp nofun rfl) (hphase hp rfl) nofun ?_ ?_ ?_
    · simp [hp, Phase.inHand, Act.got, Act.given]
    · simp [hp, Phase.uncounted, Act.got]
    · simp only [Phase.inHand, Phase.uncounted, List.length_drop]
      omega
  | @written rest size m hp hm hle =>
    refine h.onward (h.active hp nofun rfl) (hphase hp rfl) nofun ?_ ?_ (Nat.zero_le size)
    · simp [hp, Phase.inHand, Act.got, Act.given, List.take_of_length_le hle]
    · simp [hp, Phase.uncounted, Act.got]
  | delivers hp =>
    refine h.onward (h.active hp nofun rfl) (hphase hp rfl) nofun ?_ ?_ (Nat.le_refl 0)
    · simp [hp, Phase.inHand, Act.got, Act.given]
    · simp [hp, Phase.uncounted, Act.got]
  | settles hp =>
    refine h.onward (h.active hp nofun rfl) (hphase hp rfl) nofun ?_ ?_ (Nat.le_refl 0)
    · simp [hp, Phase.inHand, Act.got, Act.given]
    · simp [hp, Phase.uncounted, Act.got]
  | shuts hp =>
    refine h.onward (h.active hp nofun rfl) (hphase hp rfl) nofun ?_ ?_ (Nat.le_refl 0)
    · simp [hp, Phase.inHand, Act.got, Act.given]
    · simp [hp, Phase.uncounted, Act.got]

/-- With a receiver everything that was read has been taken, but for what is in hand. -/
theorem Keeps.given_append_inHand (h : Keeps n read given f) (ha : f.active = true)
    (hf : ∀ e, f.phase ≠ .failed e) : given ++ f.phase.inHand = read := by
  cases h with
  | running _ hall _ _ => exact hall
  | draining => cases ha
  | broken => exact absurd rfl (hf _)

/-- Where something has been discarded there is no receiver any more. -/
theorem Keeps.idle_of_lt (h : Keeps n read given f) (hf : ∀ e, f.phase ≠ .failed e)
    (hn : n < f.discarded) : Idle f := by
  cases h with
  | running => exact absurd hn (Nat.lt_irrefl n)
  | draining hp => exact (Keeps.draining hp ‹_› ‹_› ‹_›).idle rfl
  | broken => exact absurd rfl (hf _)

theorem Keeps.counted (h : Keeps n read given f) (hd : f.phase = .done) :
    f.delivered + f.discarded = n + read.length := by
  cases h with
  | @running _ d _ _ hsum =>
    obtain rfl := hd
    show d + n = n + read.length
    rw [← hsum]
    exact Nat.add_comm d n
  | draining _ _ _ hsum => exact hsum
  | broken => cases hd

/-- A receiver is only given up when a call on it has been refused. -/
theorem Turns.active_or_refusal (h : Turns f a f') :
    f'.active = f.active ∨ a.refusal? ≠ none := by
  cases h with
  | loses _ _ he => exact .inr (he ▸ nofun)
  | _ => exact .inl rfl

end Keeping

namespace Lane.Course

variable {l m : Lane} {acts : List Act}

theorem keeps {active : Bool} {n : Nat} (h : l.Course acts m)
    (hl : l.1 = ⟨.reading, active, 0, n⟩) : Keeps n (gotten acts) (taken acts) m.1 := by
  refine h.induct (P := fun acts f => Keeps n (gotten acts) (taken acts) f) ?_ ?_
  · rw [hl]
    exact .start active n
  · intro acts f a f' hk ht
    rw [gotten_concat, taken_concat]
    exact hk.turn ht

theorem refused_of_inactive (h : l.Course acts m) (hl : l.1.active = true)
    (hm : m.1.active = false) : ∃ a ∈ acts, a.refusal? ≠ none := by
  have hor : m.1.active = true ∨ ∃ a ∈ acts, a.refusal? ≠ none := by
    refine h.induct (P := fun acts f => f.active = true ∨ ∃ a ∈ acts, a.refusal? ≠ none)
      (.inl hl) ?_
    rintro acts f a f' (ha | ⟨b, hb, hr⟩) ht
    · rcases ht.active_or_refusal with hsame | hr
      · exact .inl (hsame.trans ha)
      · exact .inr ⟨a, by simp, hr⟩
    · exact .inr ⟨b, List.mem_append_left _ hb, hr⟩
  exact hor.resolve_left (by simp [hm])

/-- A receiver that refuses nothing has taken everything in the end. -/
theorem taken_eq_gotten {active : Bool} {n : Nat} (h : l.Course acts m)
    (hl : l.1 = ⟨.reading, active, 0, n⟩) (hd : m.1.phase = .done) (ha : active = true)
    (hr : ∀ a ∈ acts, a.refusal? = none) : taken acts = gotten acts := by
  have hm : m.1.active = true := by
    refine Bool.of_not_eq_false fun hinactive => ?_
    have hactive : l.1.active = true := by rw [hl, ha]
    obtain ⟨a, hmem, hrefused⟩ := h.refused_of_inactive hactive hinactive
    exact hrefused (hr a hmem)
  have hall := (h.keeps hl).given_append_inHand hm fun e he => by cases hd.symm.trans he
  rw [hd] at hall
  simpa [Phase.inHand] using hall

/-- Once the receiver has gone, or something has been discarded, the rest is reading. -/
theorem only_reads {active : Bool} {n : Nat} {k : Lane} {rest : List Act} (h : l.Course acts m)
    (hl : l.1 = ⟨.reading, active, 0, n⟩) (hrest : m.Course rest k) (hd : k.1.phase = .done)
    (hgone : m.1.active = false ∨ n < m.1.discarded) :
    (∀ a ∈ rest, ∃ answer, a = .read answer) ∧ k.2.2 = m.2.2 := by
  have hfailed : ∀ e, m.1.phase ≠ .failed e := fun e he => by
    obtain ⟨-, rfl⟩ := hrest.eq_nil_of_over (by simp [isOver, he, Phase.isOver])
    cases hd.symm.trans he
  have hidle : Idle m.1 := hgone.elim (h.keeps hl).idle ((h.keeps hl).idle_of_lt hfailed)
  obtain ⟨hreads, -, hsame⟩ := hrest.of_idle hidle
  exact ⟨hreads, hsame⟩

/-- On a bare inlet, what has been gotten is what has gone from its front. -/
theorem unread (h : l.Course acts m) (hl : l.2.1.layer = none) : m.2.1.layer = none ∧
    l.2.1.source.unread = gotten acts ++ m.2.1.source.unread := by
  induction h with
  | start => exact ⟨hl, rfl⟩
  | @next acts m a _ ha ih =>
    obtain ⟨hm, hunread⟩ := ih
    have hstep := answered_step ha
    rw [hunread, gotten_concat, List.append_assoc]
    cases a with
    | read answer =>
      obtain ⟨hread, -⟩ := hstep
      have hsource := m.2.1.source.read_append_unread chunkLimit
      simp only [Inlet.read, hm, Prod.mk.injEq] at hread
      obtain ⟨rfl, hi⟩ := hread
      rw [← hi, Act.got_read, hsource]
      exact ⟨rfl, rfl⟩
    | write | flush | shutdown =>
      rw [hstep.2]
      exact ⟨hm, rfl⟩

/-- On a bare outlet, what has been taken is what its sink has taken. -/
theorem received (h : l.Course acts m) (hl : l.2.2.layer = none) : m.2.2.layer = none ∧
    m.2.2.sink.taken = l.2.2.sink.taken ++ taken acts := by
  induction h with
  | start => exact ⟨hl, (List.append_nil _).symm⟩
  | @next acts m a _ ha ih =>
    obtain ⟨hm, hreceived⟩ := ih
    have hstep := answered_step ha
    rw [taken_concat, ← List.append_assoc, ← hreceived]
    cases a with
    | read answer =>
      rw [hstep.2]
      exact ⟨hm, (List.append_nil _).symm⟩
    | write b answer =>
      obtain ⟨hwrite, -⟩ := hstep
      simp only [Outlet.write, hm, Prod.mk.injEq] at hwrite
      rw [← hwrite.2]
      have htaken := Sink.taken_of_write (Prod.ext hwrite.1 rfl : _ = (answer, _))
      cases answer <;> exact ⟨rfl, htaken⟩
    | flush answer =>
      obtain ⟨hflush, -⟩ := hstep
      simp only [Outlet.flush, Outlet.settle, hm, Prod.mk.injEq] at hflush
      rw [← hflush.2]
      exact ⟨rfl, by simp [Act.given]⟩
    | shutdown answer =>
      obtain ⟨hshut, -⟩ := hstep
      simp only [Outlet.shutdown, Outlet.settle, hm, Prod.mk.injEq] at hshut
      rw [← hshut.2]
      exact ⟨rfl, (List.append_nil _).symm⟩

end Lane.Course

namespace Lane

/-- **A pipe conserves the bytes and their order.** The run of a flow follows a course of calls. On
bare channels what its reads have gotten has gone from the front of the source, and what its writes
have brought has been taken by the sink. When the run comes to its good end, what is counted as
delivered and what has been added to the discarded bytes is just what was read. What was taken is
the beginning of what was read, at least as much as was delivered; it is all of it if the receiver
was there and refused nothing. Once the receiver has gone, or something has been discarded, there
are only reads, and the receiving channel stays as it is. And there is a shutdown exactly if the
input ended while the receiver was there: after the end of input, the calls are for a flush until
one succeeds, and then for the shutdown. -/
theorem pipe_conserves_bytes (active : Bool) (n : Nat) (i : Inlet) (o : Outlet) :
    let first : Lane := (⟨.reading, active, 0, n⟩, i, o)
    let last := first.run
    ∃ acts, first.Course acts last ∧
      (i.layer = none → i.source.unread = gotten acts ++ last.2.1.source.unread) ∧
      (o.layer = none → last.2.2.sink.taken = o.sink.taken ++ taken acts) ∧
      (last.1.phase = .done →
        last.1.delivered + last.1.discarded = n + (gotten acts).length ∧
        taken acts <+: gotten acts ∧ last.1.delivered ≤ (taken acts).length ∧
        (active = true → (∀ a ∈ acts, a.refusal? = none) → taken acts = gotten acts) ∧
        (∀ front rest m, first.Course front m → m.Course rest last →
          m.1.active = false ∨ n < m.1.discarded →
          (∀ a ∈ rest, ∃ answer, a = .read answer) ∧ last.2.2 = m.2.2) ∧
        ((∃ answer, .shutdown answer ∈ acts) ↔ last.1.active = true) ∧
        (last.1.active = true → ∃ front tries, acts = front ++ .flush (.ready ()) :: tries ∧
          AtEnd front ∧ ∀ a ∈ tries, ∃ answer, a = .shutdown answer)) := by
  intro first last
  obtain ⟨acts, hcourse⟩ := first.course_run
  have hkeeps := hcourse.keeps rfl
  have hhistory := hcourse.history rfl
  refine ⟨acts, hcourse, fun hi => (hcourse.unread hi).2, fun ho => (hcourse.received ho).2,
    fun hdone => ⟨hkeeps.counted hdone, hkeeps.prefix.1, hkeeps.prefix.2, ?_, ?_,
      hhistory.shutdown_iff hdone, hhistory.closing hdone⟩⟩
  · exact fun ha hr => hcourse.taken_eq_gotten rfl hdone ha hr
  · exact fun front rest m hfront hrest hgone => hfront.only_reads rfl hrest hdone hgone

/-- A receiver takes two bytes one by one and then breaks: the third byte is discarded, and so added
to the five that were discarded before. -/
theorem pipe_to_a_breaking_receiver :
    let first : Lane := (⟨.reading, true, 0, 5⟩,
      ⟨⟨[.chunk [1, 2], .notReady, .chunk [3]], true⟩, none⟩,
      ⟨{ writes := [.takes 1, .takes 1, .fails ⟨.brokenPipe, none⟩] }, none⟩)
    first.run.1 = ⟨.done, false, 2, 6⟩ ∧ ∃ acts, first.Course acts first.run ∧
      2 + 6 = 5 + (gotten acts).length ∧ taken acts <+: gotten acts ∧ 2 ≤ (taken acts).length := by
  intro first
  have hlast : first.run.1 = ⟨.done, false, 2, 6⟩ := by
    show (Flow.run ⟨.reading, true, 0, 5⟩ ⟨_, none⟩ ⟨_, none⟩).1 = _
    cbv
  obtain ⟨acts, hcourse, -, -, hdone⟩ := pipe_conserves_bytes true 5 first.2.1 first.2.2
  obtain ⟨hcount, hprefix, hle, -⟩ := hdone (congrArg Flow.phase hlast)
  have hdelivered : first.run.1.delivered = 2 := congrArg Flow.delivered hlast
  have hdiscarded : first.run.1.discarded = 6 := congrArg Flow.discarded hlast
  refine ⟨hlast, acts, hcourse, ?_, hprefix, ?_⟩
  · rw [← hdelivered, ← hdiscarded]
    exact hcount
  · rw [← hdelivered]
    exact hle

end Lane

end SocksChain.Relay
