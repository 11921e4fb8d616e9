import SocksChain.Channel.Dialogue

/-!
Links on which nothing fails. An inlet delivers a byte string if its arrivals are the pieces of
some cutting of it, with any waiting in between, and then the end; an outlet takes everything if
every write takes something in the end. On such links a read brings the next piece and a message
that is sent goes out whole, so a dialogue never stands still.
-/

namespace SocksChain.Channel

/-- An arrival that brings something or only makes the reader wait. -/
def Arrival.Delivers : Arrival → Prop
  | chunk b => b ≠ []
  | notReady => True
  | fails _ => False

/-- Arrivals that bring `s` in some pieces, with any waiting in between. -/
structure Pieces (arrivals : List Arrival) (s : Bytes) : Prop where
  delivers : ∀ a ∈ arrivals, a.Delivers
  bytes : arrivals.flatMap Arrival.bytes = s

/-- A bare inlet that brings `s`, however it is cut, and then ends. -/
structure Inlet.Delivers (i : Inlet) (s : Bytes) : Prop where
  bare : i.layer = none
  closed : i.source.closed = true
  arrivals : ∀ a ∈ i.source.arrivals, a.Delivers
  unread : i.source.unread = s

/-- A write that takes something or only makes the writer wait. -/
def Acceptance.Takes : Acceptance → Prop
  | takes n => 0 < n
  | notReady => True
  | fails _ => False

def Settling.Succeeds : Settling → Prop
  | succeeds => True
  | notReady => True
  | fails _ => False

/-- A bare outlet that takes everything in the end. -/
structure Outlet.Takes (o : Outlet) : Prop where
  bare : o.layer = none
  writes : ∀ a ∈ o.sink.writes, a.Takes
  flushes : ∀ a ∈ o.sink.flushes, a.Succeeds

/-- A sink that takes everything in the end. -/
structure Sink.Takes (k : Sink) : Prop where
  writes : ∀ a ∈ k.writes, a.Takes
  flushes : ∀ a ∈ k.flushes, a.Succeeds

section Retry

variable {σ τ α : Type} {toCome : σ → Nat} {attempt : σ → Attempt α × σ}

theorem retry_ready {s s' : σ} {a : α} (h : attempt s = (.ready a, s')) :
    retry toCome attempt s = (some (.ok a), s') := by
  rw [retry, h]

theorem retry_notReady {s s' : σ} (h : attempt s = (.notReady, s')) (hlt : toCome s' < toCome s) :
    retry toCome attempt s = retry toCome attempt s' := by
  rw [retry, h]
  exact if_pos hlt

/-- Where an attempt that is not ready leaves less to come, something comes of it in the end. -/
theorem exists_of_retry {P : σ → Prop} {R : Except IoError α → σ → Prop}
    (h : ∀ s, P s → match attempt s with
      | (.ready a, s') => R (.ok a) s'
      | (.failed e, s') => R (.error e) s'
      | (.notReady, s') => P s' ∧ toCome s' < toCome s)
    {s : σ} (hs : P s) : ∃ r s', retry toCome attempt s = (some r, s') ∧ R r s' := by
  induction hn : toCome s using Nat.strongRecOn generalizing s with
  | ind n ih =>
    subst hn
    have ha := h s hs
    rw [retry]
    match hr : attempt s with
    | (.ready a, s') =>
      rw [hr] at ha
      exact ⟨_, _, rfl, ha⟩
    | (.failed e, s') =>
      rw [hr] at ha
      exact ⟨_, _, rfl, ha⟩
    | (.notReady, s') =>
      rw [hr] at ha
      obtain ⟨r, s'', hr', hs''⟩ := ih _ ha.2 ha.1 rfl
      exact ⟨r, s'', (if_pos ha.2).trans hr', hs''⟩

/-- What becomes of an attempt that does not fail: it is ready, with `R`, or it has to be made
again, with `W`, and then less is to come. -/
inductive Unfailing (toCome : σ → Nat) (W : σ → Prop) (R : α → σ → Prop) (s : σ) :
    Attempt α × σ → Prop
  | ready {a : α} {s' : σ} : R a s' → toCome s' ≤ toCome s → Unfailing toCome W R s (.ready a, s')
  | notReady {s' : σ} : W s' → toCome s' < toCome s → Unfailing toCome W R s (.notReady, s')

theorem Unfailing.exists_retry {W : σ → Prop} {R : α → σ → Prop}
    (h : ∀ s, W s → Unfailing toCome W R s (attempt s)) {s : σ} (hs : W s) :
    ∃ a s', retry toCome attempt s = (some (.ok a), s') ∧ R a s' := by
  have hstep : ∀ s, W s → match attempt s with
      | (.ready a, s') => ∃ b, (.ok a : Except IoError α) = .ok b ∧ R b s'
      | (.failed e, s') => ∃ b, (.error e : Except IoError α) = .ok b ∧ R b s'
      | (.notReady, s') => W s' ∧ toCome s' < toCome s := by
    intro s hs
    match attempt s, h s hs with
    | _, .ready hr _ => exact ⟨_, rfl, hr⟩
    | _, .notReady hw hlt => exact ⟨hw, hlt⟩
  obtain ⟨r, s', hr, a, rfl, ha⟩ := exists_of_retry (R := fun r s' => ∃ b, r = .ok b ∧ R b s')
    hstep hs
  exact ⟨a, s', hr, ha⟩

theorem Unfailing.of_le {W : σ → Prop} {R : α → σ → Prop} {s t : σ} {x : Attempt α × σ}
    (h : Unfailing toCome W R t x) (hle : toCome t ≤ toCome s) : Unfailing toCome W R s x := by
  cases h with
  | ready hr hl => exact .ready hr (Nat.le_trans hl hle)
  | notReady hw hl => exact .notReady hw (Nat.lt_of_lt_of_le hl hle)

/-- What holds whether it is ready or has to be made again. -/
theorem Unfailing.holds {P : σ → Prop} {s : σ} {x : Attempt α × σ}
    (h : Unfailing toCome P (fun _ => P) s x) : P x.2 ∧ ¬ ∃ err, x.1 = .failed err := by
  cases h with
  | ready hp => exact ⟨hp, nofun⟩
  | notReady hp => exact ⟨hp, nofun⟩

/-- The same attempt, made by something larger. -/
theorem Unfailing.within {toCome' : τ → Nat} {W : σ → Prop} {W' : τ → Prop} {R : α → σ → Prop}
    {R' : α → τ → Prop} {s : σ} {x : Attempt α × σ} (h : Unfailing toCome W R s x) (f : σ → τ)
    (hf : ∀ s, toCome' (f s) = toCome s) (hw : ∀ s', W s' → W' (f s'))
    (hr : ∀ a s', R a s' → R' a (f s')) : Unfailing toCome' W' R' (f s) (x.1, f x.2) := by
  cases h with
  | ready ha hle => exact .ready (hr _ _ ha) (by rwa [hf, hf])
  | notReady hs hlt => exact .notReady (hw _ hs) (by rwa [hf, hf])

end Retry

section Reading

variable {arrivals after : List Arrival} {closed : Bool} {s : Bytes} {limit : Nat}

theorem Pieces.unread_append (h : Pieces arrivals s) (after : List Arrival) (closed : Bool) :
    Source.unread ⟨arrivals ++ after, closed⟩ = s ++ Source.unread ⟨after, closed⟩ := by
  rw [Source.unread, Source.unread, List.flatMap_append, h.bytes]

/-- Pieces of a byte string are read one after another, or as much of each as fits. -/
theorem Pieces.read_cons {a : Arrival} (h : Pieces (a :: arrivals) s) (after : List Arrival)
    (closed : Bool) (hl : 0 < limit) :
    Source.read ⟨a :: arrivals ++ after, closed⟩ limit = (.notReady, ⟨arrivals ++ after, closed⟩) ∧
        Pieces arrivals s ∨
      ∃ b left s', Source.read ⟨a :: arrivals ++ after, closed⟩ limit =
          (.ready b, ⟨left ++ after, closed⟩) ∧
        Pieces left s' ∧ s = b ++ s' ∧ b ≠ [] ∧ left.length ≤ (a :: arrivals).length := by
  obtain ⟨harr, rfl⟩ := h
  have hrest : ∀ x ∈ arrivals, x.Delivers := fun x hx => harr x (List.mem_cons_of_mem _ hx)
  cases a with
  | fails e => exact (harr _ List.mem_cons_self).elim
  | notReady => exact .inl ⟨rfl, hrest, rfl⟩
  | chunk b =>
    have hb : b ≠ [] := harr (.chunk b) List.mem_cons_self
    refine .inr ?_
    by_cases hd : (b.drop limit).isEmpty
    · refine ⟨b, arrivals, _, ?_, ⟨hrest, rfl⟩, rfl, hb, Nat.le_succ _⟩
      simp only [List.cons_append, Source.read, hd, if_true]
    · refine ⟨b.take limit, .chunk (b.drop limit) :: arrivals, _, ?_, ⟨?_, rfl⟩, ?_, ?_,
        Nat.le_refl _⟩
      · simp only [List.cons_append, Source.read, hd]
        rfl
      · intro x hx
        rcases List.mem_cons.mp hx with rfl | hx
        · exact fun he => hd (by rw [he]; rfl)
        · exact hrest x hx
      · show b ++ arrivals.flatMap Arrival.bytes =
          b.take limit ++ (b.drop limit ++ arrivals.flatMap Arrival.bytes)
        rw [← List.append_assoc, List.take_append_drop]
      · intro he
        have hlen := congrArg List.length he
        have hpos := List.length_pos_iff.mpr hb
        rw [List.length_take, List.length_nil] at hlen
        omega

/-- They are read first, and leave nothing but waiting in front of what comes behind them. -/
theorem Pieces.retry_read (h : Pieces arrivals s) (after : List Arrival) (closed : Bool)
    (hl : 0 < limit) :
    (s = [] ∧ retry Inlet.toCome (fun i => i.read limit) ⟨⟨arrivals ++ after, closed⟩, none⟩ =
      retry Inlet.toCome (fun i => i.read limit) ⟨⟨after, closed⟩, none⟩) ∨
    ∃ b left s', retry Inlet.toCome (fun i => i.read limit) ⟨⟨arrivals ++ after, closed⟩, none⟩ =
        (some (.ok b), ⟨⟨left ++ after, closed⟩, none⟩) ∧
      Pieces left s' ∧ s = b ++ s' ∧ b ≠ [] := by
  induction arrivals with
  | nil => exact .inl ⟨h.bytes.symm, rfl⟩
  | cons a rest ih =>
    rcases h.read_cons after closed hl with ⟨hr, h'⟩ | ⟨b, left, s', hr, h', hs, hb, -⟩
    · have hwait : retry Inlet.toCome (fun i => i.read limit)
          ⟨⟨a :: rest ++ after, closed⟩, none⟩ =
            retry Inlet.toCome (fun i => i.read limit) ⟨⟨rest ++ after, closed⟩, none⟩ :=
        retry_notReady (by simp only [Inlet.read, hr]) (Nat.lt_succ_self _)
      rw [hwait]
      exact ih h'
    · exact .inr ⟨b, left, s', retry_ready (by simp only [Inlet.read, hr]), h', hs, hb⟩

/-- A source that brings `s`, however it is cut, and then ends. -/
structure Source.Brings (k : Source) (s : Bytes) : Prop where
  closed : k.closed = true
  pieces : Pieces k.arrivals s

theorem Source.Brings.read {k : Source} (h : k.Brings s) (hl : 0 < limit) :
    Unfailing (fun k => k.arrivals.length) (fun k' => k'.Brings s)
      (fun b k' => ∃ s', k'.Brings s' ∧ s = b ++ s' ∧ (b = [] → s = [])) k (k.read limit) := by
  obtain ⟨arrivals, closed⟩ := k
  obtain ⟨hclosed, hp⟩ := h
  simp only at hclosed hp
  subst hclosed
  cases arrivals with
  | nil => exact .ready ⟨s, ⟨rfl, hp⟩, rfl, fun _ => hp.bytes.symm⟩ (Nat.le_refl _)
  | cons a rest =>
    rcases hp.read_cons [] true hl with ⟨hr, h'⟩ | ⟨b, left, s', hr, h', hs, hb, hle⟩
    · rw [List.append_nil, List.append_nil] at hr
      rw [hr]
      exact .notReady ⟨rfl, h'⟩ (Nat.lt_succ_self _)
    · rw [List.append_nil, List.append_nil] at hr
      rw [hr]
      exact .ready ⟨s', ⟨rfl, h'⟩, hs, fun he => absurd he hb⟩ hle

end Reading

/-- Inlets on which nothing fails, and what they still bring: a read takes the next piece off the
front, and nothing only at the end. -/
def Bringing (P : Inlet → Bytes → Prop) : Prop :=
  ∀ i s limit, P i s → 0 < limit → Unfailing Inlet.toCome (fun i' => P i' s)
    (fun b i' => ∃ s', P i' s' ∧ s = b ++ s' ∧ (b = [] → s = [])) i (i.read limit)

/-- Outlets on which nothing fails, and what they have been given: a write takes something off the
front of what there is to write. -/
structure Carrying (Q : Outlet → Bytes → Prop) : Prop where
  write : ∀ o x b, Q o x → b ≠ [] → Unfailing Outlet.toCome (fun o' => Q o' x)
    (fun n o' => 0 < n ∧ n ≤ b.length ∧ Q o' (x ++ b.take n)) o (o.write b)
  flush : ∀ o x, Q o x → Unfailing Outlet.toCome (fun o' => Q o' x) (fun _ o' => Q o' x) o o.flush

theorem bringing_delivers : Bringing Inlet.Delivers := by
  rintro ⟨k, layer⟩ s limit ⟨hbare, hclosed, harr, hunread⟩ hl
  obtain rfl : layer = none := hbare
  have hk : k.Brings s := ⟨hclosed, harr, hunread⟩
  have hin : ∀ {k : Source} {s : Bytes}, k.Brings s → Inlet.Delivers ⟨k, none⟩ s :=
    fun h => ⟨rfl, h.closed, h.pieces.delivers, h.pieces.bytes⟩
  refine (hk.read hl).within (fun k => (⟨k, none⟩ : Inlet)) (fun _ => rfl) (fun _ => hin) ?_
  rintro b k' ⟨s', h', hs⟩
  exact ⟨s', hin h', hs⟩

namespace Sink

def toCome (k : Sink) : Nat := k.writes.length + k.flushes.length

variable {k : Sink}

theorem Takes.write (h : k.Takes) {b : Bytes} (hb : b ≠ []) :
    Unfailing toCome (fun k' => k'.Takes ∧ k'.taken = k.taken)
      (fun n k' => 0 < n ∧ n ≤ b.length ∧ k'.Takes ∧ k'.taken = k.taken ++ b.take n) k
      (k.write b) := by
  obtain ⟨writes, flushes, taken, flushed, shut⟩ := k
  obtain ⟨hwrites, hflushes⟩ := h
  have hpos := List.length_pos_iff.mpr hb
  cases writes with
  | nil =>
    exact .ready ⟨hpos, Nat.le_refl _, ⟨hwrites, hflushes⟩, by rw [List.take_length]; rfl⟩
      (Nat.le_refl _)
  | cons a rest =>
    have hrest : ∀ x ∈ rest, x.Takes := fun x hx => hwrites x (List.mem_cons_of_mem _ hx)
    have hlt : toCome ⟨rest, flushes, taken, flushed, shut⟩ <
        toCome ⟨a :: rest, flushes, taken, flushed, shut⟩ :=
      Nat.add_lt_add_right (Nat.lt_succ_self _) _
    cases a with
    | fails e => exact (hwrites _ List.mem_cons_self).elim
    | notReady => exact .notReady ⟨⟨hrest, hflushes⟩, rfl⟩ hlt
    | takes n =>
      have hn : 0 < n := hwrites (.takes n) List.mem_cons_self
      refine .ready ⟨?_, List.length_take_le' _ _, ⟨hrest, hflushes⟩, ?_⟩ (Nat.le_of_lt hlt)
      · rw [List.length_take]
        omega
      · rw [List.length_take, ← List.take_eq_take_min]
        rfl

theorem Takes.flush (h : k.Takes) :
    Unfailing toCome (fun k' => k'.Takes ∧ k'.taken = k.taken)
      (fun _ k' => k'.Takes ∧ k'.taken = k.taken) k k.flush := by
  obtain ⟨writes, flushes, taken, flushed, shut⟩ := k
  obtain ⟨hwrites, hflushes⟩ := h
  cases flushes with
  | nil => exact .ready ⟨⟨hwrites, hflushes⟩, rfl⟩ (Nat.le_refl _)
  | cons a rest =>
    have hrest : ∀ x ∈ rest, x.Succeeds := fun x hx => hflushes x (List.mem_cons_of_mem _ hx)
    have hlt : toCome ⟨writes, rest, taken, flushed, shut⟩ <
        toCome ⟨writes, a :: rest, taken, flushed, shut⟩ :=
      Nat.add_lt_add_left (Nat.lt_succ_self _) _
    cases a with
    | fails e => exact (hflushes _ List.mem_cons_self).elim
    | notReady => exact .notReady ⟨⟨hwrites, hrest⟩, rfl⟩ hlt
    | succeeds => exact .ready ⟨⟨hwrites, hrest⟩, rfl⟩ (Nat.le_of_lt hlt)

end Sink

theorem Outlet.Takes.sink {o : Outlet} (h : o.Takes) : o.sink.Takes := ⟨h.writes, h.flushes⟩

theorem carrying_takes : Carrying fun o x => o.Takes ∧ o.sink.taken = x where
  write := by
    rintro ⟨k, layer⟩ x b ⟨h, rfl⟩ hb
    obtain rfl : layer = none := h.bare
    refine (h.sink.write hb).within (fun k => (⟨k, none⟩ : Outlet)) (fun _ => rfl) ?_ ?_
    · rintro k' ⟨hk, ht⟩
      exact ⟨⟨rfl, hk.writes, hk.flushes⟩, ht⟩
    · rintro n k' ⟨hn, hle, hk, ht⟩
      exact ⟨hn, hle, ⟨rfl, hk.writes, hk.flushes⟩, ht⟩
  flush := by
    rintro ⟨k, layer⟩ x ⟨h, rfl⟩
    obtain rfl : layer = none := h.bare
    refine h.sink.flush.within (fun k => (⟨k, none⟩ : Outlet)) (fun _ => rfl) ?_ ?_
    · rintro k' ⟨hk, ht⟩
      exact ⟨⟨rfl, hk.writes, hk.flushes⟩, ht⟩
    · rintro _ k' ⟨hk, ht⟩
      exact ⟨⟨rfl, hk.writes, hk.flushes⟩, ht⟩

section Retrying

variable {P : Inlet → Bytes → Prop} {Q : Outlet → Bytes → Prop}

theorem Bringing.retry_read (hP : Bringing P) {i : Inlet} {s : Bytes} (h : P i s) {limit : Nat}
    (hl : 0 < limit) : ∃ b i', retry Inlet.toCome (fun i => i.read limit) i = (some (.ok b), i') ∧
      ∃ s', P i' s' ∧ s = b ++ s' ∧ (b = [] → s = []) :=
  Unfailing.exists_retry (fun i h => hP i s limit h hl) h

theorem Carrying.retry_write (hQ : Carrying Q) {o : Outlet} {x b : Bytes} (h : Q o x)
    (hb : b ≠ []) : ∃ n o', retry Outlet.toCome (fun o => o.write b) o = (some (.ok n), o') ∧
      0 < n ∧ n ≤ b.length ∧ Q o' (x ++ b.take n) :=
  Unfailing.exists_retry (fun o h => hQ.write o x b h hb) h

theorem Carrying.retry_flush (hQ : Carrying Q) {o : Outlet} {x : Bytes} (h : Q o x) :
    ∃ u o', retry Outlet.toCome Outlet.flush o = (some (.ok u), o') ∧ Q o' x :=
  Unfailing.exists_retry (fun o h => hQ.flush o x h) h

end Retrying

namespace Dialogue

theorem run_bind {α β : Type} (d : Dialogue α) (f : α → Dialogue β) (l : Link) {a : α} {l' : Link}
    (h : d.run l = (done a, l')) : (d.bind f).run l = (f a).run l' := by
  induction d generalizing l with
  | done b =>
    cases h
    rfl
  | read limit next ih =>
    simp only [bind, run] at h ⊢
    match hr : retry Inlet.toCome (fun i => i.read limit) l.inlet with
    | (some r, i) =>
      rw [hr] at h
      exact ih r _ h
    | (none, i) =>
      rw [hr] at h
      cases h
  | write b next ih =>
    simp only [bind, run] at h ⊢
    match hr : retry Outlet.toCome (fun o => o.write b) l.outlet with
    | (some r, o) =>
      rw [hr] at h
      exact ih r _ h
    | (none, o) =>
      rw [hr] at h
      cases h
  | flush next ih =>
    simp only [bind, run] at h ⊢
    match hr : retry Outlet.toCome Outlet.flush l.outlet with
    | (some r, o) =>
      rw [hr] at h
      exact ih r _ h
    | (none, o) =>
      rw [hr] at h
      cases h

theorem run_map {α β : Type} (f : α → β) (d : Dialogue α) (l : Link) :
    (f <$> d).run l = (f <$> (d.run l).1, (d.run l).2) := by
  show (d.bind fun a => done (f a)).run l = ((d.run l).1.bind fun a => done (f a), (d.run l).2)
  induction d generalizing l with
  | done a => rfl
  | read limit next ih =>
    simp only [bind, run]
    match retry Inlet.toCome (fun i => i.read limit) l.inlet with
    | (some r, i) => exact ih r _
    | (none, i) => rfl
  | write b next ih =>
    simp only [bind, run]
    match retry Outlet.toCome (fun o => o.write b) l.outlet with
    | (some r, o) => exact ih r _
    | (none, o) => rfl
  | flush next ih =>
    simp only [bind, run]
    match retry Outlet.toCome Outlet.flush l.outlet with
    | (some r, o) => exact ih r _
    | (none, o) => rfl

end Dialogue

namespace Exchange

/-- An exchange goes on from where its first part has come to. -/
theorem run_bind {α β : Type} {x : Exchange α} (f : α → Exchange β) {l l' : Link} {a : α}
    (h : Dialogue.run x l = (.done (.ok a), l')) :
    Dialogue.run (x >>= f : Exchange β) l = Dialogue.run (f a) l' :=
  Dialogue.run_bind x _ l h

theorem run_map {α β : Type} {x : Exchange α} (f : α → β) {l l' : Link} {v : Except Failure α}
    (h : Dialogue.run x l = (.done v, l')) :
    Dialogue.run (f <$> x : Exchange β) l = (.done (v.map f), l') := by
  refine (Dialogue.run_bind x _ l h).trans ?_
  cases v <;> rfl

section Faithful

variable {P : Inlet → Bytes → Prop} {Q : Outlet → Bytes → Prop}

theorem run_read {α : Type} (hP : Bringing P) (f : Bytes → Exchange α) {l : Link} {s : Bytes}
    {limit : Nat} (h : P l.inlet s) (hl : 0 < limit) : ∃ b s' i,
      Dialogue.run (read limit >>= f : Exchange α) l = Dialogue.run (f b) { l with inlet := i } ∧
        P i s' ∧ s = b ++ s' ∧ (b = [] → s = []) := by
  obtain ⟨b, i, hr, s', hd, hs, hb⟩ := hP.retry_read h hl
  refine ⟨b, s', i, run_bind f ?_, hd, hs, hb⟩
  simp only [read, ExceptT.mk, Dialogue.run, hr]

theorem run_writeAll (hQ : Carrying Q) (b : Bytes) {l : Link} {x : Bytes} (h : Q l.outlet x) :
    ∃ o, Dialogue.run (writeAll b) l = (.done (.ok ()), { l with outlet := o }) ∧
      Q o (x ++ b) := by
  induction hn : b.length using Nat.strongRecOn generalizing b l x with
  | ind n ih =>
    subst hn
    rw [writeAll]
    by_cases hb : b = []
    · rw [dif_pos hb, hb, List.append_nil]
      exact ⟨l.outlet, rfl, h⟩
    · obtain ⟨n, o, hr, hpos, -, ho⟩ := hQ.retry_write h hb
      obtain ⟨n, rfl⟩ := Nat.exists_eq_succ_of_ne_zero (Nat.ne_of_gt hpos)
      have hlt := length_drop_succ_lt hb n
      obtain ⟨o', hrun, ho'⟩ := ih _ hlt (b.drop (n + 1)) (l := { l with outlet := o }) ho rfl
      rw [List.append_assoc, List.take_append_drop] at ho'
      refine ⟨o', ?_, ho'⟩
      rw [dif_neg hb]
      simp only [Dialogue.run, hr]
      exact hrun

/-- A message that is sent goes out whole, and the inlet does not notice. -/
theorem run_send (hQ : Carrying Q) (b : Bytes) {l : Link} {x : Bytes} (h : Q l.outlet x) :
    ∃ o, Dialogue.run (send b) l = (.done (.ok ()), { l with outlet := o }) ∧ Q o (x ++ b) := by
  obtain ⟨o, hw, ho⟩ := run_writeAll hQ b h
  obtain ⟨_, o', hf, ho'⟩ := hQ.retry_flush ho
  refine ⟨o', ?_, ho'⟩
  rw [send, run_bind _ hw]
  simp only [flush, ExceptT.mk, Dialogue.run, hf]

theorem run_send_bind {α : Type} (hQ : Carrying Q) (b : Bytes) (f : Unit → Exchange α) {l : Link}
    {x : Bytes} (h : Q l.outlet x) : ∃ o,
      Dialogue.run (send b >>= f : Exchange α) l = Dialogue.run (f ()) { l with outlet := o } ∧
      Q o (x ++ b) := by
  obtain ⟨o, hr, ho⟩ := run_send hQ b h
  exact ⟨o, run_bind f hr, ho⟩

end Faithful

end Exchange

end SocksChain.Channel
