import SocksChain.Proofs.Store.Sweeping

/-!
When one can tell whether a store has been swept, if its entries stand in no order. What has to go
is then up to partial selection, which decides as it likes between entries of one age. As long as no
two entries are inserted at one time, a registry without a cold tier answers as the store does,
whatever is selected; and what is known of the registry holds of the store.
-/

namespace SocksChain.Store

open History (Event Swept)

variable {K V S : Type}

/-- Whether somebody looks for a key, or asks for it. -/
def History.Event.asks : Event K V → Bool
  | .get _ => true
  | .entry _ _ _ => true
  | _ => false

namespace Diary

/-- What those have been answered who have looked for a key, or asked for it. -/
def heard (d : Diary S V) (events : List (Event K V)) : List (Answer V) :=
  (events.zip d.answers).filterMap fun p => if p.1.asks then some p.2 else none

variable {serve : Nat → S → Event K V → Answer V × S}

theorem length_answers_run (d : Diary S V) (events : List (Event K V)) :
    (d.run serve events).answers.length = d.answers.length + events.length := by
  induction events using List.reverseRecOn with
  | nil => rfl
  | append_singleton events e ih =>
    rw [run_concat, step, List.length_append, ih, List.length_append, Nat.add_assoc]
    rfl

theorem heard_step {d : Diary S V} {events : List (Event K V)}
    (h : d.answers.length = events.length) (e : Event K V) :
    (d.step serve e).heard (events ++ [e]) = d.heard events ++
      (if e.asks then some (serve d.now d.store e).1 else none).toList := by
  rw [heard, step, List.zip_append h.symm, List.filterMap_append]
  refine congrArg (_ ++ ·) ?_
  cases ha : e.asks <;> simp [ha]

end Diary

variable [DecidableEq K]

namespace History

variable {h : History K V} {n : Nat}

/-- A registry without a cold tier answers as its hot one, and has no other state. -/
theorem Untiered.serve (hu : h.Untiered n) (e : Event K V) :
    (h.step e).registry.hot = (h.registry.hot.serve h.now e).2 ∧
      h.answer? e = if e.asks then some (h.registry.hot.serve h.now e).1 else none := by
  cases e with
  | wait ms => exact ⟨rfl, rfl⟩
  | get k =>
    refine ⟨(Registry.get_of_no_cold hu.cold h.now k).1, ?_⟩
    rw [answer?, Registry.get_fst, Registry.live?_of_no_cold hu.cold, ← ByAge.get_fst]
    rfl
  | entry k v ttl =>
    have hhot := (Registry.entry_of_no_cold hu.cold h.now k v ttl).1
    have hfst := h.registry.entry_fst h.now k v ttl
    rw [Registry.live?_of_no_cold hu.cold] at hfst
    have hstep : (h.step (.entry k v ttl)).registry = (h.registry.entry h.now k v ttl).2 := rfl
    rw [hstep, hhot, answer?, hfst, ByAge.serve, ByAge.getOrPut]
    cases h.registry.hot.peek h.now k <;> exact ⟨rfl, rfl⟩
  | put k v ttl => exact ⟨rfl, rfl⟩
  | remove k =>
    refine ⟨?_, rfl⟩
    rw [History.step, Registry.remove_of_no_cold hu.cold]
    rfl
  | purge => exact ⟨(Registry.purge_of_no_cold hu.cold h.now).1, rfl⟩

theorem answers_concat (h : History K V) (events : List (Event K V)) (e : Event K V) :
    h.answers (events ++ [e]) = h.answers events ++ ((h.run events).answer? e).toList := by
  induction events generalizing h with
  | nil => exact List.append_nil _
  | cons x events ih =>
    rw [List.cons_append, answers, ih, answers, List.append_assoc]
    rfl

end History

theorem ByAge.after_eq {p : Policy} (hp : p.coldCapacity = none) (events : List (Event K V)) :
    let h : History K V := .ofPolicy p
    let d := ByAge.after p.hotCapacity events
    d.store = (h.run events).registry.hot ∧ d.now = (h.run events).now ∧
      d.heard events = h.answers events := by
  intro h d
  induction events using List.reverseRecOn with
  | nil => exact ⟨rfl, rfl, rfl⟩
  | append_singleton events e ih =>
    have hu : (h.run events).Untiered (max p.hotCapacity 1) := .run (.ofPolicy hp) events
    have hrun : d = (ByAge.after p.hotCapacity events).step ByAge.serve e := Diary.run_concat _ _ _
    have hrun' : h.run (events ++ [e]) = (h.run events).step e := h.run_append events [e]
    have hlen : (ByAge.after p.hotCapacity events).answers.length = events.length :=
      (Diary.length_answers_run _ _).trans (Nat.zero_add _)
    obtain ⟨hhot, hanswer⟩ := hu.serve e
    obtain ⟨hstore, hnow, hheard⟩ := ih
    rw [hrun, hrun', Diary.heard_step hlen, History.answers_concat, hheard, hanswer, hhot,
      History.now_step]
    simp only [Diary.step, hstore, hnow, and_self]

namespace Shards

variable {s : Shards K V} {now : Nat}

/-- An insertion that finds too much in a store only because of what is expired, and yet makes live
entries go. -/
def Crowded (s : Shards K V) (now : Nat) (k : K) (v : V) (ttl : Nat) : Prop :=
  s.capacity < (s.insert now k v ttl).size ∧
    ((s.purge now).2.insert now k v ttl).size ≤ s.capacity ∧
    s.lowWater < ((s.insert now k v ttl).purge now).2.size

theorem crowded_forget_iff {k : K} {v : V} {ttl : Nat} :
    s.forget.Crowded now k (.ofLifetime now v ttl) ↔ s.Crowded now k v ttl := by
  have hsize : ∀ x : Shards K V, x.forget.table.length = x.size := size_forget
  unfold ByAge.Crowded Crowded
  rw [put_forget, live_forget, live_forget, put_forget, hsize, hsize, hsize]
  rfl

end Shards

namespace Diary

variable {d : Diary (Shards K V) V} {h : History K V}

/-- What a key is found as. -/
def found? (d : Diary (Shards K V) V) (k : K) : Option V := (d.store.get d.now k).1

/-- Whether an event makes live entries go only because of what is expired. -/
def Crowded (d : Diary (Shards K V) V) (e : Event K V) : Prop :=
  ∃ k v ttl, d.store.Stores d.now e k v ttl ∧ d.store.Crowded d.now k v ttl

/-- A registry without a cold tier, and its hot one with the entries in no order. -/
structure Mirrors (d : Diary (Shards K V) V) (h : History K V) : Prop where
  hot : h.registry.hot = d.store.forget
  now : h.now = d.now
  cold : h.registry.cold = none

theorem Mirrors.found (hm : d.Mirrors h) (k : K) : (h.registry.get h.now k).1 = d.found? k := by
  have hget := congrArg Prod.fst (d.store.forget_get d.now k)
  rw [Registry.get_fst, Registry.live?_of_no_cold hm.cold, ← ByAge.get_fst, hm.hot, hm.now]
  exact hget

theorem Mirrors.crowded_iff (hm : d.Mirrors h) (e : Event K V) : h.Crowded e ↔ d.Crowded e := by
  have hcrowded : ∀ k v ttl, h.registry.hot.Crowded h.now k (.ofLifetime h.now v ttl) ↔
      d.store.Crowded d.now k v ttl := by
    intro k v ttl
    rw [hm.hot, hm.now, Shards.crowded_forget_iff]
  have hlacks : ∀ k, h.registry.hot.peek h.now k = none ↔ d.store.Lacks d.now k := by
    intro k
    rw [hm.hot, hm.now, Shards.peek_forget_eq_none_iff]
  constructor
  · intro he
    cases e with
    | put k v ttl => exact ⟨k, v, ttl, .put k v ttl, (hcrowded k v ttl).mp he⟩
    | entry k v ttl =>
      exact ⟨k, v, ttl, .entry v ttl ((hlacks k).mp he.1), (hcrowded k v ttl).mp he.2⟩
    | _ => exact he.elim
  · rintro ⟨k, v, ttl, hk, hc⟩
    cases hk with
    | put => exact (hcrowded k v ttl).mpr hc
    | entry _ _ hl => exact ⟨(hlacks k).mpr hl, (hcrowded k v ttl).mpr hc⟩

end Diary

theorem History.uncrowded_iff {h : History K V} {events : List (Event K V)} :
    h.Uncrowded events ↔ ∀ a e, a ++ [e] <+: events → ¬ (h.run a).Crowded e := by
  induction events generalizing h with
  | nil =>
    refine iff_of_true trivial fun a e hp => ?_
    exact absurd (List.prefix_nil.mp hp) (List.append_ne_nil_of_right_ne_nil _ nofun)
  | cons x events ih =>
    rw [Uncrowded, ih]
    constructor
    · rintro ⟨hx, hrest⟩ a e hp
      cases a with
      | nil => exact (List.cons_prefix_cons.mp hp).1 ▸ hx
      | cons y a =>
        obtain ⟨rfl, hrest'⟩ := List.cons_prefix_cons.mp hp
        exact hrest a e hrest'
    · intro hall
      refine ⟨hall [] x (List.prefix_append [x] _), fun a e hp => ?_⟩
      exact hall (x :: a) e (List.cons_prefix_cons.mpr ⟨rfl, hp⟩)

namespace Shards

variable {select select' : Nat → Selection K} {n : Nat} {s : Shards K V} {now : Nat}

/-- No event makes live entries go only because of what is expired. -/
def Uncrowded (select : Nat → Selection K) (n : Nat) (events : List (Event K V)) : Prop :=
  ∀ a e, a ++ [e] <+: events → ¬ (after select n a).Crowded e

/-- Where no two insertions are made at one time, a registry is mirrored by its hot tier, whatever
is selected there, and answers as that one. -/
theorem mirrors_after {p : Policy} (hp : p.coldCapacity = none) (hs : ∀ now, (select now).Fair)
    {events : List (Event K V)} (hb : (after select p.hotCapacity events).births.Nodup) :
    (after select p.hotCapacity events).Mirrors ((History.ofPolicy p).run events) ∧
      (after select p.hotCapacity events).heard events = (History.ofPolicy p).answers events := by
  obtain ⟨hstore, hnow, hheard⟩ := ByAge.after_eq hp events
  have ha := (dated_after hs events hb).2
  have hu : ((History.ofPolicy p : History K V).run events).Untiered (max p.hotCapacity 1) :=
    .run (.ofPolicy hp) events
  refine ⟨⟨hstore.symm.trans ha.store, hnow.symm.trans ha.now, hu.cold⟩, ?_⟩
  rw [← hheard, Diary.heard, Diary.heard, ha.answers]

theorem births_suffix_after {a events : List (Event K V)} (h : a <+: events) :
    (after select n a).births <:+ (after select n events).births := by
  obtain ⟨rest, rfl⟩ := h
  induction rest using List.reverseRecOn with
  | nil => rw [List.append_nil]
  | append_singleton rest e ih =>
    rw [← List.append_assoc, after_concat]
    exact ih.trans (Diary.births_suffix_step _ e)

theorem uncrowded_iff {p : Policy} (hp : p.coldCapacity = none) (hs : ∀ now, (select now).Fair)
    {events : List (Event K V)} (hb : (after select p.hotCapacity events).births.Nodup) :
    Uncrowded select p.hotCapacity events ↔ (History.ofPolicy p).Uncrowded events := by
  rw [History.uncrowded_iff]
  refine forall_congr' fun a => forall_congr' fun e => forall_congr' fun ha => not_congr ?_
  have hprefix : a <+: events := (List.prefix_append a [e]).trans ha
  have hba := hb.sublist (births_suffix_after hprefix).sublist
  exact ((mirrors_after hp hs hba).1.crowded_iff e).symm

theorem capacity_put (s : Shards K V) (select : Selection K) (now : Nat) (k : K) (v : V)
    (ttl : Nat) : (s.put select now k v ttl).capacity = s.capacity := by
  unfold put enforce
  split
  · rfl
  · dsimp only
    split
    · rfl
    · rw [evict_snd]
      rfl

theorem capacity_serve (s : Shards K V) (now : Nat) (e : Event K V) :
    (s.serve select now e).2.capacity = s.capacity := by
  cases e with
  | get k =>
    unfold serve get
    dsimp only
    split
    · rfl
    · split <;> rfl
  | entry k v ttl =>
    unfold serve getOrPut
    dsimp only
    split
    · exact capacity_put _ _ _ _ _ _
    · split
      · exact capacity_put _ _ _ _ _ _
      · rfl
  | put k v ttl => exact capacity_put _ _ _ _ _ _
  | _ => rfl

theorem capacity_after (n : Nat) (events : List (Event K V)) :
    (after select n events).store.capacity = max n 1 := by
  induction events using List.reverseRecOn with
  | nil => rfl
  | append_singleton events e ih =>
    rw [after_concat]
    exact (capacity_serve _ _ e).trans ih

/-- A store for fewer than eight entries does not make more go than it has to. -/
theorem not_crowded_of_lt (h : s.capacity < 8) (k : K) (v : V) (ttl : Nat) :
    ¬ s.Crowded now k v ttl := by
  rintro ⟨-, hroom, hmany⟩
  have hle : ((s.insert now k v ttl).purge now).2.size ≤
      ((s.purge now).2.insert now k v ttl).size := ByAge.length_live_put_le _ _ _ _
  unfold lowWater at hmany
  omega

theorem uncrowded_of_lt (hn : n < 8) (events : List (Event K V)) :
    Uncrowded select n events := by
  rintro a e - ⟨k, v, ttl, -, hc⟩
  refine not_crowded_of_lt ?_ k v ttl hc
  rw [capacity_after]
  omega

/-- **When a sweep is seen.** Let no two insertions be made at one time. Whatever partial selection
makes of the order of the entries, a registry without a cold tier answers as its store. Where no
insertion finds the store too full only because of what is expired, and yet makes live entries go,
more sweeps do not change what is answered, even if partial selection goes about it in another way
then. That no run with more sweeps has such an insertion is also necessary for sweeps not to change
what is found. And a store for fewer than eight entries never has one. -/
theorem sweeps_are_unseen_iff (n : Nat) (hs : ∀ now, (select now).Fair)
    (hs' : ∀ now, (select' now).Fair) (events : List (Event K V))
    (hb : (after select n events).births.Nodup) :
    (∀ p : Policy, p.hotCapacity = n → p.coldCapacity = none →
      (History.ofPolicy p).answers events = (after select n events).heard events) ∧
    (∀ swept, Swept events swept → (after select' n swept).births.Nodup →
      Uncrowded select n events → Uncrowded select' n swept →
      (after select' n swept).heard swept = (after select n events).heard events) ∧
    ((∀ swept, Swept events swept → (after select' n swept).births.Nodup) →
      ((∀ a, a <+: events → ∀ swept, Swept a swept → ∀ k,
          (after select' n swept).found? k = (after select n a).found? k) ↔
        ∀ swept, Swept events swept → Uncrowded select' n swept)) ∧
    (n < 8 → ∀ swept : List (Event K V), Uncrowded select' n swept) := by
  let p : Policy := { hotCapacity := n }
  have hp : p.coldCapacity = none := rfl
  refine ⟨?_, fun swept hswept hb' hc hc' => ?_, fun hall => ?_, fun hn => uncrowded_of_lt hn⟩
  · rintro p rfl hp
    exact (mirrors_after hp hs hb).2.symm
  · rw [(mirrors_after hp hs' hb').2, (mirrors_after hp hs hb).2]
    exact History.answers_swept hp hswept ((uncrowded_iff hp hs hb).mp hc)
      ((uncrowded_iff hp hs' hb').mp hc')
  · have hrun : ∀ a, a <+: events → ∀ swept, Swept a swept →
        (after select' n swept).births.Nodup := by
      rintro a ⟨rest, rfl⟩ swept hswept
      have hlonger := hall _ (hswept.append (.refl rest))
      exact hlonger.sublist (births_suffix_after (List.prefix_append swept rest)).sublist
    refine Iff.trans ?_ ((History.found_swept_iff hp events).trans ?_)
    · refine forall₂_congr fun a ha => forall₂_congr fun swept hswept => forall_congr' fun k => ?_
      have hba := hb.sublist (births_suffix_after ha).sublist
      rw [(mirrors_after hp hs' (hrun a ha swept hswept)).1.found,
        (mirrors_after hp hs hba).1.found]
    · exact forall₂_congr fun swept hswept => (uncrowded_iff hp hs' (hall swept hswept)).symm

/-- Fills a store with an entry that is expired at the end, and with others that are not. -/
def fillingWith (others : Nat) : List (Event Nat String) :=
  [.put 0 "x" 5, .wait 5] ++
    (List.range' 1 others).flatMap fun k => [.put k "a" 100, .wait 1]

/-- With room for four entries, the one that a sweep drops would have gone all the same. -/
theorem sweep_of_four_is_unseen :
    let events := fillingWith 3 ++ [.put 4 "b" 100, .entry 1 "c" 100, .get 0]
    let swept := fillingWith 3 ++ [.purge, .put 4 "b" 100, .entry 1 "c" 100, .get 0]
    let unswept := after (fun _ => .oldestFirst) 4 events
    let after := after (fun _ => .oldestFirst) 4 swept
    unswept.births.Nodup ∧ after.births.Nodup ∧
      unswept.heard events = [.computed "a" false, .found none] ∧
      after.heard swept = unswept.heard events := by
  intro events swept unswept after
  have hs : ∀ _ : Nat, (Selection.oldestFirst : Selection Nat).Fair := fun _ =>
    Selection.fair_oldestFirst
  have hswept : Swept events swept := (Swept.refl _).append (.sweep (.refl _))
  have hb : unswept.births.Nodup := by decide
  have hb' : after.births.Nodup := by decide
  obtain ⟨-, hheard, -, hfew⟩ := sweeps_are_unseen_iff 4 hs hs events hb
  exact ⟨hb, hb', by decide,
    hheard swept hswept hb' (hfew (by decide) events) (hfew (by decide) swept)⟩

/-- With room for eight, the ninth entry drops one that is alive together with the one that is not,
unless the latter has been swept before. With room for one, which of two entries of one age goes is
up to partial selection, sweep or not. -/
theorem sweep_of_eight_is_seen :
    let last : Selection Nat := fun n ages => Selection.oldestFirst n ages.reverse
    let events := fillingWith 7 ++ [.put 8 "h" 100, .get 1]
    let swept := fillingWith 7 ++ [.purge, .put 8 "h" 100, .get 1]
    let unswept := after (fun _ => .oldestFirst) 8 events
    let after := after (fun _ => .oldestFirst) 8 swept
    let twins := [.put 0 "a" 100, .put 1 "b" 100, .get 0]
    let sweptTwins := [.put 0 "a" 100, .put 1 "b" 100, .purge, .get 0]
    (Swept events swept ∧ unswept.births.Nodup ∧ after.births.Nodup ∧
      unswept.heard events = [.found none] ∧ after.heard swept = [.found (some "a")]) ∧
    Swept twins sweptTwins ∧ Selection.Fair last ∧
      (Shards.after (fun _ => .oldestFirst) 1 twins).heard twins = [.found (some "a")] ∧
      (Shards.after (fun _ => last) 1 sweptTwins).heard sweptTwins = [.found none] := by
  intro last events swept unswept after twins sweptTwins
  have hswept : Swept events swept := (Swept.refl _).append (.sweep (.refl _))
  refine ⟨⟨hswept, by decide, by decide, by decide, by decide⟩, ?_, ?_, by decide, by decide⟩
  · exact .same _ (.same _ (.sweep (.refl _)))
  · exact Selection.fair_oldestFirst.reverse

end Shards

end SocksChain.Store
