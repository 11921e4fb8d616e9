import SocksChain.Proofs.Store.Eviction

/-!
When one can tell whether a registry without a cold tier has been swept. What is expired is never
given out, so that it only matters for the room it takes. It takes room where live entries have to
go for an insertion into a store that is too full because of what is expired: had that been swept
before, they would have stayed. Nothing else tells a registry that has been swept from one that has
not.
-/

namespace SocksChain.Store

open History (Event)

variable {K V : Type}

namespace Table

theorem live_live {now later : Nat} (t : Table K V) (h : now ≤ later) :
    (t.live now).live later = t.live later := by
  unfold live
  rw [List.filter_filter]
  refine List.filter_congr fun p _ => ?_
  have hexp : p.2.isExpired now = true → p.2.isExpired later = true := by
    simp only [Entry.isExpired, decide_eq_true_eq]
    omega
  cases hn : p.2.isExpired now with
  | false => simp
  | true => simp [hexp hn]

theorem live_take_live (t : Table K V) (now n : Nat) :
    Table.live ((t.live now).take n) now = (t.live now).take n :=
  List.filter_eq_self.mpr fun _ hp => (List.mem_filter.mp (List.mem_of_mem_take hp)).2

variable [DecidableEq K] {t : Table K V} {k : K} {e : Entry V} {now : Nat}

theorem live_remove (t : Table K V) (k : K) (now : Nat) :
    (t.remove k).live now = (t.live now).remove k := List.filter_comm _ _ _

theorem live_put (t : Table K V) (k : K) (e : Entry V) (now : Nat) :
    (t.put k e).live now =
      if e.isExpired now then (t.live now).remove k else (t.live now).put k e := by
  rw [put, live, List.filter_cons, ← live, live_remove]
  cases e.isExpired now <;> rfl

theorem live_put_live (t : Table K V) (k : K) (e : Entry V) (now : Nat) :
    ((t.live now).put k e).live now = (t.put k e).live now := by
  rw [live_put, live_put, live_live _ (Nat.le_refl _)]

theorem lookup?_eq_none_iff : t.lookup? k = none ↔ ∀ p ∈ t, p.1 ≠ k := by
  rw [lookup?, Option.map_eq_none_iff, List.find?_eq_none]
  simp only [decide_eq_true_eq]

/-- What is found alive is what is found among the live entries. -/
theorem lookup?_live_eq (h : (t.map (·.1)).Nodup) (k : K) (now : Nat) :
    (t.live now).lookup? k = (t.lookup? k).filter fun e => !e.isExpired now := by
  cases hk : t.lookup? k with
  | none =>
    exact lookup?_eq_none_iff.mpr fun p hp => lookup?_eq_none_iff.mp hk p (List.mem_filter.mp hp).1
  | some e =>
    rw [Entry.filter_live]
    cases hx : e.isExpired now with
    | false => exact lookup?_live hk (Entry.isExpired_eq_false.mp hx)
    | true => exact lookup?_eq_none_iff.mpr fun _ hp => ne_of_isExpired h hk hx hp

/-- What is cut off is missed. -/
theorem exists_lookup?_take_eq_none (h : (t.map (·.1)).Nodup) {n : Nat} (hn : n < t.length) :
    ∃ l, Table.lookup? (t.take n) l = none ∧ t.lookup? l ≠ none := by
  refine ⟨t[n].1, lookup?_eq_none_iff.mpr fun p hp he => ?_, ?_⟩
  · have hsplit := List.take_append_drop n t
    rw [← hsplit, List.map_append, List.nodup_append] at h
    have hlast : t[n] ∈ t.drop n := by
      rw [List.drop_eq_getElem_cons hn]
      exact List.mem_cons_self
    exact h.2.2 _ (List.mem_map_of_mem hp) _ (List.mem_map_of_mem hlast) he
  · rw [lookup?_of_mem h (List.getElem_mem hn)]
    exact Option.some_ne_none _

end Table

namespace ByAge

variable [DecidableEq K]

/-- An insertion that finds too much in a store only because of what is expired, and yet makes live
entries go. -/
def Crowded (s : ByAge K V) (now : Nat) (k : K) (e : Entry V) : Prop :=
  s.capacity < (s.table.put k e).length ∧
    ((s.table.live now).put k e).length ≤ s.capacity ∧
    s.lowWater < ((s.table.put k e).live now).length

variable {s : ByAge K V} {now : Nat} {k : K} {v : V} {ttl : Nat}

theorem length_put_live_le (t : Table K V) (k : K) (e : Entry V) (now : Nat) :
    ((t.live now).put k e).length ≤ (t.put k e).length := by
  rw [Table.put, Table.put, ← Table.live_remove]
  exact Nat.succ_le_succ (Table.length_live_le _ _)

theorem length_live_put_le (t : Table K V) (k : K) (e : Entry V) (now : Nat) :
    ((t.put k e).live now).length ≤ ((t.live now).put k e).length := by
  rw [Table.live_put]
  split
  · exact Nat.le_succ _
  · exact Nat.le_refl _

/-- What is alive after an insertion depends only on what has been alive before. -/
theorem live_put_of_not_crowded (h : ¬ s.Crowded now k (.ofLifetime now v ttl)) :
    (s.put now k v ttl).table.live now =
      if ((s.table.live now).put k (.ofLifetime now v ttl)).length ≤ s.capacity
      then (s.table.put k (.ofLifetime now v ttl)).live now
      else ((s.table.put k (.ofLifetime now v ttl)).live now).take s.lowWater := by
  have hle := length_put_live_le s.table k (.ofLifetime now v ttl) now
  unfold put bounded
  dsimp only
  split
  · rename_i hfits
    rw [if_pos (Nat.le_trans hle hfits)]
  · rename_i hfull
    rw [Table.live_take_live]
    split
    · rename_i hroom
      refine List.take_of_length_le (Nat.le_of_not_lt fun hmany => h ⟨?_, hroom, hmany⟩)
      exact Nat.lt_of_not_le hfull
    · rfl

theorem nodup_put (h : (s.table.map (·.1)).Nodup) (now : Nat) (k : K) (v : V) (ttl : Nat) :
    ((s.put now k v ttl).table.map (·.1)).Nodup := by
  have hput := Table.nodup_put h k (.ofLifetime now v ttl)
  unfold put bounded
  split
  · exact hput
  · exact hput.sublist (((List.take_sublist _ _).trans List.filter_sublist).map _)

theorem get_table_sublist (s : ByAge K V) (now : Nat) (k : K) :
    (s.get now k).2.table.Sublist s.table := by
  unfold get
  split
  · exact .refl _
  · split
    · exact List.filter_sublist
    · exact .refl _

/-- Looking for a key does not touch what is alive. -/
theorem live_get (h : (s.table.map (·.1)).Nodup) (now : Nat) (k : K) :
    (s.get now k).2.table.live now = s.table.live now := by
  unfold get
  split
  · rfl
  · rename_i e he
    split
    · rename_i hexp
      dsimp only
      rw [Table.live_remove]
      exact List.filter_eq_self.mpr fun p hp =>
        decide_eq_true (Table.ne_of_isExpired h he hexp hp)
    · rfl

theorem not_crowded_purge {e : Entry V} (h : s.Crowded now k e) :
    ¬ (s.purge now).2.Crowded now k e := fun hp => absurd h.2.1 (Nat.not_le.mpr hp.1)

/-- An insertion into a crowded store leaves less alive than there is then. -/
theorem live_put_of_crowded (h : s.Crowded now k (.ofLifetime now v ttl)) :
    (s.put now k v ttl).table.live now =
      ((s.table.put k (.ofLifetime now v ttl)).live now).take s.lowWater := by
  have hput : s.put now k v ttl = _ := if_neg (Nat.not_le.mpr h.1)
  rw [hput]
  exact Table.live_take_live _ _ _

end ByAge

namespace Registry

variable [DecidableEq K] {r : Registry K V}

/-- Without a cold tier a value is found where the hot one has it. -/
theorem live?_of_no_cold (h : r.cold = none) (now : Nat) (k : K) :
    r.live? now k = (r.hot.peek now k).map (·.value) := by
  unfold live? coldLive?
  rw [h]
  cases r.hot.peek now k <;> rfl

theorem get_of_no_cold (h : r.cold = none) (now : Nat) (k : K) :
    (r.get now k).2.hot = (r.hot.get now k).2 ∧ (r.get now k).2.cold = none := by
  have hc : r.coldLive? now k = none := by rw [coldLive?, h]; rfl
  cases hp : r.hot.peek now k with
  | some e =>
    exact ⟨get_hot_of_some hp, (get_of_hot hp).2.trans h⟩
  | none =>
    refine ⟨by rw [get_hot_of_none hp, hc], ?_⟩
    rw [(get_of_none hp).2, h]
    rfl

theorem entry_of_no_cold (h : r.cold = none) (now : Nat) (k : K) (v : V) (ttl : Nat) :
    (r.entry now k v ttl).2.hot =
        (if (r.hot.peek now k).isSome then r.hot else r.hot.put now k v ttl) ∧
      (r.entry now k v ttl).2.cold = none := by
  unfold entry
  cases r.hot.peek now k with
  | some e => exact ⟨rfl, h⟩
  | none =>
    simp only [getCold, h]
    exact ⟨rfl, rfl⟩

theorem remove_of_no_cold (h : r.cold = none) (k : K) :
    (r.remove k).2 = { r with hot := (r.hot.remove k).2 } := by
  unfold remove
  rw [h]

omit [DecidableEq K] in
theorem purge_of_no_cold (h : r.cold = none) (now : Nat) :
    (r.purge now).2.hot = (r.hot.purge now).2 ∧ (r.purge now).2.cold = none := by
  unfold purge
  rw [h]
  exact ⟨rfl, rfl⟩

end Registry

namespace History

variable [DecidableEq K]

/-- A registry that has no cold tier, and that holds no key twice. -/
structure Untiered (h : History K V) (n : Nat) : Prop where
  cold : h.registry.cold = none
  once : (h.registry.hot.table.map (·.1)).Nodup
  capacity : h.registry.hot.capacity = n

namespace Untiered

variable {h : History K V} {n : Nat}

omit [DecidableEq K] in
theorem ofPolicy {p : Policy} (hp : p.coldCapacity = none) :
    (History.ofPolicy p : History K V).Untiered (max p.hotCapacity 1) :=
  ⟨by rw [History.ofPolicy, Registry.ofPolicy, hp]; rfl, List.nodup_nil, rfl⟩

theorem step (hu : h.Untiered n) (e : Event K V) : (h.step e).Untiered n := by
  cases e with
  | wait ms => exact ⟨hu.cold, hu.once, hu.capacity⟩
  | get k =>
    obtain ⟨hhot, hcold⟩ := Registry.get_of_no_cold hu.cold h.now k
    refine ⟨hcold, ?_, ?_⟩ <;> simp only [History.step, hhot]
    · exact hu.once.sublist ((ByAge.get_table_sublist _ _ _).map _)
    · exact (ByAge.capacity_get _ _ _).trans hu.capacity
  | entry k v ttl =>
    obtain ⟨hhot, hcold⟩ := Registry.entry_of_no_cold hu.cold h.now k v ttl
    refine ⟨hcold, ?_, ?_⟩ <;> simp only [History.step, hhot] <;> split
    · exact hu.once
    · exact ByAge.nodup_put hu.once _ _ _ _
    · exact hu.capacity
    · exact (ByAge.capacity_put _ _ _ _ _).trans hu.capacity
  | put k v ttl =>
    refine ⟨congrArg (Option.map _) hu.cold, ByAge.nodup_put hu.once _ _ _ _, ?_⟩
    exact (ByAge.capacity_put _ _ _ _ _).trans hu.capacity
  | remove k =>
    have hr := Registry.remove_of_no_cold hu.cold k
    refine ⟨?_, ?_, ?_⟩ <;> simp only [History.step, hr]
    · exact hu.cold
    · exact hu.once.sublist (List.filter_sublist.map _)
    · exact hu.capacity
  | purge =>
    obtain ⟨hhot, hcold⟩ := Registry.purge_of_no_cold hu.cold h.now
    refine ⟨hcold, ?_, ?_⟩ <;> simp only [History.step, hhot]
    · exact hu.once.sublist (List.filter_sublist.map _)
    · exact hu.capacity

end Untiered

/-- Whether an event makes live entries go only because of what is expired. -/
def Crowded (h : History K V) : Event K V → Prop
  | .put k v ttl => h.registry.hot.Crowded h.now k (.ofLifetime h.now v ttl)
  | .entry k v ttl => h.registry.hot.peek h.now k = none ∧
      h.registry.hot.Crowded h.now k (.ofLifetime h.now v ttl)
  | _ => False

/-- No event of a run makes live entries go only because of what is expired. -/
def Uncrowded (h : History K V) : List (Event K V) → Prop
  | [] => True
  | e :: events => ¬ h.Crowded e ∧ (h.step e).Uncrowded events

/-- What one is answered who looks for a key, or asks for it. -/
def answer? (h : History K V) : Event K V → Option (Answer V)
  | .get k => some (.found (h.registry.get h.now k).1)
  | .entry k v ttl =>
    let a := (h.registry.entry h.now k v ttl).1
    some (.computed a.value a.inserted)
  | _ => none

def answers (h : History K V) : List (Event K V) → List (Answer V)
  | [] => []
  | e :: events => (h.answer? e).toList ++ (h.step e).answers events

omit [DecidableEq K] in
/-- The live entries. -/
def alive (h : History K V) : Table K V := h.registry.hot.table.live h.now

end History

namespace Table

variable [DecidableEq K]

/-- What is alive of the live entries of a store for `n` entries once another one is stored, if
nothing else takes room there. -/
def stow (n now : Nat) (t : Table K V) (k : K) (e : Entry V) : Table K V :=
  if (t.put k e).length ≤ n then (t.put k e).live now
  else ((t.put k e).live now).take (n - n / 8)

/-- What an event makes of these, and what one is answered. -/
def next (n now : Nat) (t : Table K V) : Event K V → Table K V × Option (Answer V)
  | .wait ms => (t.live (now + ms), none)
  | .get k => (t, some (.found ((t.lookup? k).map (·.value))))
  | .entry k v ttl =>
    match t.lookup? k with
    | some e => (t, some (.computed e.value false))
    | none => (t.stow n now k (.ofLifetime now v ttl), some (.computed v true))
  | .put k v ttl => (t.stow n now k (.ofLifetime now v ttl), none)
  | .remove k => (t.remove k, none)
  | .purge => (t, none)

end Table

namespace History

variable [DecidableEq K] {h : History K V} {n : Nat}

theorem Untiered.peek_eq (hu : h.Untiered n) (k : K) :
    h.registry.hot.peek h.now k = h.alive.lookup? k :=
  (Table.lookup?_live_eq hu.once k h.now).symm

theorem Untiered.get_eq (hu : h.Untiered n) (k : K) :
    (h.registry.get h.now k).1 = (h.alive.lookup? k).map (·.value) := by
  rw [Registry.get_fst, Registry.live?_of_no_cold hu.cold, hu.peek_eq]

/-- An insertion that is not crowded is one into a store of the live entries alone. -/
theorem Untiered.live_put (hu : h.Untiered n) {k : K} {v : V} {ttl : Nat}
    (he : ¬ h.registry.hot.Crowded h.now k (.ofLifetime h.now v ttl)) :
    (h.registry.hot.put h.now k v ttl).table.live h.now =
      h.alive.stow n h.now k (.ofLifetime h.now v ttl) := by
  have hlive : (h.alive.put k (.ofLifetime h.now v ttl)).live h.now =
      (h.registry.hot.table.put k (.ofLifetime h.now v ttl)).live h.now :=
    Table.live_put_live _ _ _ _
  rw [ByAge.live_put_of_not_crowded he, Table.stow, hlive, ByAge.lowWater, hu.capacity]
  rfl

theorem Untiered.next (hu : h.Untiered n) {e : Event K V} (he : ¬ h.Crowded e) :
    ((h.step e).alive, h.answer? e) = h.alive.next n h.now e := by
  cases e with
  | wait ms => exact congrArg (·, none) (Table.live_live _ (Nat.le_add_right _ _)).symm
  | get k =>
    have halive : (h.step (.get k)).alive = h.alive := by
      rw [alive, History.step, (Registry.get_of_no_cold hu.cold h.now k).1]
      exact ByAge.live_get hu.once h.now k
    rw [halive, answer?, hu.get_eq]
    rfl
  | entry k v ttl =>
    have hfst := h.registry.entry_fst h.now k v ttl
    have hhot := (Registry.entry_of_no_cold hu.cold h.now k v ttl).1
    rw [Registry.live?_of_no_cold hu.cold, hu.peek_eq] at hfst
    rw [hu.peek_eq] at hhot
    have halive : (h.step (.entry k v ttl)).alive =
      (h.registry.entry h.now k v ttl).2.hot.table.live h.now := rfl
    rw [halive, hhot, answer?, hfst, Table.next]
    cases hk : h.alive.lookup? k with
    | some e => rfl
    | none =>
      have hnone : h.registry.hot.peek h.now k = none := (hu.peek_eq k).trans hk
      have hput := hu.live_put fun hc => he ⟨hnone, hc⟩
      exact congrArg (·, some (Answer.computed v true)) hput
  | put k v ttl => exact congrArg (·, none) (hu.live_put he)
  | remove k =>
    have halive : (h.step (.remove k)).alive = h.alive.remove k := by
      rw [alive, History.step, Registry.remove_of_no_cold hu.cold]
      exact Table.live_remove _ k h.now
    rw [halive]
    rfl
  | purge =>
    have halive : (h.step .purge).alive = h.alive := by
      rw [alive, History.step, (Registry.purge_of_no_cold hu.cold h.now).1]
      exact Table.live_live _ (Nat.le_refl _)
    rw [halive]
    rfl

omit [DecidableEq K] in
/-- The same run with more sweeps. -/
inductive Swept : List (Event K V) → List (Event K V) → Prop
  | nil : Swept [] []
  | same (e : Event K V) {as bs : List (Event K V)} : Swept as bs → Swept (e :: as) (e :: bs)
  | sweep {as bs : List (Event K V)} : Swept as bs → Swept as (.purge :: bs)

/-- Two registries at one time with the same live entries. -/
structure Alike (h h' : History K V) : Prop where
  now : h'.now = h.now
  alive : h'.alive = h.alive

variable {h' : History K V} {as bs : List (Event K V)} {e : Event K V}

theorem now_step (h : History K V) (e : Event K V) : (h.step e).now = h.now + e.duration := by
  cases e <;> rfl

theorem Alike.step (ha : h.Alike h') (hu : h.Untiered n) (hu' : h'.Untiered n)
    (he : ¬ h.Crowded e) (he' : ¬ h'.Crowded e) :
    (h.step e).Alike (h'.step e) ∧ h'.answer? e = h.answer? e := by
  have hnext := hu.next he
  have hnext' := hu'.next he'
  rw [ha.now, ha.alive, ← hnext] at hnext'
  obtain ⟨halive, hanswer⟩ := Prod.mk.inj hnext'
  exact ⟨⟨by rw [now_step, now_step, ha.now], halive⟩, hanswer⟩

theorem Alike.sweep (ha : h.Alike h') (hu' : h'.Untiered n) : h.Alike (h'.step .purge) := by
  have hnext := congrArg Prod.fst (hu'.next (e := .purge) id)
  exact ⟨ha.now, hnext.trans ha.alive⟩

/-- Where no event makes live entries go only because of what is expired, more sweeps do not change
what is answered or what is alive. -/
theorem Alike.run (hs : Swept as bs) (ha : h.Alike h') (hu : h.Untiered n) (hu' : h'.Untiered n)
    (hc : h.Uncrowded as) (hc' : h'.Uncrowded bs) :
    (h.run as).Alike (h'.run bs) ∧ h'.answers bs = h.answers as := by
  induction hs generalizing h h' with
  | nil => exact ⟨ha, rfl⟩
  | same e _ ih =>
    obtain ⟨hstep, hanswer⟩ := ha.step hu hu' hc.1 hc'.1
    obtain ⟨hrun, hanswers⟩ := ih hstep (hu.step e) (hu'.step e) hc.2 hc'.2
    exact ⟨hrun, by rw [answers, answers, hanswer, hanswers]⟩
  | sweep _ ih => exact ih (ha.sweep hu') hu (hu'.step .purge) hc hc'.2

/-- The first event of a run that makes live entries go only because of what is expired. -/
theorem Swept.exists_crowded (hs : Swept as bs) (hc : ¬ h.Uncrowded bs) :
    ∃ a b e, a ++ [e] <+: as ∧ Swept a b ∧ (h.run b).Crowded e := by
  induction hs generalizing h with
  | nil => exact absurd trivial hc
  | same e _ ih =>
    by_cases he : h.Crowded e
    · exact ⟨[], [], e, List.prefix_append [e] _, .nil, he⟩
    · obtain ⟨a, b, e', hp, hs, hb⟩ := ih fun hrest => hc ⟨he, hrest⟩
      exact ⟨e :: a, e :: b, e', List.cons_prefix_cons.mpr ⟨rfl, hp⟩, .same e hs, hb⟩
  | sweep _ ih =>
    obtain ⟨a, b, e, hp, hs, hb⟩ := ih fun hrest => hc ⟨id, hrest⟩
    exact ⟨a, .purge :: b, e, hp, .sweep hs, hb⟩

/-- What a crowded event inserts. -/
theorem Untiered.exists_of_crowded (hu : h.Untiered n) (he : h.Crowded e) :
    ∃ k v ttl, h.registry.hot.Crowded h.now k (.ofLifetime h.now v ttl) ∧
      (h.step e).registry.hot = h.registry.hot.put h.now k v ttl ∧
      (h.alive.next n h.now e).1 = h.alive.stow n h.now k (.ofLifetime h.now v ttl) ∧
      e.duration = 0 := by
  cases e with
  | put k v ttl => exact ⟨k, v, ttl, he, rfl, rfl, rfl⟩
  | entry k v ttl =>
    obtain ⟨hnone, hc⟩ := he
    have hhot := (Registry.entry_of_no_cold hu.cold h.now k v ttl).1
    rw [hnone] at hhot
    rw [hu.peek_eq] at hnone
    refine ⟨k, v, ttl, hc, hhot, ?_, rfl⟩
    rw [Table.next, hnone]
  | _ => exact he.elim

theorem Untiered.not_crowded_purge (hu : h.Untiered n) (he : h.Crowded e) :
    ¬ (h.step .purge).Crowded e := by
  have hhot : (h.step .purge).registry.hot = (h.registry.hot.purge h.now).2 :=
    (Registry.purge_of_no_cold hu.cold h.now).1
  cases e with
  | put k v ttl =>
    rw [Crowded, hhot]
    exact ByAge.not_crowded_purge he
  | entry k v ttl =>
    rw [Crowded, hhot]
    exact fun hp => ByAge.not_crowded_purge he.2 hp.2
  | _ => exact he.elim

/-- Whether there has been a sweep before a crowded event shows at once. -/
theorem Untiered.exists_get_ne (hu : h.Untiered n) (he : h.Crowded e) :
    ∃ k, ((h.step e).registry.get (h.step e).now k).1 ≠
      (((h.step .purge).step e).registry.get ((h.step .purge).step e).now k).1 := by
  obtain ⟨k, v, ttl, hc, hhot, hnext, hd⟩ := hu.exists_of_crowded he
  have hswept : (h.step .purge).Untiered n := hu.step .purge
  have hsame := (Alike.mk rfl rfl : h.Alike h).sweep hu
  -- Without a sweep, not all of what is alive then stays.
  have hless : (h.step e).alive =
      ((h.registry.hot.table.put k (.ofLifetime h.now v ttl)).live h.now).take
        h.registry.hot.lowWater := by
    rw [alive, now_step, hd, hhot]
    exact ByAge.live_put_of_crowded hc
  -- After a sweep there is room for all of it.
  have hall : ((h.step .purge).step e).alive =
      (h.registry.hot.table.put k (.ofLifetime h.now v ttl)).live h.now := by
    have hstow := congrArg Prod.fst (hswept.next (hu.not_crowded_purge he))
    rw [hsame.now, hsame.alive, hnext, Table.stow, if_pos (hu.capacity ▸ hc.2.1)] at hstow
    exact hstow.trans (Table.live_put_live _ _ _ _)
  have honce : (((h.registry.hot.table.put k (.ofLifetime h.now v ttl)).live h.now).map
      (·.1)).Nodup := (Table.nodup_put hu.once k _).sublist (List.filter_sublist.map _)
  obtain ⟨l, hnone, hsome⟩ := Table.exists_lookup?_take_eq_none honce hc.2.2
  refine ⟨l, ?_⟩
  rw [(hu.step e).get_eq, (hswept.step e).get_eq, hless, hall, hnone]
  exact fun heq => hsome (Option.map_eq_none_iff.mp heq.symm)

theorem Untiered.run (hu : h.Untiered n) (events : List (Event K V)) :
    (h.run events).Untiered n := by
  induction events generalizing h with
  | nil => exact hu
  | cons e events ih => exact ih (hu.step e)

theorem run_append (h : History K V) (as bs : List (Event K V)) :
    h.run (as ++ bs) = (h.run as).run bs := List.foldl_append

theorem Uncrowded.of_append {as bs : List (Event K V)} (hc : h.Uncrowded (as ++ bs)) :
    h.Uncrowded as := by
  induction as generalizing h with
  | nil => trivial
  | cons e as ih => exact ⟨hc.1, ih hc.2⟩

omit [DecidableEq K] in
theorem Swept.refl (events : List (Event K V)) : Swept events events := by
  induction events with
  | nil => exact .nil
  | cons e events ih => exact .same e ih

omit [DecidableEq K] in
theorem Swept.append {as bs as' bs' : List (Event K V)} (h : Swept as bs) (h' : Swept as' bs') :
    Swept (as ++ as') (bs ++ bs') := by
  induction h with
  | nil => exact h'
  | same e _ ih => exact .same e ih
  | sweep _ ih => exact .sweep ih

/-- Where no insertion finds the store too full only because of what is expired, and yet makes live
entries go, more sweeps do not change what is answered. -/
theorem answers_swept {p : Policy} (hp : p.coldCapacity = none) {events swept : List (Event K V)}
    (hs : Swept events swept) (hc : (ofPolicy p : History K V).Uncrowded events)
    (hc' : (ofPolicy p : History K V).Uncrowded swept) :
    (ofPolicy p : History K V).answers swept = (ofPolicy p).answers events :=
  (Alike.run hs ⟨rfl, rfl⟩ (.ofPolicy hp) (.ofPolicy hp) hc hc').2

/-- Sweeps do not change what is found exactly if no run with more of them has such an
insertion. -/
theorem found_swept_iff {p : Policy} (hp : p.coldCapacity = none) (events : List (Event K V)) :
    let h : History K V := ofPolicy p
    (∀ a, a <+: events → ∀ swept, Swept a swept → ∀ k,
        ((h.run swept).registry.get (h.run swept).now k).1 =
          ((h.run a).registry.get (h.run a).now k).1) ↔
      ∀ swept, Swept events swept → h.Uncrowded swept := by
  intro h
  have hu : h.Untiered (max p.hotCapacity 1) := .ofPolicy hp
  have hsame : h.Alike h := ⟨rfl, rfl⟩
  constructor
  · intro hget swept hs
    by_contra hc
    obtain ⟨a, b, e, ha, hab, he⟩ := hs.exists_crowded hc
    obtain ⟨k, hk⟩ := (hu.run b).exists_get_ne he
    have hone := hget _ ha _ (hab.append (.same e .nil)) k
    have htwo := hget _ ha _ (hab.append (.sweep (.same e .nil))) k
    rw [run_append, run_append] at hone htwo
    exact hk (hone.trans htwo.symm)
  · rintro hc a ⟨rest, rfl⟩ swept hs k
    have hswept : h.Uncrowded (swept ++ rest) := hc _ (hs.append (.refl rest))
    have halike := (hsame.run hs hu hu (hc _ (.refl _)).of_append hswept.of_append).1
    rw [(hu.run swept).get_eq, (hu.run a).get_eq, halike.alive]

end History

end SocksChain.Store
