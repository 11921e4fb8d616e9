import Mathlib.Data.Finset.Dedup
import SocksChain.Proofs.Store.Recency

/-!
What a registry gives out over time. It is always what was stored last under the key, whichever tier
it comes from and however often it went to and fro between them. And as long as that may live, and
the cold tier has not had to make room for too many other keys since, it is given out.
-/

namespace SocksChain.Store

variable {K V : Type}

/-- What an event has done with a key. -/
inductive Deed (K V : Type) where
  | stored (k : K) (v : V) (time ttl : Nat)
  | removed (k : K)
  /-- The key was found in the cold tier only. -/
  | recalled (k : K)
deriving DecidableEq

namespace Deed

/-- Whether a deed ends what was stored under a key before. -/
def Ends (k : K) : Deed K V → Prop
  | stored l _ _ _ => l = k
  | removed l => l = k
  | recalled _ => False

/-- The key that a deed has used in the cold tier. -/
def used? : Deed K V → Option K
  | stored l _ _ _ => some l
  | removed _ => none
  | recalled l => some l

end Deed

/-- Under `k` there was last stored `v`, at some time and for some lifetime, and `since` is what has
been done after that. -/
structure LastStored (log : List (Deed K V)) (k : K) (v : V) (time ttl : Nat)
    (since : List (Deed K V)) : Prop where
  split : ∃ before, log = before ++ .stored k v time ttl :: since
  lasts : ∀ d ∈ since, ¬ d.Ends k

/-- An entry whose value is what was stored last. -/
def Latest (log : List (Deed K V)) (k : K) (e : Entry V) : Prop :=
  ∃ time ttl since, LastStored log k e.value time ttl since

section Logs

variable {log : List (Deed K V)} {k l : K} {v w : V} {time time' ttl ttl' : Nat}
  {since since' : List (Deed K V)} {d : Deed K V}

theorem LastStored.append (h : LastStored log k v time ttl since) (more : List (Deed K V))
    (hm : ∀ d ∈ more, ¬ d.Ends k) : LastStored (log ++ more) k v time ttl (since ++ more) := by
  obtain ⟨⟨before, rfl⟩, hl⟩ := h
  refine ⟨⟨before, by rw [List.append_assoc, List.cons_append]⟩, ?_⟩
  exact fun d hd => (List.mem_append.mp hd).elim (hl d) (hm d)

theorem lastStored_concat (log : List (Deed K V)) (k : K) (v : V) (time ttl : Nat) :
    LastStored (log ++ [.stored k v time ttl]) k v time ttl [] :=
  ⟨⟨log, rfl⟩, nofun⟩

/-- What was last stored before the last deed, or by it. -/
theorem LastStored.of_append {d : Option (Deed K V)}
    (h : LastStored (log ++ d.toList) k v time ttl since') :
    (d = some (.stored k v time ttl) ∧ since' = []) ∨
      ∃ since, LastStored log k v time ttl since ∧ since' = since ++ d.toList ∧
        ∀ x ∈ d, ¬ x.Ends k := by
  obtain ⟨⟨before, hs⟩, hl⟩ := h
  cases d with
  | none =>
    rw [Option.toList_none, List.append_nil] at hs
    exact .inr ⟨since', ⟨⟨before, hs⟩, hl⟩, (List.append_nil _).symm, nofun⟩
  | some d =>
    rw [Option.toList_some] at hs ⊢
    rcases List.eq_nil_or_concat since' with rfl | ⟨since, d', rfl⟩
    · obtain ⟨-, hd⟩ := List.append_inj' hs rfl
      exact .inl ⟨by rw [(List.cons.inj hd).1], rfl⟩
    · rw [List.concat_eq_append] at hs hl ⊢
      rw [← List.cons_append, ← List.append_assoc] at hs
      obtain ⟨rfl, hd⟩ := List.append_inj' hs rfl
      obtain rfl := (List.cons.inj hd).1
      refine .inr ⟨since, ⟨⟨before, rfl⟩, fun x hx => hl x (List.mem_append_left _ hx)⟩, rfl, ?_⟩
      intro x hx
      cases hx
      exact hl d (List.mem_append_right _ List.mem_cons_self)

/-- There is only one last time. -/
theorem LastStored.value_eq (h : LastStored log k v time ttl since)
    (h' : LastStored log k w time' ttl' since') : v = w := by
  obtain ⟨⟨before, rfl⟩, hl⟩ := h
  obtain ⟨⟨before', hs⟩, hl'⟩ := h'
  rcases List.append_eq_append_iff.mp hs with ⟨x, rfl, hx⟩ | ⟨x, rfl, hx⟩
  · rcases List.cons_eq_append_iff.mp hx with ⟨rfl, hx⟩ | ⟨y, rfl, rfl⟩
    · cases hx
      rfl
    · exact absurd rfl (hl (.stored k w time' ttl') (by simp))
  · rcases List.cons_eq_append_iff.mp hx with ⟨rfl, hx⟩ | ⟨y, rfl, rfl⟩
    · cases hx
      rfl
    · exact absurd rfl (hl' (.stored k v time ttl) (by simp))

theorem Latest.append {e : Entry V} (h : Latest log k e) {d : Option (Deed K V)}
    (hd : ∀ x ∈ d, ¬ x.Ends k) : Latest (log ++ d.toList) k e := by
  obtain ⟨time, ttl, since, hl⟩ := h
  exact ⟨time, ttl, _, hl.append _ fun x hx => hd x (Option.mem_toList.mp hx)⟩

end Logs

variable [DecidableEq K]

/-- The keys other than `k` that were used in the cold tier. -/
def othersUsed (k : K) (deeds : List (Deed K V)) : Finset K :=
  (deeds.filterMap Deed.used?).toFinset.erase k

section Others

variable {k l : K} {since : List (Deed K V)} {d : Deed K V}

theorem mem_othersUsed : l ∈ othersUsed k since ↔ l ≠ k ∧ ∃ d ∈ since, d.used? = some l := by
  rw [othersUsed, Finset.mem_erase, List.mem_toFinset, List.mem_filterMap]

theorem othersUsed_subset (k : K) (since more : List (Deed K V)) :
    othersUsed k since ⊆ othersUsed k (since ++ more) := by
  intro l hl
  obtain ⟨hk, d, hd, hu⟩ := mem_othersUsed.mp hl
  exact mem_othersUsed.mpr ⟨hk, d, List.mem_append_left _ hd, hu⟩

theorem othersUsed_concat_of_ne (hl : l ≠ k) (hd : d.used? = some l) (since : List (Deed K V)) :
    othersUsed k (since ++ [d]) = insert l (othersUsed k since) := by
  simp [othersUsed, List.filterMap_append, hd, Finset.erase_insert_of_ne hl, Finset.union_comm]

end Others

/-- Whether the cold tier, if there is one, holds more keys than those of `s`. -/
def Policy.HasRoom (p : Policy) (s : Finset K) : Prop :=
  ∀ n, p.coldCapacity = some n → s.card < max n 1

omit [DecidableEq K] in
theorem Registry.card_lt_capacity {r : Registry K V} {p : Policy} {s : Finset K}
    (hr : r.shape = (Registry.ofPolicy p : Registry K V).shape) (hs : p.HasRoom s) :
    ∀ c, r.cold = some c → s.card < c.capacity := by
  intro c hc
  have hm := congrArg Prod.snd hr
  simp only [Registry.shape, hc, Registry.ofPolicy, Option.map_map] at hm
  obtain ⟨n, hn, hcap⟩ := Option.map_eq_some_iff.mp hm.symm
  rw [← hcap]
  exact hs n hn

namespace History

/-- What an event does with a key, if it finds or changes anything. -/
def deed? (h : History K V) : Event K V → Option (Deed K V)
  | .put k v ttl => some (.stored k v h.now ttl)
  | .entry k v ttl =>
    if (h.registry.entry h.now k v ttl).1.inserted then some (.stored k v h.now ttl)
    else if h.registry.recalls h.now k then some (.recalled k)
    else none
  | .get k => if h.registry.recalls h.now k then some (.recalled k) else none
  | .remove k => some (.removed k)
  | .wait _ => none
  | .purge => none

def deeds (h : History K V) : List (Event K V) → List (Deed K V)
  | [] => []
  | e :: events => (h.deed? e).toList ++ (h.step e).deeds events


variable {h : History K V} {k l : K} {v w : V} {e : Entry V} {ttl : Nat}
  {since log : List (Deed K V)} {p : Policy}

theorem deed?_entry_of_none (hv : h.registry.live? h.now k = none) (v : V) (ttl : Nat) :
    h.deed? (.entry k v ttl) = some (.stored k v h.now ttl) := by
  rw [deed?, Registry.entry_fst, hv]
  rfl

theorem deed?_entry_of_live (hv : h.registry.live? h.now k = some w) (v : V) (ttl : Nat) :
    h.deed? (.entry k v ttl) =
      if h.registry.recalls h.now k then some (.recalled k) else none := by
  rw [deed?, Registry.entry_fst, hv]
  rfl

theorem mem_othersUsed_of_recalled {d : Option (Deed K V)} (hl : l ≠ k)
    (hd : d = if h.registry.recalls h.now l then some (.recalled l) else none)
    (hr : h.registry.recalls h.now l = true) (since : List (Deed K V)) :
    l ∈ othersUsed k (since ++ d.toList) := by
  rw [hd, if_pos hr]
  exact mem_othersUsed.mpr ⟨hl, .recalled l, List.mem_append_right _ List.mem_cons_self, rfl⟩

/-- An entry that is not stored anew is kept, with one more key before it at most. -/
theorem keeps_step (hs : h.registry.shape = (Registry.ofPolicy p : Registry K V).shape)
    (a : Event K V) (hd : ∀ x ∈ h.deed? a, ¬ x.Ends k) (he : h.now < e.expires)
    (hk : h.registry.Keeps k e (othersUsed k since))
    (hroom : p.HasRoom (othersUsed k (since ++ (h.deed? a).toList))) :
    (h.step a).registry.Keeps k e (othersUsed k (since ++ (h.deed? a).toList)) := by
  have hsub := othersUsed_subset k since (h.deed? a).toList
  cases a with
  | wait ms => exact hk.of_eq rfl hsub
  | get l => exact hk.get he hsub fun hl hr => mem_othersUsed_of_recalled hl rfl hr since
  | entry l w ttl =>
    match hv : h.registry.live? h.now l with
    | some x =>
      have hdeed := deed?_entry_of_live hv w ttl
      exact hk.entry_of_live he hsub hv
        (fun hl hr => mem_othersUsed_of_recalled hl hdeed hr since) w ttl
    | none =>
      have hdeed := deed?_entry_of_none hv w ttl
      have hl : l ≠ k := hd _ hdeed
      have hset := othersUsed_concat_of_ne (d := .stored l w h.now ttl) hl rfl since
      rw [hdeed, Option.toList_some, hset] at hroom ⊢
      exact hk.entry_of_none he hl hv (Registry.card_lt_capacity hs hroom)
  | put l w ttl =>
    have hl : l ≠ k := hd _ rfl
    have hset := othersUsed_concat_of_ne (d := .stored l w h.now ttl) hl rfl since
    rw [deed?, Option.toList_some, hset] at hroom ⊢
    exact hk.put hl (Registry.card_lt_capacity hs hroom)
  | remove l =>
    have hl : l ≠ k := hd _ rfl
    exact (hk.remove hl).of_eq rfl hsub
  | purge => exact (hk.purge he).of_eq rfl hsub

/-- What is stored stands at the front of the cold tier. -/
theorem keeps_stored {a : Event K V} {time : Nat} (hd : h.deed? a = some (.stored k v time ttl))
    (s : Finset K) : time = h.now ∧ (h.step a).registry.Keeps k
      ⟨v, time + max h.registry.policy.coldTtl ttl⟩ s := by
  cases a with
  | put l w d =>
    cases hd
    refine ⟨rfl, fun c hc => ?_⟩
    obtain ⟨c', -, rfl⟩ := Option.map_eq_some_iff.mp hc
    exact c'.keeps_put_self _ _ _ _ _
  | entry l w d =>
    match hv : h.registry.live? h.now l with
    | some x =>
      rw [deed?_entry_of_live hv] at hd
      split at hd <;> cases hd
    | none =>
      rw [deed?_entry_of_none hv] at hd
      cases hd
      refine ⟨rfl, fun c hc => ?_⟩
      simp only [step, (Registry.entry_of_none hv).2] at hc
      obtain ⟨c', -, rfl⟩ := Option.map_eq_some_iff.mp hc
      exact ByUse.keeps_put_self _ _ _ _ _ _
  | get l =>
    rw [deed?] at hd
    split at hd <;> cases hd
  | _ => cases hd

theorem shape_step (h : History K V) (a : Event K V) :
    (h.step a).registry.shape = h.registry.shape := by
  cases a with
  | wait ms => rfl
  | get k =>
    match hh : h.registry.hot.peek h.now k with
    | some x => exact (Registry.get_of_hot hh).1
    | none => exact (Registry.get_of_none hh).1
  | entry k v ttl =>
    match hv : h.registry.live? h.now k with
    | none => exact (Registry.entry_of_none hv).1
    | some w =>
      match hh : h.registry.hot.peek h.now k with
      | some x =>
        simp only [step, Registry.entry_of_hot hh]
        rfl
      | none =>
        rw [Registry.live?, hh] at hv
        obtain ⟨x, hx, -⟩ := Option.map_eq_some_iff.mp hv
        simp only [step, Registry.entry_of_cold hh hx]
        exact h.registry.shape_getCold h.now k
  | put k v ttl => exact h.registry.shape_put _ _ _ _
  | remove k => exact (h.registry.remove_cold k).1
  | purge => exact (h.registry.purge_cold _).1

/-- Nothing is stored but what was stored last. -/
theorem latest_step (hl : h.registry.All (Latest log)) (a : Event K V) :
    (h.step a).registry.All (Latest (log ++ (h.deed? a).toList)) := by
  have hkeep : (∀ x ∈ h.deed? a, ∀ l, ¬ x.Ends l) →
      h.registry.All (Latest (log ++ (h.deed? a).toList)) := fun hd =>
    hl.mono fun l e hm => hm.append fun x hx => hd x hx l
  have hne : ∀ k, (∀ x ∈ h.deed? a, ∀ l, x.Ends l → l = k) →
      h.registry.All fun l e => l ≠ k → Latest (log ++ (h.deed? a).toList) l e := fun k hd =>
    hl.mono fun l e hm hn => hm.append fun x hx he => hn (hd x hx l he)
  cases a with
  | wait ms => exact hkeep nofun
  | get k =>
    have hd : ∀ x ∈ h.deed? (.get k), ∀ l, ¬ x.Ends l := by
      intro x hx l
      rw [deed?] at hx
      split at hx <;> cases hx
      exact id
    exact (hkeep hd).get (fun _ _ _ hm _ => hm) _ _
  | entry k v ttl =>
    match hv : h.registry.live? h.now k with
    | some w =>
      have hd : ∀ x ∈ h.deed? (.entry k v ttl), ∀ l, ¬ x.Ends l := by
        intro x hx l
        rw [deed?_entry_of_live hv] at hx
        split at hx <;> cases hx
        exact id
      refine (hkeep hd).entry (fun _ _ hm => hm) fun hn => ?_
      cases hn.symm.trans hv
    | none =>
      have hdeed := deed?_entry_of_none hv v ttl
      have hnew : ∀ t, Latest (log ++ (h.deed? (.entry k v ttl)).toList) k ⟨v, t⟩ := by
        intro t
        rw [hdeed]
        exact ⟨_, _, _, lastStored_concat log k v h.now ttl⟩
      refine (hne k ?_).entry_of_none hv (hnew _) fun _ => hnew _
      intro x hx l he
      rw [hdeed] at hx
      cases hx
      exact he.symm
  | put k v ttl =>
    have hnew : ∀ t, Latest (log ++ (h.deed? (.put k v ttl)).toList) k ⟨v, t⟩ := fun t =>
      ⟨_, _, _, lastStored_concat log k v h.now ttl⟩
    refine (hne k ?_).put_of_ne (hnew _) fun _ => hnew _
    intro x hx l he
    cases hx
    exact he.symm
  | remove k =>
    refine (hne k ?_).remove_of_ne
    intro x hx l he
    cases hx
    exact he.symm
  | purge => exact (hkeep nofun).purge _

/-- How a registry stands to what has been done with it. -/
structure Coherent (p : Policy) (log : List (Deed K V)) (h : History K V) : Prop where
  shape : h.registry.shape = (Registry.ofPolicy p : Registry K V).shape
  latest : h.registry.All (Latest log)
  kept : ∀ {k v time ttl since}, LastStored log k v time ttl since →
    h.now < time + max p.coldTtl ttl → p.HasRoom (othersUsed k since) →
    h.registry.Keeps k ⟨v, time + max p.coldTtl ttl⟩ (othersUsed k since)

namespace Coherent

theorem ofPolicy (p : Policy) : Coherent p [] (History.ofPolicy p : History K V) := by
  refine ⟨rfl, .ofPolicy p, fun hl => ?_⟩
  obtain ⟨before, hb⟩ := hl.split
  exact absurd hb.symm (by simp)

theorem now_le_step (h : History K V) (a : Event K V) : h.now ≤ (h.step a).now := by
  cases a with
  | wait ms => exact Nat.le_add_right _ _
  | _ => exact Nat.le_refl _

theorem step (hc : Coherent p log h) (a : Event K V) :
    Coherent p (log ++ (h.deed? a).toList) (h.step a) := by
  refine ⟨(h.shape_step a).trans hc.shape, latest_step hc.latest a, ?_⟩
  intro k v time ttl since' hl hnow hroom
  rcases hl.of_append with ⟨hd, rfl⟩ | ⟨since, hlast, rfl, hd⟩
  · have hp : h.registry.policy = p := congrArg Prod.fst hc.shape
    rw [← hp]
    exact (keeps_stored hd _).2
  · have hlt := Nat.lt_of_le_of_lt (now_le_step h a) hnow
    have hsub := othersUsed_subset k since (h.deed? a).toList
    have hroom' : p.HasRoom (othersUsed k since) := fun n hn =>
      Nat.lt_of_le_of_lt (Finset.card_le_card hsub) (hroom n hn)
    exact keeps_step hc.shape a hd hlt (hc.kept hlast hlt hroom') hroom

theorem run (hc : Coherent p log h) (events : List (Event K V)) :
    Coherent p (log ++ h.deeds events) (h.run events) := by
  induction events generalizing h log with
  | nil =>
    rw [deeds, List.append_nil]
    exact hc
  | cons a events ih =>
    rw [deeds, ← List.append_assoc]
    exact ih (hc.step a)

/-- What a registry gives out was stored last. -/
theorem exists_lastStored (hc : Coherent p log h) (hv : h.registry.live? h.now k = some v) :
    ∃ time ttl since, LastStored log k v time ttl since := by
  obtain ⟨e, hm, rfl, -⟩ := hc.latest.of_live? hv
  exact hm

/-- What was stored last is given out while it may live and there was room for it. -/
theorem live?_of_lastStored (hc : Coherent p log h) (hp : p.coldCapacity.isSome) {time : Nat}
    (hl : LastStored log k v time ttl since) (hnow : h.now < time + max p.coldTtl ttl)
    (hroom : p.HasRoom (othersUsed k since)) : h.registry.live? h.now k = some v := by
  have htier : h.registry.cold.isSome := by
    have hm := congrArg (fun s => s.2.isSome) hc.shape
    simpa only [Registry.shape, Registry.ofPolicy, Option.isSome_map, hp] using hm
  have hcold := (hc.kept hl hnow hroom).coldLive? htier hnow
  have hsome : ∃ w, h.registry.live? h.now k = some w := by
    rw [Registry.live?, hcold]
    split <;> exact ⟨_, rfl⟩
  obtain ⟨w, hw⟩ := hsome
  obtain ⟨_, _, _, hl'⟩ := hc.exists_lastStored hw
  rw [hw, hl.value_eq hl']

end Coherent

/-- **A registry gives out what was stored last, and nothing else.** Whatever is found under a key,
and has not just been computed, was stored last under it and not removed since. With a cold tier
it is found for as long as it may live there, unless the tier has had to make room for as many
other keys as it holds. -/
theorem gives_last_stored (p : Policy) (events : List (Event K V)) (k : K) :
    let h := (ofPolicy p).run events
    let log := (ofPolicy p).deeds events
    (∀ w, (h.registry.get h.now k).1 = some w ∨
        (∃ v ttl, (h.registry.entry h.now k v ttl).1 = ⟨w, false⟩) →
      ∃ time ttl since, LastStored log k w time ttl since) ∧
    ∀ n, p.coldCapacity = some n → ∀ v time ttl since, LastStored log k v time ttl since →
      h.now < time + max ttl p.coldTtl → (othersUsed k since).card < max n 1 →
      (h.registry.get h.now k).1 = some v ∧
        ∀ w d, (h.registry.entry h.now k w d).1 = ⟨v, false⟩ := by
  intro h log
  have hc : Coherent p log h := by
    have hrun := (Coherent.ofPolicy p : Coherent p [] (ofPolicy p : History K V)).run events
    rwa [List.nil_append] at hrun
  refine ⟨fun w hw => ?_, fun n hn v time ttl since hl hnow hroom => ?_⟩
  · refine hc.exists_lastStored ?_
    rcases hw with hg | ⟨v, ttl, he⟩
    · rwa [Registry.get_fst] at hg
    · rw [Registry.entry_fst] at he
      match hv : h.registry.live? h.now k with
      | none =>
        rw [hv] at he
        cases he
      | some x =>
        rw [hv] at he
        cases he
        rfl
  · have hlive : h.registry.live? h.now k = some v := by
      refine hc.live?_of_lastStored (by rw [hn]; rfl) hl (Nat.max_comm _ _ ▸ hnow) ?_
      intro m hm
      cases hn.symm.trans hm
      exact hroom
    refine ⟨by rw [Registry.get_fst, hlive], fun w d => ?_⟩
    rw [Registry.entry_fst, hlive]
    rfl

/-- The hot tier holds one entry, and has dropped this one for another that has been used twice. -/
theorem gives_what_the_hot_tier_dropped :
    let p : Policy := { hotCapacity := 1, coldCapacity := some 2, coldTtl := 1000 }
    let events : List (Event Nat String) := [.put 1 "a" 100, .put 2 "b" 100, .wait 500, .get 2]
    let since : List (Deed Nat String) := [.stored 2 "b" 0 100, .recalled 2]
    let h := (ofPolicy p).run events
    LastStored ((ofPolicy p).deeds events) 1 "a" 0 100 since ∧ h.now = 500 ∧
      (othersUsed 1 since).card = 1 ∧ h.registry.hot.peek h.now 1 = none ∧
      (h.registry.get h.now 1).1 = some "a" ∧
        ∀ w d, (h.registry.entry h.now 1 w d).1 = ⟨"a", false⟩ := by
  intro p events since h
  have hl : LastStored ((ofPolicy p).deeds events) 1 "a" 0 100 since :=
    ⟨⟨[], by decide⟩, by simp [since, Deed.Ends]⟩
  have hcard : (othersUsed 1 since).card = 1 := by decide
  have hg := (gives_last_stored p events 1).2 2 rfl "a" 0 100 since hl (by decide)
    (by rw [hcard]; decide)
  exact ⟨hl, by decide, hcard, by decide, hg⟩

end History

end SocksChain.Store
