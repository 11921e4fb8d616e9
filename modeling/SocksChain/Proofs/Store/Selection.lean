import Mathlib.Data.List.Perm.Subperm
import Mathlib.Data.List.Sort
import SocksChain.Proofs.Store.Room
import SocksChain.Store.Shards

/-!
What partial selection leaves of a store whose entries stand in no order. As long as no two of them
were inserted at one time, what is selected are the ones that were inserted first, and what is left
is the same as if the entries were kept in the order of insertion, and the end of them cut off.
-/

namespace SocksChain.Store

variable {K V : Type}

/-- Of a list in which the greater ones come first, the first `m` are those with fewer than `m`
greater ones. -/
theorem take_eq_filter_countP {α : Type} (f : α → Nat) {l : List α}
    (h : l.Pairwise fun a b => f b < f a) (m : Nat) :
    l.take m = l.filter fun a => l.countP (fun b => f a < f b) < m := by
  induction l generalizing m with
  | nil => rw [List.take_nil, List.filter_nil]
  | cons a l ih =>
    obtain ⟨ha, hl⟩ := List.pairwise_cons.mp h
    have hfront : (a :: l).countP (fun b => f a < f b) = 0 := by
      refine List.countP_eq_zero.mpr fun b hb => ?_
      rcases List.mem_cons.mp hb with rfl | hb
      · simp
      · have := ha b hb
        simp only [decide_eq_true_eq]
        omega
    have hrest : ∀ b ∈ l, (a :: l).countP (fun c => f b < f c) =
        l.countP (fun c => f b < f c) + 1 := fun b hb =>
      List.countP_cons_of_pos (by simpa using ha b hb)
    cases m with
    | zero => simp
    | succ m =>
      rw [List.take_succ_cons, List.filter_cons_of_pos (by simp [hfront]), ih hl]
      congr 1
      refine List.filter_congr fun b hb => ?_
      rw [hrest b hb]
      simp

/-- Of a list without doubles, what is not at its end is its front. -/
theorem filter_notMem_drop {α β : Type} [DecidableEq β] (f : α → β) {l : List α}
    (h : (l.map f).Nodup) (m : Nat) :
    (l.filter fun a => decide (f a ∉ (l.drop m).map f)) = l.take m := by
  have hsplit := List.take_append_drop m l
  have hdisj : ∀ a ∈ l.take m, f a ∉ (l.drop m).map f := by
    intro a ha hm
    rw [← hsplit, List.map_append, List.nodup_append] at h
    exact h.2.2 _ (List.mem_map_of_mem ha) _ hm rfl
  calc (l.filter fun a => decide (f a ∉ (l.drop m).map f))
      = ((l.take m).filter fun a => decide (f a ∉ (l.drop m).map f)) ++
          (l.drop m).filter fun a => decide (f a ∉ (l.drop m).map f) := by
        rw [← List.filter_append, hsplit]
    _ = l.take m ++ [] := by
        congr 1
        · exact List.filter_eq_self.mpr fun a ha => decide_eq_true (hdisj a ha)
        · refine List.filter_eq_nil_iff.mpr fun a ha => ?_
          rw [decide_eq_true_eq, not_not]
          exact List.mem_map_of_mem ha
    _ = l.take m := List.append_nil _

namespace Selection

/-- Selects by sorting. -/
def oldestFirst : Selection K := fun n ages => (ages.insertionSort fun a b => a.1 ≤ b.1).take n

theorem fair_oldestFirst : (oldestFirst : Selection K).Fair := by
  intro n ages hn
  have : Std.Total fun a b : Nat × K => a.1 ≤ b.1 := ⟨fun a b => Nat.le_total a.1 b.1⟩
  have : IsTrans (Nat × K) fun a b => a.1 ≤ b.1 := ⟨fun _ _ _ => Nat.le_trans⟩
  have hsorted := List.pairwise_insertionSort (fun a b : Nat × K => a.1 ≤ b.1) ages
  have hsplit := List.take_append_drop n (ages.insertionSort fun a b => a.1 ≤ b.1)
  refine ⟨?_, (ages.insertionSort fun a b => a.1 ≤ b.1).drop n, ?_, ?_⟩
  · rw [oldestFirst, List.length_take, List.length_insertionSort]
    exact Nat.min_eq_left (Nat.le_of_lt hn)
  · rw [oldestFirst, hsplit]
    exact List.perm_insertionSort _ ages
  · rw [← hsplit] at hsorted
    exact (List.pairwise_append.mp hsorted).2.2

/-- Walking the other way round is fair as well. -/
theorem Fair.reverse {select : Selection K} (hs : select.Fair) :
    Selection.Fair fun n (ages : List (Nat × K)) => select n ages.reverse := by
  intro n ages hn
  obtain ⟨hlen, others, hp, hle⟩ := hs n ages.reverse (by rwa [List.length_reverse])
  exact ⟨hlen, others, hp.trans ages.reverse_perm, hle⟩

/-- What is selected of ages that fall along the list is the end of the list. -/
theorem Fair.perm_drop [DecidableEq K] {select : Selection K} (hs : select.Fair)
    {ages : List (Nat × K)} (h : ages.Pairwise fun a b => b.1 < a.1) {n : Nat}
    (hn : n < ages.length) :
    (select n ages).Perm (ages.drop (ages.length - n)) := by
  obtain ⟨hlen, others, hp, hle⟩ := hs n ages hn
  have hnodup : ages.Nodup := h.imp fun hab => by rintro rfl; exact Nat.lt_irrefl _ hab
  have hsel : (select n ages).Nodup := (List.nodup_append.mp (hp.nodup_iff.mpr hnodup)).1
  have hdrop : (ages.drop (ages.length - n)).length = n := by
    rw [List.length_drop]
    omega
  have hsplit := List.take_append_drop (ages.length - n) ages
  have hcross := (List.pairwise_append.mp (hsplit.symm ▸ h)).2.2
  -- An old one that was passed over would leave too few old ones for those that were taken.
  have hold : ∀ b ∈ ages.drop (ages.length - n), b ∈ select n ages := by
    intro b hb
    by_contra hout
    have hother : b ∈ others := by
      have hm := hp.mem_iff.mpr (List.mem_of_mem_drop hb)
      exact (List.mem_append.mp hm).resolve_left hout
    have hsub : select n ages ⊆ (ages.drop (ages.length - n)).erase b := by
      intro a ha
      have hm : a ∈ ages := hp.mem_iff.mp (List.mem_append_left _ ha)
      rw [← hsplit] at hm
      rcases List.mem_append.mp hm with hm | hm
      · exact absurd (hle a ha b hother) (Nat.not_le.mpr (hcross a hm b hb))
      · refine (List.mem_erase_of_ne ?_).mpr hm
        rintro rfl
        exact hout ha
    have hcount := (List.subperm_of_subset hsel hsub).length_le
    have hpos := List.length_pos_of_mem hb
    rw [List.length_erase_of_mem hb, hdrop, hlen] at hcount
    omega
  have hsub := List.subperm_of_subset (hnodup.sublist (List.drop_sublist _ _)) hold
  exact (hsub.perm_of_length_le (by rw [hlen, hdrop])).symm

end Selection

namespace Shards

/-- Every key is there once, and the entries are in the order of insertion, the newest first. -/
structure Ordered (s : Shards K V) : Prop where
  once : (s.table.map (·.1)).Nodup
  newest : s.table.Pairwise fun p q => q.2.value.inserted < p.2.value.inserted

/-- How many live entries were inserted later than this one. -/
def later (t : Table K (Stamped V)) (now : Nat) (p : K × Entry (Stamped V)) : Nat :=
  (t.live now).countP fun q => p.2.value.inserted < q.2.value.inserted

theorem lowWater_pos (s : Shards K V) : 0 < s.lowWater := by
  have := s.capacity_pos
  unfold lowWater
  omega

variable {s : Shards K V}

theorem Ordered.sublist (h : s.Ordered) {t : Table K (Stamped V)} (ht : t.Sublist s.table) :
    ({ s with table := t } : Shards K V).Ordered :=
  ⟨h.once.sublist (ht.map _), h.newest.sublist ht⟩

variable [DecidableEq K]

theorem evict_snd (s : Shards K V) (n : Nat) (gone : List (Nat × K)) :
    (s.evict n gone).2 =
      { s with table := s.table.filter fun p => decide (p.1 ∉ gone.map (·.2)) } := by
  induction gone generalizing s n with
  | nil => simp [evict]
  | cons a gone ih =>
    have hrest : ∀ m, ((s.remove a.2).2.evict m gone).2 =
        { s with table := s.table.filter fun p => decide (p.1 ∉ (a :: gone).map (·.2)) } := by
      intro m
      simp only [ih, remove, Table.remove, List.filter_filter, List.map_cons, List.mem_cons,
        not_or, Bool.decide_and, Bool.and_comm]
    unfold evict
    split <;> rename_i hr <;> simpa only [hr] using hrest _

/-- Selected are the oldest ones, whatever partial selection makes of their order. -/
theorem Ordered.evict_select (h : s.Ordered) {select : Selection K} (hs : select.Fair) {n : Nat}
    (hn : n < s.size) (m : Nat) :
    (s.evict m (select n s.ages)).2 = { s with table := s.table.take (s.size - n) } := by
  have hlen : s.ages.length = s.size := List.length_map _
  have hfall : s.ages.Pairwise fun a b => b.1 < a.1 := List.pairwise_map.mpr h.newest
  have hold := hs.perm_drop hfall (hlen ▸ hn)
  rw [hlen] at hold
  have hkeys : ((select n s.ages).map (·.2)).Perm ((s.table.drop (s.size - n)).map (·.1)) := by
    have := hold.map (·.2)
    rwa [ages, ← List.map_drop, List.map_map] at this
  rw [evict_snd, ← filter_notMem_drop (·.1) h.once]
  simp only [hkeys.mem_iff]

/-- Where there is too much, the expired entries go, and then all but the newest ones. -/
theorem Ordered.enforce_snd (h : s.Ordered) {select : Selection K} (hs : select.Fair) (now : Nat) :
    (s.enforce select now).2 = if s.size ≤ s.capacity then s
      else { s with table := (s.table.live now).take s.lowWater } := by
  unfold enforce
  split
  · rfl
  · have hp : (s.purge now).2.Ordered := h.sublist List.filter_sublist
    have hpos := (s.purge now).2.lowWater_pos
    show _ = { (s.purge now).2 with
      table := (s.purge now).2.table.take (s.purge now).2.lowWater }
    match s.purge now, hp, hpos with
    | (n, q), hp, hpos =>
      dsimp only at hp hpos ⊢
      split
      · rename_i hfew
        rw [List.take_of_length_le (Nat.sub_eq_zero_iff_le.mp hfew)]
      · rename_i hmany
        have hlen : q.ages.length = q.size := List.length_map _
        have hlt : q.size - q.lowWater < q.size := by omega
        have hback : q.size - (q.size - q.lowWater) = q.lowWater := by omega
        rw [if_pos (hlen ▸ hlt), hp.evict_select hs hlt, hback]

/-- The entry that is inserted last is in front. -/
theorem Ordered.insert (h : s.Ordered) {now : Nat} (hn : ∀ p ∈ s.table, p.2.value.inserted < now)
    (k : K) (v : V) (ttl : Nat) : (s.insert now k v ttl).Ordered := by
  refine ⟨Table.nodup_put h.once k _, List.pairwise_cons.mpr ⟨fun p hp => ?_, ?_⟩⟩
  · exact hn p (List.mem_filter.mp hp).1
  · exact h.newest.sublist List.filter_sublist

theorem Ordered.put_eq (h : s.Ordered) {select : Selection K} (hs : select.Fair) {now : Nat}
    (hn : ∀ p ∈ s.table, p.2.value.inserted < now) (k : K) (v : V) (ttl : Nat) :
    s.put select now k v ttl = if (s.insert now k v ttl).size ≤ s.capacity
      then s.insert now k v ttl
      else { s with table := ((s.insert now k v ttl).table.live now).take s.lowWater } :=
  (h.insert hn k v ttl).enforce_snd hs now

/-- What is left after an insertion is of what there is then, and not too much. -/
theorem Ordered.exists_put (h : s.Ordered) {select : Selection K} (hs : select.Fair) {now : Nat}
    (hn : ∀ p ∈ s.table, p.2.value.inserted < now) (k : K) (v : V) (ttl : Nat) :
    ∃ t, s.put select now k v ttl = { s with table := t } ∧
      t.Sublist (s.insert now k v ttl).table ∧ t.length ≤ s.capacity := by
  rw [h.put_eq hs hn]
  split
  · rename_i hfits
    exact ⟨_, rfl, .refl _, hfits⟩
  · refine ⟨_, rfl, (List.take_sublist _ _).trans List.filter_sublist, ?_⟩
    exact (List.length_take_le _ _).trans (Nat.sub_le _ _)

theorem Ordered.put_table (h : s.Ordered) {select : Selection K} (hs : select.Fair) {now : Nat}
    (hn : ∀ p ∈ s.table, p.2.value.inserted < now) (k : K) (v : V) (ttl : Nat) :
    let all := s.table.put k (.ofLifetime now ⟨v, now⟩ ttl)
    (s.put select now k v ttl).table = if all.length ≤ s.capacity then all
      else all.filter fun p => !p.2.isExpired now && decide (later all now p < s.lowWater) := by
  intro all
  have hall : ({ s with table := all } : Shards K V).Ordered := h.insert hn k v ttl
  have htake := take_eq_filter_countP (fun p : K × Entry (Stamped V) => p.2.value.inserted)
    (hall.newest.sublist (List.filter_sublist (p := fun p => !p.2.isExpired now))) s.lowWater
  rw [h.put_eq hs hn, apply_ite table]
  refine if_congr Iff.rfl rfl ?_
  refine htake.trans ?_
  rw [List.filter_filter]
  exact List.filter_congr fun p _ => Bool.and_comm _ _

end Shards

end SocksChain.Store
