import Mathlib.Data.Finset.Dedup
import SocksChain.Proofs.Store.Recency

/-!
A registry that has room for all the keys it is ever asked to store. Its hot tier never has to make
room, so that it keeps every entry until the entry expires, or until another one is stored under the
same key.
-/

namespace SocksChain.Store

variable {K V : Type} [DecidableEq K]

namespace Table

variable {t : Table K V} {k l : K} {e : Entry V} {now : Nat}

theorem lookup?_put_of_ne (t : Table K V) (e : Entry V) (h : l ≠ k) :
    (t.put k e).lookup? l = t.lookup? l := by
  have hcons : (t.put k e).lookup? l = (t.remove k).lookup? l := by
    simp [lookup?, put, h.symm]
  rw [hcons, lookup?_remove_of_ne t h]

theorem lookup?_live (h : t.lookup? k = some e) (he : now < e.expires) :
    (t.live now).lookup? k = some e := by
  have hx : e.isExpired now = false := Entry.isExpired_eq_false.mpr he
  induction t with
  | nil => cases h
  | cons p t ih =>
    by_cases hp : p.1 = k
    · have hpe : p.2 = e := by simpa [lookup?, hp] using h
      simp [lookup?, live, hp, hpe, hx]
    · have hrest : (Table.live t now).lookup? k = some e := ih (by simpa [lookup?, hp] using h)
      by_cases hq : p.2.isExpired now = true
      · simpa [lookup?, live, hq] using hrest
      · simpa [lookup?, live, hq, hp] using hrest

theorem nodup_put (h : (t.map (·.1)).Nodup) (k : K) (e : Entry V) :
    ((t.put k e).map (·.1)).Nodup := by
  show (k :: (t.remove k).map (·.1)).Nodup
  rw [List.nodup_cons]
  refine ⟨fun hm => ?_, h.sublist (List.filter_sublist.map _)⟩
  obtain ⟨p, hp, rfl⟩ := List.mem_map.mp hm
  simpa using (List.mem_filter.mp hp).2

theorem length_le_card {s : Finset K} (h : (t.map (·.1)).Nodup) (hs : ∀ p ∈ t, p.1 ∈ s) :
    t.length ≤ s.card := by
  calc t.length
      = (t.map (·.1)).toFinset.card := by rw [List.toFinset_card_of_nodup h, List.length_map]
    _ ≤ s.card := by
      refine Finset.card_le_card fun l hl => ?_
      obtain ⟨p, hp, rfl⟩ := List.mem_map.mp (List.mem_toFinset.mp hl)
      exact hs p hp

end Table

namespace ByAge

@[simp] theorem capacity_put (b : ByAge K V) (now : Nat) (k : K) (v : V) (ttl : Nat) :
    (b.put now k v ttl).capacity = b.capacity := by
  unfold put bounded
  split <;> rfl

@[simp] theorem capacity_get (b : ByAge K V) (now : Nat) (k : K) :
    (b.get now k).2.capacity = b.capacity := by
  unfold get
  split
  · rfl
  · split <;> rfl

/-- A store that holds keys of `s` only, each of them once, and has room for all of `s`. -/
structure Room (b : ByAge K V) (s : Finset K) : Prop where
  once : (b.table.map (·.1)).Nodup
  keys : ∀ p ∈ b.table, p.1 ∈ s
  room : s.card ≤ b.capacity

namespace Room

variable {b : ByAge K V} {s s' : Finset K} {k l : K} {v : V} {e : Entry V} {now ttl : Nat}

omit [DecidableEq K] in
theorem mono (h : b.Room s) (hs : s ⊆ s') (hc : s'.card ≤ b.capacity) : b.Room s' :=
  ⟨h.once, fun p hp => hs (h.keys p hp), hc⟩

omit [DecidableEq K] in
theorem sublist (h : b.Room s) {t : Table K V} (ht : t.Sublist b.table) :
    ({ b with table := t } : ByAge K V).Room s :=
  ⟨h.once.sublist (ht.map _), fun p hp => h.keys p (ht.subset hp), h.room⟩

/-- Nothing has to go for a key that there is room for. -/
theorem put_eq (h : b.Room s) (hk : k ∈ s) (now ttl : Nat) (v : V) :
    b.put now k v ttl = { b with table := b.table.put k (.ofLifetime now v ttl) } ∧
      (b.put now k v ttl).Room s := by
  have hn := Table.nodup_put h.once k (.ofLifetime now v ttl)
  have hs : ∀ p ∈ b.table.put k (.ofLifetime now v ttl), p.1 ∈ s := by
    intro p hp
    rcases Table.mem_of_mem_put hp with rfl | ⟨hm, -⟩
    · exact hk
    · exact h.keys p hm
  have heq : b.put now k v ttl = { b with table := b.table.put k (.ofLifetime now v ttl) } :=
    if_pos ((Table.length_le_card hn hs).trans h.room)
  refine ⟨heq, ?_⟩
  rw [heq]
  exact ⟨hn, hs, h.room⟩

theorem put (h : b.Room s) (hk : k ∈ s) : (b.put now k v ttl).Room s := (h.put_eq hk now ttl v).2

theorem lookup?_put_of_ne (h : b.Room s) (hk : k ∈ s) (hl : l ≠ k) :
    (b.put now k v ttl).table.lookup? l = b.table.lookup? l := by
  rw [(h.put_eq hk now ttl v).1]
  exact Table.lookup?_put_of_ne _ _ hl

theorem get (h : b.Room s) (now : Nat) (l : K) : (b.get now l).2.Room s := by
  unfold ByAge.get
  split
  · exact h
  · split
    · exact h.sublist List.filter_sublist
    · exact h

end Room

/-- An entry that is alive is not dropped, whatever one looks for. -/
theorem lookup?_get {b : ByAge K V} {k : K} {e : Entry V} {now : Nat}
    (h : b.table.lookup? k = some e) (he : now < e.expires) (l : K) :
    (b.get now l).2.table.lookup? k = some e := by
  unfold get
  split
  · exact h
  · rename_i x hx
    split
    · rename_i hexp
      have hk : k ≠ l := by
        rintro rfl
        cases h.symm.trans hx
        exact absurd hexp (by rw [Entry.isExpired_eq_false.mpr he]; exact Bool.false_ne_true)
      rw [Table.lookup?_remove_of_ne _ hk]
      exact h
    · exact h

theorem peek_of_lookup? {b : ByAge K V} {k : K} {e : Entry V} {now : Nat}
    (h : b.table.lookup? k = some e) (he : now < e.expires) : b.peek now k = some e := by
  rw [peek, h, Entry.filter_live, Entry.isExpired_eq_false.mpr he]
  rfl

end ByAge

namespace Registry

/-- Where the hot tier does not have a key, looking for it drops what is expired of it, and puts
back what the cold tier has. -/
theorem get_hot_of_none {r : Registry K V} {now : Nat} {k : K} (h : r.hot.peek now k = none) :
    (r.get now k).2.hot = match r.coldLive? now k with
      | some e => (r.hot.get now k).2.put now k e.value (min (e.remaining now) r.policy.defaultTtl)
      | none => (r.hot.get now k).2 := by
  rw [← ByAge.get_fst] at h
  unfold get
  match hg : r.hot.get now k with
  | (some x, hot) =>
    rw [hg] at h
    cases h
  | (none, hot) =>
    have hf := getCold_fst { r with hot := hot } now k
    have hh := getCold_hot { r with hot := hot } now k
    have ht := (getCold_tier { r with hot := hot } now k).1
    have hc : ({ r with hot := hot } : Registry K V).coldLive? now k = r.coldLive? now k := rfl
    rw [← hc, ← hf]
    dsimp only
    match hr : ({ r with hot := hot } : Registry K V).getCold now k with
    | (some e, r') =>
      rw [hr] at hh ht
      dsimp only at hh ht ⊢
      rw [← hh, ← ht]
      rfl
    | (none, r') =>
      rw [hr] at hh
      exact hh

theorem get_hot_of_some {r : Registry K V} {now : Nat} {k : K} {e : Entry V}
    (h : r.hot.peek now k = some e) : (r.get now k).2.hot = (r.hot.get now k).2 := by
  rw [← ByAge.get_fst] at h
  unfold get
  match hg : r.hot.get now k with
  | (some x, hot) => rfl
  | (none, hot) =>
    rw [hg] at h
    cases h

theorem policy_get (r : Registry K V) (now : Nat) (k : K) : (r.get now k).2.policy = r.policy := by
  match hp : r.hot.peek now k with
  | some e => exact congrArg Prod.fst (get_of_hot hp).1
  | none => exact congrArg Prod.fst (get_of_none hp).1

@[simp] theorem capacity_get (r : Registry K V) (now : Nat) (k : K) :
    (r.get now k).2.hot.capacity = r.hot.capacity := by
  match hp : r.hot.peek now k with
  | some e => rw [get_hot_of_some hp, ByAge.capacity_get]
  | none =>
    rw [get_hot_of_none hp]
    split
    · rw [ByAge.capacity_put, ByAge.capacity_get]
    · rw [ByAge.capacity_get]

@[simp] theorem capacity_put (r : Registry K V) (now : Nat) (k : K) (v : V) (ttl : Nat) :
    (r.put now k v ttl).hot.capacity = r.hot.capacity := ByAge.capacity_put _ _ _ _ _

/-- A registry that holds keys of `s` only, and has room for all of them in its hot tier. -/
structure Room (r : Registry K V) (s : Finset K) : Prop where
  hot : r.hot.Room s
  all : r.All fun k _ => k ∈ s

namespace Room

variable {r : Registry K V} {s s' : Finset K} {k l : K} {v : V} {e : Entry V} {now ttl : Nat}

omit [DecidableEq K] in
theorem ofPolicy (p : Policy) (hs : s.card ≤ max p.hotCapacity 1) :
    (Registry.ofPolicy p : Registry K V).Room s :=
  ⟨⟨List.nodup_nil, nofun, hs⟩, .ofPolicy p⟩

omit [DecidableEq K] in
theorem mono (h : r.Room s) (hs : s ⊆ s') (hc : s'.card ≤ r.hot.capacity) : r.Room s' :=
  ⟨h.hot.mono hs hc, h.all.mono fun _ _ hk => hs hk⟩

theorem put (h : r.Room s) (hk : k ∈ s) : (r.put now k v ttl).Room s :=
  ⟨h.hot.put hk, h.all.put hk fun _ => hk⟩

omit [DecidableEq K] in
theorem purge (h : r.Room s) (now : Nat) : (r.purge now).2.Room s :=
  ⟨h.hot.sublist List.filter_sublist, h.all.purge now⟩

/-- Nothing is found but under keys of `s`. -/
theorem live?_eq_none (h : r.Room s) (hk : k ∉ s) (now : Nat) : r.live? now k = none := by
  match hv : r.live? now k with
  | none => rfl
  | some v =>
    obtain ⟨e, he, -⟩ := h.all.of_live? hv
    exact absurd he hk

theorem get (h : r.Room s) (now : Nat) (l : K) : (r.get now l).2.Room s := by
  refine ⟨?_, h.all.get (fun _ _ _ he _ => he) now l⟩
  match hp : r.hot.peek now l with
  | some e =>
    rw [get_hot_of_some hp]
    exact h.hot.get now l
  | none =>
    rw [get_hot_of_none hp]
    split
    · rename_i e he
      exact (h.hot.get now l).put (h.all.of_coldLive? he).1
    · exact h.hot.get now l

/-- What is found in the hot tier stays there, whatever one looks for. -/
theorem lookup?_get (h : r.Room s) (hk : r.hot.table.lookup? k = some e) (he : now < e.expires)
    (l : K) : (r.get now l).2.hot.table.lookup? k = some e := by
  have hget := ByAge.lookup?_get hk he l
  match hp : r.hot.peek now l with
  | some x =>
    rw [get_hot_of_some hp]
    exact hget
  | none =>
    have hkl : k ≠ l := by
      rintro rfl
      rw [ByAge.peek_of_lookup? hk he] at hp
      cases hp
    rw [get_hot_of_none hp]
    split
    · rename_i x hx
      rw [(h.hot.get now l).lookup?_put_of_ne (h.all.of_coldLive? hx).1 hkl]
      exact hget
    · exact hget

/-- One value stored under two keys is found under both, and everything else is as it was. -/
theorem put_put (h : r.Room s) (hk : k ∈ s) (hl : l ∈ s) (hkl : k ≠ l) (ht : 0 < ttl) (now : Nat)
    (v : V) : ((r.put now k v ttl).put now l v ttl).Room s ∧
      ((r.put now k v ttl).put now l v ttl).hot.table.lookup? k = some ⟨v, now + ttl⟩ ∧
      ∀ m, m ≠ k → m ≠ l → ((r.put now k v ttl).put now l v ttl).hot.table.lookup? m =
        r.hot.table.lookup? m := by
  have hput : (r.put now k v ttl).Room s := h.put hk
  have hother : ∀ m, m ≠ l → ((r.put now k v ttl).put now l v ttl).hot.table.lookup? m =
      (r.put now k v ttl).hot.table.lookup? m := fun m hm => hput.hot.lookup?_put_of_ne hl hm
  refine ⟨hput.put hl, ?_, fun m hmk hml => ?_⟩
  · rw [hother k hkl]
    exact ByAge.lookup?_put_self _ _ _ _ ht
  · rw [hother m hml]
    exact h.hot.lookup?_put_of_ne hk hmk

end Room

theorem live?_of_lookup? {r : Registry K V} {k : K} {e : Entry V} {now : Nat}
    (h : r.hot.table.lookup? k = some e) (he : now < e.expires) :
    r.live? now k = some e.value := by
  rw [live?, ByAge.peek_of_lookup? h he]

end Registry

end SocksChain.Store
