import SocksChain.Proofs.Store.Room

/-!
No tier ever holds more than it is made for, whatever is stored, found, promoted or dropped. So the
keys that a registry maps, live or not, are never more than both its tiers have room for.
-/

namespace SocksChain.Store

variable {K V : Type}

/-- Moving an entry to the front makes a table no longer. -/
theorem Table.length_put_le [DecidableEq K] {t : Table K V} {k : K} {e : Entry V}
    (h : t.lookup? k = some e) (x : Entry V) : (t.put k x).length ≤ t.length := by
  obtain ⟨p, hp, -⟩ := Option.map_eq_some_iff.1 h
  have hk : p.1 = k := by simpa using List.find?_some hp
  have hlt : (t.remove k).length < t.length := by
    refine List.length_filter_lt_length_iff_exists.2 ⟨p, List.mem_of_find?_eq_some hp, ?_⟩
    simp [hk]
  exact hlt

/-- A store that is made for `n` entries and holds no more. -/
structure ByAge.Fits (b : ByAge K V) (n : Nat) : Prop where
  capacity : b.capacity = n
  size : b.table.length ≤ n

namespace ByAge.Fits

variable {b : ByAge K V} {n : Nat}

theorem ofCapacity (n : Nat) : (ofCapacity n : ByAge K V).Fits (max n 1) := ⟨rfl, Nat.zero_le _⟩

theorem sublist (h : b.Fits n) {t : Table K V} (ht : t.Sublist b.table) :
    ({ b with table := t } : ByAge K V).Fits n :=
  ⟨h.capacity, ht.length_le.trans h.size⟩

variable [DecidableEq K]

theorem put (h : b.Fits n) (now : Nat) (k : K) (v : V) (ttl : Nat) : (b.put now k v ttl).Fits n := by
  refine ⟨(b.capacity_put now k v ttl).trans h.capacity, ?_⟩
  have hs := size_bounded_le { b with table := b.table.put k (.ofLifetime now v ttl) } now
  exact hs.trans_eq h.capacity

theorem get (h : b.Fits n) (now : Nat) (k : K) : (b.get now k).2.Fits n := by
  unfold ByAge.get
  split
  · exact h
  · split
    · exact h.sublist List.filter_sublist
    · exact h

end ByAge.Fits

structure ByUse.Fits (c : ByUse K V) (n : Nat) : Prop where
  capacity : c.capacity = n
  size : c.table.length ≤ n

namespace ByUse.Fits

variable {c : ByUse K V} {n : Nat}

theorem ofCapacity (n : Nat) : (ofCapacity n : ByUse K V).Fits (max n 1) := ⟨rfl, Nat.zero_le _⟩

theorem sublist (h : c.Fits n) {t : Table K V} (ht : t.Sublist c.table) :
    ({ c with table := t } : ByUse K V).Fits n :=
  ⟨h.capacity, ht.length_le.trans h.size⟩

variable [DecidableEq K]

theorem put (h : c.Fits n) (now : Nat) (k : K) (v : V) (ttl : Nat) : (c.put now k v ttl).Fits n :=
  ⟨h.capacity, (c.size_put_le now k v ttl).trans_eq h.capacity⟩

theorem get (h : c.Fits n) (now : Nat) (k : K) : (c.get now k).2.Fits n := by
  unfold ByUse.get
  split
  · exact h
  · rename_i e he
    split
    · exact h.sublist List.filter_sublist
    · exact ⟨h.capacity, (Table.length_put_le he e).trans h.size⟩

end ByUse.Fits

/-- How many entries there is room for in both tiers. -/
def Policy.room (p : Policy) : Nat :=
  max p.hotCapacity 1 + (p.coldCapacity.map (max · 1)).getD 0

namespace Registry

/-- Both tiers hold no more than `p` has them hold. -/
structure Fits (r : Registry K V) (p : Policy) : Prop where
  hot : r.hot.Fits (max p.hotCapacity 1)
  cold : ∀ c, r.cold = some c → ∃ n, p.coldCapacity = some n ∧ c.Fits (max n 1)

namespace Fits

variable {r : Registry K V} {p : Policy}

theorem ofPolicy (p : Policy) : (ofPolicy p : Registry K V).Fits p := by
  refine ⟨.ofCapacity _, fun c hc => ?_⟩
  obtain ⟨n, hn, rfl⟩ := Option.map_eq_some_iff.1 hc
  exact ⟨n, hn, .ofCapacity n⟩

theorem mapCold (h : r.Fits p) {r' : Registry K V} {f : ByUse K V → ByUse K V}
    (hhot : r'.hot.Fits (max p.hotCapacity 1)) (hcold : r'.cold = r.cold.map f)
    (hf : ∀ c n, c.Fits n → (f c).Fits n) : r'.Fits p := by
  refine ⟨hhot, fun c' hc' => ?_⟩
  rw [hcold] at hc'
  obtain ⟨c, hc, rfl⟩ := Option.map_eq_some_iff.1 hc'
  obtain ⟨n, hn, hfits⟩ := h.cold c hc
  exact ⟨n, hn, hf c _ hfits⟩

theorem purge (h : r.Fits p) (now : Nat) : (r.purge now).2.Fits p :=
  h.mapCold (h.hot.sublist List.filter_sublist) (r.purge_cold now).2 fun _ _ hc =>
    hc.sublist List.filter_sublist

variable [DecidableEq K]

theorem putHot (h : r.Fits p) (now : Nat) (k : K) (v : V) (ttl : Nat) :
    ({ r with hot := r.hot.put now k v ttl } : Registry K V).Fits p :=
  ⟨h.hot.put now k v ttl, h.cold⟩

theorem putCold (h : r.Fits p) (now : Nat) (k : K) (v : V) (ttl : Nat) :
    (r.putCold now k v ttl).Fits p :=
  h.mapCold h.hot rfl fun _ _ hc => hc.put now k v _

theorem getCold (h : r.Fits p) (now : Nat) (k : K) : (r.getCold now k).2.Fits p := by
  refine h.mapCold ?_ (r.getCold_cold now k) fun _ _ hc => hc.get now k
  rw [getCold_hot]
  exact h.hot

theorem put (h : r.Fits p) (now : Nat) (k : K) (v : V) (ttl : Nat) : (r.put now k v ttl).Fits p :=
  ((h.putCold now k v ttl).putHot now k v ttl)

theorem get (h : r.Fits p) (now : Nat) (k : K) : (r.get now k).2.Fits p := by
  have hget := h.hot.get now k
  unfold Registry.get
  match hg : r.hot.get now k with
  | (some e, hot) =>
    rw [hg] at hget
    exact ⟨hget, h.cold⟩
  | (none, hot) =>
    rw [hg] at hget
    have hdrop : ({ r with hot := hot } : Registry K V).Fits p := ⟨hget, h.cold⟩
    have hcold := hdrop.getCold now k
    dsimp only
    match hc : ({ r with hot := hot } : Registry K V).getCold now k with
    | (none, r') =>
      rw [hc] at hcold
      exact ⟨hcold.hot, hcold.cold⟩
    | (some e, r') =>
      rw [hc] at hcold
      have hput := hcold.putHot now k e.value (min (e.remaining now) r'.policy.defaultTtl)
      exact ⟨hput.hot, hput.cold⟩

theorem entry (h : r.Fits p) (now : Nat) (k : K) (v : V) (ttl : Nat) :
    (r.entry now k v ttl).2.Fits p := by
  have hcold := h.getCold now k
  unfold Registry.entry
  match r.hot.peek now k with
  | some e => exact ⟨h.hot, h.cold⟩
  | none =>
    dsimp only
    match hc : r.getCold now k with
    | (some e, r') =>
      rw [hc] at hcold
      have hput := hcold.putHot now k e.value ttl
      exact ⟨hput.hot, hput.cold⟩
    | (none, r') =>
      rw [hc] at hcold
      have hput := hcold.put now k v ttl
      exact ⟨hput.hot, hput.cold⟩

theorem remove (h : r.Fits p) (k : K) : (r.remove k).2.Fits p := by
  refine h.mapCold ?_ (r.remove_cold k).2 fun _ _ hc => hc.sublist List.filter_sublist
  have hhot : (r.hot.remove k).2.Fits (max p.hotCapacity 1) := h.hot.sublist List.filter_sublist
  unfold Registry.remove
  match r.cold with
  | none => exact hhot
  | some c => exact hhot

end Fits

variable [DecidableEq K]

/-- The keys under which either tier holds something, live or not. -/
def keys (r : Registry K V) : Finset K :=
  ((r.hot.table ++ r.cold.elim [] ByUse.table).map Prod.fst).toFinset

theorem mem_keys_of_live? {r : Registry K V} {now : Nat} {k : K} {v : V}
    (h : r.live? now k = some v) : k ∈ r.keys := by
  have hall : r.All fun l _ => l ∈ r.keys := by
    constructor
    · intro p hp
      exact List.mem_toFinset.2 (List.mem_map_of_mem (List.mem_append_left _ hp))
    · intro c hc p hp
      refine List.mem_toFinset.2 (List.mem_map_of_mem (List.mem_append_right _ ?_))
      rw [hc]
      exact hp
  obtain ⟨e, hk, -⟩ := hall.of_live? h
  exact hk

/-- A registry maps no more keys than it has room for. -/
theorem Fits.card_keys_le {r : Registry K V} {p : Policy} (h : r.Fits p) :
    r.keys.card ≤ p.room := by
  have hcold : (r.cold.elim [] ByUse.table).length ≤ (p.coldCapacity.map (max · 1)).getD 0 := by
    match hc : r.cold with
    | none => exact Nat.zero_le _
    | some c =>
      obtain ⟨n, hn, hfits⟩ := h.cold c hc
      rw [hn]
      exact hfits.size
  calc r.keys.card
      ≤ (r.hot.table ++ r.cold.elim [] ByUse.table).length :=
        (List.toFinset_card_le _).trans_eq (List.length_map _)
    _ = r.hot.table.length + (r.cold.elim [] ByUse.table).length := List.length_append
    _ ≤ p.room := Nat.add_le_add h.hot.size hcold

end Registry

end SocksChain.Store
