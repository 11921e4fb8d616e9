import Mathlib.Data.Finset.Card
import SocksChain.Proofs.Store.Lifetime

/-!
Where an entry stands in a store that forgets by use. Before it there are only keys that were used
after it, each of them once. So it is forgotten only when there are as many of these as the store
holds entries. The same holds of the cold tier of a registry, whatever the registry is asked.
-/

namespace SocksChain.Store

variable {K V : Type} [DecidableEq K]

theorem Table.remove_cons (p : K × Entry V) (t : Table K V) (k : K) :
    Table.remove (p :: t) k = if p.1 = k then t.remove k else p :: t.remove k := by
  by_cases hp : p.1 = k <;> simp [Table.remove, hp]

theorem Entry.isExpired_eq_false {e : Entry V} {now : Nat} :
    e.isExpired now = false ↔ now < e.expires := by
  rw [isExpired, decide_eq_false_iff_not, Nat.not_le]

/-- The first entry of `k` is `e`, and stands behind keys of `s` only, none of them twice. -/
inductive Table.Behind (k : K) (e : Entry V) : Table K V → Finset K → Prop
  | front {t : Table K V} {s : Finset K} : Behind k e ((k, e) :: t) s
  | after {l : K} {x : Entry V} {t : Table K V} {s : Finset K} : l ≠ k → l ∈ s →
      Behind k e t (s.erase l) → Behind k e ((l, x) :: t) s

namespace Table.Behind

variable {k l : K} {e x : Entry V} {t : Table K V} {s s' : Finset K}

theorem mono (h : Behind k e t s) (hs : s ⊆ s') : Behind k e t s' := by
  induction h generalizing s' with
  | front => exact .front
  | after hl hm _ ih => exact .after hl (hs hm) (ih (Finset.erase_subset_erase _ hs))

theorem lookup? (h : Behind k e t s) : t.lookup? k = some e := by
  induction h with
  | front => simp [Table.lookup?]
  | after hl _ _ ih => simpa [Table.lookup?, hl] using ih

theorem take {n : Nat} (h : Behind k e t s) (hn : s.card < n) : Behind k e (t.take n) s := by
  induction h generalizing n with
  | front =>
    obtain ⟨n, rfl⟩ := Nat.exists_eq_add_of_lt hn
    rw [List.take_succ_cons]
    exact .front
  | after hl hm _ ih =>
    have hpos := Finset.card_pos.mpr ⟨_, hm⟩
    obtain ⟨n, rfl⟩ := Nat.exists_eq_add_of_lt hn
    rw [List.take_succ_cons]
    refine .after hl hm (ih ?_)
    rw [Finset.card_erase_of_mem hm]
    omega

/-- Entries that go, other than this one, only bring it to the front. -/
theorem filter (h : Behind k e t s) {q : K × Entry V → Bool} (hq : q (k, e) = true) :
    Behind k e (List.filter q t) s := by
  induction h with
  | front =>
    rw [List.filter_cons_of_pos hq]
    exact .front
  | @after l x _ _ hl hm _ ih =>
    by_cases hx : q (l, x) = true
    · rw [List.filter_cons_of_pos hx]
      exact .after hl hm ih
    · rw [List.filter_cons_of_neg hx]
      exact ih.mono (Finset.erase_subset _ _)

theorem remove (h : Behind k e t s) (hl : l ≠ k) : Behind k e (t.remove l) (s.erase l) := by
  induction h with
  | front =>
    rw [Table.remove_cons, if_neg hl.symm]
    exact .front
  | @after l' x t s hl' hm _ ih =>
    rw [Table.remove_cons]
    by_cases he : l' = l
    · rw [if_pos he]
      rw [he] at ih
      exact ih.mono (Finset.erase_subset _ _)
    · rw [if_neg he]
      refine .after hl' (Finset.mem_erase.mpr ⟨he, hm⟩) ?_
      rw [Finset.erase_right_comm]
      exact ih

/-- The use of another key adds that key to those in front. -/
theorem put (h : Behind k e t s) (hl : l ≠ k) (x : Entry V) :
    Behind k e (t.put l x) (insert l s) := by
  refine .after hl (Finset.mem_insert_self _ _) ((h.remove hl).mono ?_)
  exact Finset.erase_subset_erase _ (Finset.subset_insert _ _)

end Table.Behind

namespace ByUse

/-- A store that keeps `e` under `k`, and has used no keys but those of `s` since it used that. -/
def Keeps (c : ByUse K V) (k : K) (e : Entry V) (s : Finset K) : Prop := c.table.Behind k e s

section Uses

variable {c : ByUse K V} {k l : K} {e : Entry V} {s : Finset K} {now : Nat}

theorem keeps_put_self (c : ByUse K V) (now : Nat) (k : K) (v : V) (ttl : Nat) (s : Finset K) :
    (c.put now k v ttl).Keeps k (.ofLifetime now v ttl) s := by
  have hpos := c.capacity_pos
  unfold Keeps put
  dsimp only
  generalize c.capacity = n at hpos
  cases n with
  | zero => exact absurd hpos (Nat.lt_irrefl 0)
  | succ n => exact .front

namespace Keeps

theorem mono {s' : Finset K} (h : c.Keeps k e s) (hs : s ⊆ s') : c.Keeps k e s' :=
  Table.Behind.mono h hs

theorem peek (h : c.Keeps k e s) (he : now < e.expires) : c.peek now k = some e := by
  have hx := Entry.isExpired_eq_false.mpr he
  rw [ByUse.peek, Table.Behind.lookup? h, Entry.filter_live, hx]
  rfl

theorem put (h : c.Keeps k e s) (hl : l ≠ k) (v : V) (ttl : Nat)
    (hs : (insert l s).card < c.capacity) : (c.put now l v ttl).Keeps k e (insert l s) :=
  (Table.Behind.put h hl _).take hs

/-- Only a key that is found counts as used. -/
theorem get {s' : Finset K} (h : c.Keeps k e s) (he : now < e.expires) (hs : s ⊆ s')
    (hl : l ≠ k → (c.peek now l).isSome → l ∈ s') : (c.get now l).2.Keeps k e s' := by
  by_cases hk : l = k
  · rw [hk]
    have hx := Entry.isExpired_eq_false.mpr he
    unfold ByUse.get
    rw [Table.Behind.lookup? h]
    simp only [hx]
    exact .front
  · unfold ByUse.get
    cases hf : c.table.lookup? l with
    | none => exact h.mono hs
    | some x =>
      dsimp only
      split
      · exact (Table.Behind.remove h hk).mono ((Finset.erase_subset _ _).trans hs)
      · rename_i hx
        have hm : l ∈ s' := by
          refine hl hk ?_
          rw [ByUse.peek, hf, Entry.filter_live, if_neg hx]
          rfl
        exact (Table.Behind.put h hk x).mono (Finset.insert_subset hm hs)

theorem remove (h : c.Keeps k e s) (hl : l ≠ k) : (c.remove l).2.Keeps k e s :=
  (Table.Behind.remove h hl).mono (Finset.erase_subset _ _)

theorem purge (h : c.Keeps k e s) (he : now < e.expires) : (c.purge now).2.Keeps k e s := by
  refine Table.Behind.filter h ?_
  rw [Entry.isExpired_eq_false.mpr he]
  rfl

end Keeps

end Uses

end ByUse

@[simp] theorem ByUse.capacity_get (c : ByUse K V) (now : Nat) (k : K) :
    (c.get now k).2.capacity = c.capacity := by
  unfold get
  split
  · rfl
  · split <;> rfl

namespace Registry

/-- What no use changes of a registry. -/
def shape (r : Registry K V) : Policy × Option Nat := (r.policy, r.cold.map ByUse.capacity)

/-- Whether a key is found, and only in the cold tier. -/
def recalls (r : Registry K V) (now : Nat) (k : K) : Bool :=
  (r.hot.peek now k).isNone && (r.coldLive? now k).isSome

/-- The cold tier, if there is one, keeps `e` under `k`, with no keys but those of `s` before it. -/
def Keeps (r : Registry K V) (k : K) (e : Entry V) (s : Finset K) : Prop :=
  ∀ c, r.cold = some c → c.Keeps k e s

section Operations

variable {r : Registry K V} {now ttl : Nat} {k l : K} {v : V} {e : Entry V} {s s' : Finset K}

theorem getCold_cold (r : Registry K V) (now : Nat) (k : K) :
    (r.getCold now k).2.cold = r.cold.map fun c => (c.get now k).2 := by
  unfold getCold
  match hc : r.cold with
  | none => exact hc
  | some c => rfl

theorem shape_getCold (r : Registry K V) (now : Nat) (k : K) :
    (r.getCold now k).2.shape = r.shape := by
  unfold shape
  rw [(r.getCold_tier now k).1, getCold_cold, Option.map_map]
  congr 2
  funext c
  exact c.capacity_get now k

theorem get_of_hot (h : r.hot.peek now k = some e) :
    (r.get now k).2.shape = r.shape ∧ (r.get now k).2.cold = r.cold := by
  rw [← ByAge.get_fst] at h
  unfold get
  match hg : r.hot.get now k with
  | (none, hot) =>
    rw [hg] at h
    cases h
  | (some x, hot) => exact ⟨rfl, rfl⟩

theorem get_of_none (h : r.hot.peek now k = none) :
    (r.get now k).2.shape = r.shape ∧
      (r.get now k).2.cold = r.cold.map fun c => (c.get now k).2 := by
  rw [← ByAge.get_fst] at h
  unfold get
  match hg : r.hot.get now k with
  | (some x, hot) =>
    rw [hg] at h
    cases h
  | (none, hot) =>
    have hc := getCold_cold { r with hot := hot } now k
    have hs := shape_getCold { r with hot := hot } now k
    dsimp only
    match hr : ({ r with hot := hot } : Registry K V).getCold now k with
    | (some x, r') =>
      rw [hr] at hc hs
      exact ⟨hs, hc⟩
    | (none, r') =>
      rw [hr] at hc hs
      exact ⟨hs, hc⟩

/-- A key that neither tier has is stored in both. -/
theorem entry_of_none (h : r.live? now k = none) : (r.entry now k v ttl).2.shape = r.shape ∧
    (r.entry now k v ttl).2.cold = r.cold.map fun c =>
      (c.get now k).2.put now k v (max r.policy.coldTtl ttl) := by
  unfold live? at h
  unfold entry
  match hh : r.hot.peek now k with
  | some x =>
    rw [hh] at h
    cases h
  | none =>
    rw [hh] at h
    have hf := r.getCold_fst now k
    have hc := r.getCold_cold now k
    have hs := r.shape_getCold now k
    dsimp only
    match hr : r.getCold now k with
    | (some x, r') =>
      rw [hr] at hf
      rw [← hf] at h
      cases h
    | (none, r') =>
      rw [hr] at hc hs
      have hp : r'.policy = r.policy := congrArg Prod.fst hs
      refine ⟨?_, ?_⟩
      · rw [← hs]
        simp only [shape, putCold, Option.map_map]
        rfl
      · dsimp only at hc
        simp only [putCold, hp]
        rw [hc, Option.map_map]
        rfl

theorem shape_put (r : Registry K V) (now : Nat) (k : K) (v : V) (ttl : Nat) :
    (r.put now k v ttl).shape = r.shape := by
  simp only [shape, put, putCold, Option.map_map]
  rfl

theorem remove_cold (r : Registry K V) (k : K) :
    (r.remove k).2.shape = r.shape ∧ (r.remove k).2.cold = r.cold.map fun c => (c.remove k).2 := by
  unfold remove shape
  match r.cold with
  | none => exact ⟨rfl, rfl⟩
  | some c => exact ⟨rfl, rfl⟩

omit [DecidableEq K] in
theorem purge_cold (r : Registry K V) (now : Nat) :
    (r.purge now).2.shape = r.shape ∧
      (r.purge now).2.cold = r.cold.map fun c => (c.purge now).2 := by
  unfold purge shape
  match r.cold with
  | none => exact ⟨rfl, rfl⟩
  | some c => exact ⟨rfl, rfl⟩

/-- What removing leaves has nothing of the key. -/
theorem All.remove_of_ne {P : K → Entry V → Prop} (h : r.All fun l e => l ≠ k → P l e) :
    (r.remove k).2.All P := by
  have hm : ∀ {t : Table K V} {p : K × Entry V}, p ∈ t.remove k → p ∈ t ∧ p.1 ≠ k := by
    intro t p hp
    obtain ⟨hm, hk⟩ := List.mem_filter.mp hp
    exact ⟨hm, of_decide_eq_true hk⟩
  unfold Registry.remove
  match hc : r.cold with
  | none =>
    refine ⟨fun p hp => ?_, nofun⟩
    exact h.hot p (hm hp).1 (hm hp).2
  | some c =>
    refine ⟨fun p hp => h.hot p (hm hp).1 (hm hp).2, fun c' he p hp => ?_⟩
    cases he
    exact h.cold c hc p (hm hp).1 (hm hp).2

end Operations

namespace Keeps

variable {r r' : Registry K V} {now ttl : Nat} {k l : K} {v : V} {e : Entry V} {s s' : Finset K}

/-- What a change of the cold tier alone keeps. -/
theorem of_map {f : ByUse K V → ByUse K V} (h : r.Keeps k e s) (hr : r'.cold = r.cold.map f)
    (hf : ∀ c, r.cold = some c → c.Keeps k e s → (f c).Keeps k e s') : r'.Keeps k e s' := by
  intro c' hc'
  rw [hr] at hc'
  obtain ⟨c, hc, rfl⟩ := Option.map_eq_some_iff.mp hc'
  exact hf c hc (h c hc)

theorem of_eq (h : r.Keeps k e s) (hr : r'.cold = r.cold) (hs : s ⊆ s') : r'.Keeps k e s' :=
  fun c hc => (h c (hr ▸ hc)).mono hs

theorem coldLive? (h : r.Keeps k e s) (hr : r.cold.isSome) (he : now < e.expires) :
    r.coldLive? now k = some e := by
  obtain ⟨c, hc⟩ := Option.isSome_iff_exists.mp hr
  rw [Registry.coldLive?, hc]
  exact (h c hc).peek he

theorem recalls_of_peek {c : ByUse K V} (hh : r.hot.peek now l = none) (hc : r.cold = some c)
    (hp : (c.peek now l).isSome) : r.recalls now l = true := by
  rw [recalls, hh, Registry.coldLive?, hc]
  exact hp

theorem get (h : r.Keeps k e s) (he : now < e.expires) (hs : s ⊆ s')
    (hl : l ≠ k → r.recalls now l = true → l ∈ s') : (r.get now l).2.Keeps k e s' := by
  match hh : r.hot.peek now l with
  | some x => exact h.of_eq (get_of_hot hh).2 hs
  | none =>
    exact h.of_map (get_of_none hh).2 fun c hc hk =>
      hk.get he hs fun hn hp => hl hn (recalls_of_peek hh hc hp)

/-- Asking for a key that is stored already. -/
theorem entry_of_live (h : r.Keeps k e s) (he : now < e.expires) (hs : s ⊆ s')
    (hv : r.live? now l = some v) (hl : l ≠ k → r.recalls now l = true → l ∈ s') (w : V)
    (ttl : Nat) : (r.entry now l w ttl).2.Keeps k e s' := by
  match hh : r.hot.peek now l with
  | some x =>
    rw [entry_of_hot hh]
    exact h.of_eq rfl hs
  | none =>
    rw [live?, hh] at hv
    obtain ⟨x, hx, -⟩ := Option.map_eq_some_iff.mp hv
    rw [entry_of_cold hh hx]
    exact h.of_map (r.getCold_cold now l) fun c hc hk =>
      hk.get he hs fun hn hp => hl hn (recalls_of_peek hh hc hp)

/-- Asking for a key that has to be stored, and is not `k`. -/
theorem entry_of_none (h : r.Keeps k e s) (he : now < e.expires) (hl : l ≠ k)
    (hv : r.live? now l = none) (hs : ∀ c, r.cold = some c → (insert l s).card < c.capacity) :
    (r.entry now l v ttl).2.Keeps k e (insert l s) := by
  refine h.of_map (Registry.entry_of_none hv).2 fun c hc hk => ?_
  refine ByUse.Keeps.put (hk.get he (Finset.Subset.refl s) fun _ hp => ?_) hl v _ ?_
  · have hn : c.peek now l = none := by
      rw [live?] at hv
      cases hh : r.hot.peek now l with
      | some x =>
        rw [hh] at hv
        cases hv
      | none =>
        rw [hh, Option.map_eq_none_iff, Registry.coldLive?, hc] at hv
        exact hv
    rw [hn] at hp
    cases hp
  · rw [ByUse.capacity_get]
    exact hs c hc

theorem put (h : r.Keeps k e s) (hl : l ≠ k)
    (hs : ∀ c, r.cold = some c → (insert l s).card < c.capacity) :
    (r.put now l v ttl).Keeps k e (insert l s) :=
  h.of_map (show (r.put now l v ttl).cold = r.cold.map _ from rfl)
    fun c hc hk => hk.put hl v _ (hs c hc)

theorem remove (h : r.Keeps k e s) (hl : l ≠ k) : (r.remove l).2.Keeps k e s :=
  h.of_map (r.remove_cold l).2 fun _ _ hk => hk.remove hl

theorem purge (h : r.Keeps k e s) (he : now < e.expires) : (r.purge now).2.Keeps k e s :=
  h.of_map (r.purge_cold now).2 fun _ _ hk => hk.purge he

end Keeps

end Registry

end SocksChain.Store
