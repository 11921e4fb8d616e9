import SocksChain.Proofs.Store.Capacity
import SocksChain.Proofs.Store.Sweeping

/-!
Where the entries of a registry without a cold tier go. Every entry that was opened is still there,
was removed, was dropped by a sweep, was dropped by a lookup that found it expired, or had to make
room for another one. Only the sweeps are counted as evictions; so the counter makes up for all that
is missing exactly if nothing went in the last two ways.
-/

namespace SocksChain.Store

open History (Event)

variable {K V : Type}

namespace Table

variable [DecidableEq K] {t : Table K V}

theorem length_remove (h : (t.map (·.1)).Nodup) (k : K) :
    (t.remove k).length + (t.lookup? k).isSome.toNat = t.length := by
  induction t with
  | nil => rfl
  | cons p t ih =>
    obtain ⟨hp, ht⟩ := List.nodup_cons.mp h
    rw [remove_cons]
    by_cases hk : p.1 = k
    · -- Nothing else is under the key of the first entry.
      have hrest : Table.remove t k = t := List.filter_eq_self.mpr fun q hq =>
        decide_eq_true fun he : q.1 = k => hp (List.mem_map.mpr ⟨q, hq, he.trans hk.symm⟩)
      have hfound : (Table.lookup? (p :: t) k).isSome = true := by simp [lookup?, hk]
      rw [if_pos hk, hrest, hfound]
      rfl
    · have hfound : Table.lookup? (p :: t) k = Table.lookup? t k := by simp [lookup?, hk]
      have hlen := ih ht
      rw [if_neg hk, hfound, List.length_cons, List.length_cons]
      omega

/-- A table grows by an entry under a new key only. -/
theorem length_put (h : (t.map (·.1)).Nodup) (k : K) (e : Entry V) :
    (t.put k e).length = t.length + (t.lookup? k).isNone.toNat := by
  have hlen := length_remove h k
  rw [put, List.length_cons]
  cases hk : t.lookup? k with
  | none =>
    rw [hk] at hlen
    exact congrArg (· + 1) hlen
  | some x =>
    rw [hk] at hlen
    exact hlen

end Table

namespace ByAge

/-- How many entries have to go, with what is expired among them, from a store that holds too
much. -/
def excess (s : ByAge K V) (now : Nat) : Nat :=
  if s.size ≤ s.capacity then 0 else s.size - min (s.table.live now).length s.lowWater

theorem size_bounded_add_excess (s : ByAge K V) (now : Nat) :
    (s.bounded now).size + s.excess now = s.size := by
  have hlive : (s.table.live now).length ≤ s.size := s.table.length_live_le now
  unfold bounded excess
  by_cases hfits : s.size ≤ s.capacity
  · have hlen : s.table.length ≤ s.capacity := hfits
    rw [if_pos hlen, if_pos hfits, Nat.add_zero]
  · have hlen : ¬ s.table.length ≤ s.capacity := hfits
    rw [if_neg hlen, if_neg hfits]
    simp only [size, List.length_take] at hlive ⊢
    omega

/-- A store that holds too much loses at least one entry. -/
theorem excess_eq_zero_iff (s : ByAge K V) (now : Nat) :
    s.excess now = 0 ↔ s.size ≤ s.capacity := by
  have hlow : s.lowWater ≤ s.capacity := Nat.sub_le _ _
  unfold excess
  split
  · simp [*]
  · omega

end ByAge

namespace Registry

variable [DecidableEq K]

theorem counts_getCold (r : Registry K V) (now : Nat) (k : K) :
    (r.getCold now k).2.counts = r.counts := by
  unfold getCold
  split <;> rfl

/-- Only a sweep is counted as evicting. -/
theorem evictions_get (r : Registry K V) (now : Nat) (k : K) :
    (r.get now k).2.counts.evictions = r.counts.evictions := by
  unfold get
  match r.hot.get now k with
  | (some e, hot) => rfl
  | (none, hot) =>
    have hcold := congrArg Counts.evictions (counts_getCold { r with hot := hot } now k)
    dsimp only
    split <;> rename_i hc <;> rw [hc] at hcold <;> exact hcold

theorem evictions_entry (r : Registry K V) (now : Nat) (k : K) (v : V) (ttl : Nat) :
    (r.entry now k v ttl).2.counts.evictions = r.counts.evictions := by
  unfold entry
  match r.hot.peek now k with
  | some e => rfl
  | none =>
    have hcold := congrArg Counts.evictions (r.counts_getCold now k)
    dsimp only
    split <;> rename_i hc <;> rw [hc] at hcold <;> exact hcold

omit [DecidableEq K] in
theorem evictions_purge_of_no_cold {r : Registry K V} (h : r.cold = none) (now : Nat) :
    (r.purge now).2.counts.evictions = r.counts.evictions + (r.hot.purge now).1 := by
  unfold purge
  rw [h]
  rfl

end Registry

namespace History

variable [DecidableEq K]

/-- The entry under a key of the hot tier, live or not. -/
def held? (h : History K V) (k : K) : Option (Entry V) := h.registry.hot.table.lookup? k

/-- The hot tier with one more entry, before anything has to go for it. -/
def brimming (h : History K V) (k : K) (v : V) (ttl : Nat) : ByAge K V :=
  { h.registry.hot with table := h.registry.hot.table.put k (.ofLifetime h.now v ttl) }

/-- How many entries an event opens: one, if it stores something where nothing was. -/
def opened (h : History K V) : Event K V → Nat
  | .put k _ _ => (h.held? k).isNone.toNat
  | .entry k v ttl =>
    ((h.registry.entry h.now k v ttl).1.inserted && (h.held? k).isNone).toNat
  | _ => 0

/-- How many entries an event removes and gives back. -/
def removed (h : History K V) : Event K V → Nat
  | .remove k => (h.registry.remove k).1.isSome.toNat
  | _ => 0

/-- How many entries an event drops that no sweep has found: an expired one that is looked for, and
those that have to go for another one. -/
def forgotten (h : History K V) : Event K V → Nat
  | .get k => ((h.held? k).any (·.isExpired h.now)).toNat
  | .put k v ttl => (h.brimming k v ttl).excess h.now
  | .entry k v ttl =>
    if (h.registry.entry h.now k v ttl).1.inserted then (h.brimming k v ttl).excess h.now else 0
  | _ => 0

/-- What the events of a run come to, each counted as it finds the registry. -/
def total (count : History K V → Event K V → Nat) (h : History K V) : List (Event K V) → Nat
  | [] => 0
  | e :: events => count h e + (h.step e).total count events

/-- An event that drops an entry without a sweep: it looks for a key whose entry is expired, or it
stores something under a new key where there is no room left. -/
def Forgets (h : History K V) : Event K V → Prop
  | .get k => ∃ e, h.held? k = some e ∧ e.isExpired h.now = true
  | .put k _ _ | .entry k _ _ =>
    h.held? k = none ∧ h.registry.hot.capacity ≤ h.registry.size
  | _ => False

variable {h : History K V} {n : Nat}

namespace Untiered

theorem inserted_eq (hu : h.Untiered n) (k : K) (v : V) (ttl : Nat) :
    (h.registry.entry h.now k v ttl).1.inserted = (h.registry.hot.peek h.now k).isNone := by
  rw [Registry.entry_fst, Registry.live?_of_no_cold hu.cold, Option.isNone_map]

theorem size_brimming (hu : h.Untiered n) (k : K) (v : V) (ttl : Nat) :
    (h.brimming k v ttl).size = h.registry.size + (h.held? k).isNone.toNat :=
  Table.length_put hu.once k _

/-- What is put in is there, or something has gone for it. -/
theorem size_put (hu : h.Untiered n) (k : K) (v : V) (ttl : Nat) :
    (h.registry.hot.put h.now k v ttl).size + (h.brimming k v ttl).excess h.now =
      h.registry.size + (h.held? k).isNone.toNat :=
  ((h.brimming k v ttl).size_bounded_add_excess h.now).trans (hu.size_brimming k v ttl)

theorem size_get (hu : h.Untiered n) (k : K) :
    (h.registry.hot.get h.now k).2.size + ((h.held? k).any (·.isExpired h.now)).toNat =
      h.registry.size := by
  have hlen := Table.length_remove hu.once k
  unfold ByAge.get held?
  match he : h.registry.hot.table.lookup? k with
  | none => rfl
  | some e =>
    rw [he] at hlen
    dsimp only [Option.any_some]
    cases e.isExpired h.now with
    | false => rfl
    | true => exact hlen

/-- **One event.** What an event opens is there after it, or stands beside what it removes, what it
counts as evicted and what it drops without counting. -/
theorem step_balance (hu : h.Untiered n) (e : Event K V) :
    (h.step e).registry.size + (h.step e).registry.counts.evictions + h.removed e +
        h.forgotten e =
      h.registry.size + h.registry.counts.evictions + h.opened e := by
  cases e with
  | wait ms => rfl
  | get k =>
    have hsize := hu.size_get k
    have hhot := (Registry.get_of_no_cold hu.cold h.now k).1
    have hcount := h.registry.evictions_get h.now k
    simp only [History.step, Registry.size, hhot, hcount, removed, forgotten, opened] at hsize ⊢
    omega
  | entry k v ttl =>
    have hsize := hu.size_put k v ttl
    have hins := hu.inserted_eq k v ttl
    have hhot := (Registry.entry_of_no_cold hu.cold h.now k v ttl).1
    have hcount := h.registry.evictions_entry h.now k v ttl
    simp only [History.step, Registry.size, hhot, hcount, removed, forgotten, opened, hins] at hsize ⊢
    cases h.registry.hot.peek h.now k with
    | some e => rfl
    | none =>
      simp only [Option.isSome_none, Option.isNone_none, Bool.false_eq_true, if_false, if_true,
        Bool.true_and]
      omega
  | put k v ttl =>
    have hsize := hu.size_put k v ttl
    have hhot : (h.step (.put k v ttl)).registry.size =
        (h.registry.hot.put h.now k v ttl).size := rfl
    have hcount : (h.step (.put k v ttl)).registry.counts.evictions =
        h.registry.counts.evictions := rfl
    simp only [hhot, hcount, removed, forgotten, opened]
    omega
  | remove k =>
    have hlen := Table.length_remove hu.once k
    have hfst : (h.registry.remove k).1 = (h.held? k).map (·.value) := by
      unfold Registry.remove
      rw [hu.cold]
      rfl
    simp only [History.step, Registry.remove_of_no_cold hu.cold, removed, hfst, Option.isSome_map,
      forgotten, opened, Registry.size, ByAge.size, ByAge.remove, held?]
    omega
  | purge =>
    have hhot := (Registry.purge_of_no_cold hu.cold h.now).1
    have hcount := Registry.evictions_purge_of_no_cold hu.cold h.now
    have hle := h.registry.hot.table.length_live_le h.now
    simp only [History.step, Registry.size, hhot, hcount, removed, forgotten, opened, ByAge.size,
      ByAge.purge]
    omega

theorem run_balance (hu : h.Untiered n) (events : List (Event K V)) :
    (h.run events).registry.size + (h.run events).registry.counts.evictions +
        h.total removed events + h.total forgotten events =
      h.registry.size + h.registry.counts.evictions + h.total opened events := by
  induction events generalizing h with
  | nil => rfl
  | cons e events ih =>
    have hstep := hu.step_balance e
    have hrun : (h.run (e :: events)) = (h.step e).run events := rfl
    have hrest := ih (hu.step e)
    rw [hrun]
    simp only [total]
    omega

end Untiered

theorem fits_step {p : Policy} (hf : h.registry.Fits p) (e : Event K V) :
    (h.step e).registry.Fits p := by
  cases e with
  | wait ms => exact hf
  | get k => exact hf.get _ _
  | entry k v ttl => exact hf.entry _ _ _ _
  | put k v ttl => exact hf.put _ _ _ _
  | remove k => exact hf.remove _
  | purge => exact hf.purge _

theorem fits_run {p : Policy} (hf : h.registry.Fits p) (events : List (Event K V)) :
    (h.run events).registry.Fits p := by
  induction events generalizing h with
  | nil => exact hf
  | cons e events ih => exact ih (fits_step hf e)

/-- Something has to go for an entry exactly if its key is new and there is no room left. -/
theorem Untiered.excess_brimming_eq_zero_iff {p : Policy} (hu : h.Untiered n)
    (hf : h.registry.Fits p) (k : K) (v : V) (ttl : Nat) :
    (h.brimming k v ttl).excess h.now = 0 ↔
      ¬ (h.held? k = none ∧ h.registry.hot.capacity ≤ h.registry.size) := by
  have hcap : (h.brimming k v ttl).capacity = h.registry.hot.capacity := rfl
  have hfull : h.registry.size ≤ h.registry.hot.capacity :=
    hf.hot.size.trans_eq hf.hot.capacity.symm
  rw [ByAge.excess_eq_zero_iff, hu.size_brimming, hcap]
  cases h.held? k with
  | none =>
    simp only [Option.isNone_none, Bool.toNat_true, true_and]
    omega
  | some e => simpa using hfull

theorem Untiered.forgotten_eq_zero_iff {p : Policy} (hu : h.Untiered n)
    (hf : h.registry.Fits p) (e : Event K V) : h.forgotten e = 0 ↔ ¬ h.Forgets e := by
  cases e with
  | get k =>
    simp only [forgotten, Forgets]
    cases h.held? k with
    | none => simp
    | some e => cases he : e.isExpired h.now <;> simp [he]
  | put k v ttl => exact hu.excess_brimming_eq_zero_iff hf k v ttl
  | entry k v ttl =>
    have hexcess := hu.excess_brimming_eq_zero_iff hf k v ttl
    simp only [forgotten, Forgets, hu.inserted_eq]
    cases hp : h.registry.hot.peek h.now k with
    | none => simpa using hexcess
    | some e =>
      -- What is found alive is held.
      have hheld : h.held? k ≠ none := by
        intro hn
        rw [held?] at hn
        rw [ByAge.peek, hn] at hp
        cases hp
      simp [hheld]
  | _ => exact iff_of_true rfl id

/-- A run comes to nothing exactly if none of its events does. -/
theorem total_eq_zero_iff (count : History K V → Event K V → Nat) (h : History K V)
    (events : List (Event K V)) :
    h.total count events = 0 ↔ ∀ a e, a ++ [e] <+: events → count (h.run a) e = 0 := by
  induction events generalizing h with
  | nil =>
    refine iff_of_true rfl fun a e ha => ?_
    have hnil := List.prefix_nil.mp ha
    simp at hnil
  | cons e events ih =>
    rw [total, Nat.add_eq_zero_iff, ih]
    constructor
    · rintro ⟨hfirst, hrest⟩ a e' ha
      cases a with
      | nil =>
        obtain ⟨rfl, -⟩ := List.cons_prefix_cons.mp ha
        exact hfirst
      | cons e'' a =>
        obtain ⟨rfl, ha'⟩ := List.cons_prefix_cons.mp ha
        exact hrest a e' ha'
    · intro hall
      refine ⟨hall [] e (List.prefix_append [e] events), fun a e' ha => ?_⟩
      exact hall (e :: a) e' (List.cons_prefix_cons.mpr ⟨rfl, ha⟩)

/-- **Where the entries go.** In every run of a registry without a cold tier, the entries that were
opened are those that are there at the end, those that were removed, those that are counted as
evicted, and those that were dropped without a sweep. So opened entries are balanced by the other
three exactly if no lookup of the run finds an expired entry, and nothing is stored under a new key
where there is no room left. -/
theorem evictions_balance_iff (p : Policy) (hp : p.coldCapacity = none)
    (events : List (Event K V)) :
    let h : History K V := ofPolicy p
    let last := (h.run events).registry
    h.total opened events =
        last.size + h.total removed events + last.counts.evictions + h.total forgotten events ∧
      (h.total opened events =
          last.size + h.total removed events + last.counts.evictions ↔
        ∀ a e, a ++ [e] <+: events → ¬ (h.run a).Forgets e) := by
  intro h last
  have hu : h.Untiered (max p.hotCapacity 1) := .ofPolicy hp
  have hzero : h.total forgotten events = 0 ↔
      ∀ a e, a ++ [e] <+: events → ¬ (h.run a).Forgets e := by
    have hevent (a : List (Event K V)) (e : Event K V) :=
      (hu.run a).forgotten_eq_zero_iff (fits_run (.ofPolicy p) a) e
    simp only [total_eq_zero_iff, hevent]
  have hrun : last.size + last.counts.evictions + h.total removed events +
      h.total forgotten events = 0 + 0 + h.total opened events := hu.run_balance events
  have hall : h.total opened events =
      last.size + h.total removed events + last.counts.evictions + h.total forgotten events := by
    omega
  refine ⟨hall, ?_⟩
  rw [← hzero]
  omega

/-- One of two entries is removed, and the other one is swept. -/
theorem swept_and_removed_balance :
    let p : Policy := { hotCapacity := 4 }
    let h : History String String := ofPolicy p
    let events := [.put "a" "x" 10, .entry "b" "y" 10, .wait 20, .entry "a" "z" 10, .purge,
      .remove "a", .get "b"]
    let last := (h.run events).registry
    p.coldCapacity = none ∧ h.total opened events = 2 ∧
      (last.size, h.total removed events, last.counts.evictions) = (0, 1, 1) ∧
      ∀ a e, a ++ [e] <+: events → ¬ (h.run a).Forgets e := by
  intro p h events last
  exact ⟨rfl, by decide, by decide, (evictions_balance_iff p rfl events).2.mp (by decide)⟩

/-- A store for one entry is given two, and the second one is looked for too late: neither of them
is there at the end, and nothing was removed or counted as evicted. -/
theorem dropped_entries_are_not_counted :
    let h : History String String := ofPolicy { hotCapacity := 1 }
    let events := [.put "a" "x" 10000, .put "b" "y" 100, .wait 200, .get "b"]
    let last := (h.run events).registry
    h.registry.cold = none ∧ h.total opened events = 2 ∧
      (last.size, h.total removed events, last.counts.evictions) = (0, 0, 0) ∧
      ¬ h.total opened events =
        last.size + h.total removed events + last.counts.evictions := by
  decide

end History

end SocksChain.Store
