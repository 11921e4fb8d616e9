import SocksChain.Store.Registry

/-!
The contents of a registry: what holds of all its entries, and the live value of a key. No
operation makes up an entry. It keeps those there were, promotes one with a shorter or a new
deadline, or stores the one it was given.
-/

namespace SocksChain.Store

variable {K V : Type}

theorem Entry.filter_live (e : Entry V) (now : Nat) :
    (some e).filter (fun e => !e.isExpired now) = if e.isExpired now then none else some e := by
  rw [Option.filter_some]
  cases e.isExpired now <;> rfl

namespace Table

variable [DecidableEq K]

theorem mem_of_mem_put {t : Table K V} {k : K} {e : Entry V} {p : K × Entry V}
    (h : p ∈ t.put k e) : p = (k, e) ∨ p ∈ t ∧ p.1 ≠ k := by
  rcases List.mem_cons.mp h with h | h
  · exact .inl h
  · obtain ⟨hm, hk⟩ := List.mem_filter.mp h
    exact .inr ⟨hm, of_decide_eq_true hk⟩

theorem mem_of_lookup? {t : Table K V} {k : K} {e : Entry V} (h : t.lookup? k = some e) :
    (k, e) ∈ t := by
  unfold lookup? at h
  obtain ⟨p, hp, rfl⟩ := Option.map_eq_some_iff.mp h
  have hk := List.find?_some hp
  have hm := List.mem_of_find?_eq_some hp
  rw [decide_eq_true_eq] at hk
  rw [← hk]
  exact hm

/-- What is found alive is in the table. -/
theorem mem_of_filter_lookup? {t : Table K V} {now : Nat} {k : K} {e : Entry V}
    (h : (t.lookup? k).filter (fun e => !e.isExpired now) = some e) :
    (k, e) ∈ t ∧ now < e.expires := by
  obtain ⟨hl, he⟩ := Option.filter_eq_some_iff.mp h
  refine ⟨mem_of_lookup? hl, ?_⟩
  simpa [Entry.isExpired] using he

end Table

namespace ByAge

variable {s : ByAge K V} {now ttl : Nat} {k : K} {v : V} {p : K × Entry V}

theorem mem_of_mem_bounded (h : p ∈ (s.bounded now).table) : p ∈ s.table := by
  unfold bounded at h
  split at h
  · exact h
  · exact (List.mem_filter.mp (List.mem_of_mem_take h)).1

variable [DecidableEq K]

theorem mem_of_mem_put (h : p ∈ (s.put now k v ttl).table) :
    p = (k, .ofLifetime now v ttl) ∨ p ∈ s.table ∧ p.1 ≠ k :=
  Table.mem_of_mem_put (mem_of_mem_bounded h)

theorem mem_of_mem_get (h : p ∈ (s.get now k).2.table) : p ∈ s.table := by
  unfold get at h
  split at h
  · exact h
  · split at h
    · exact (List.mem_filter.mp h).1
    · exact h

theorem get_fst (s : ByAge K V) (now : Nat) (k : K) : (s.get now k).1 = s.peek now k := by
  unfold get peek
  match s.table.lookup? k with
  | none => rfl
  | some e =>
    rw [e.filter_live now]
    show (if e.isExpired now then _ else _ : Option (Entry V) × _).1 = _
    split <;> rfl

theorem mem_of_peek {e : Entry V} (h : s.peek now k = some e) :
    (k, e) ∈ s.table ∧ now < e.expires :=
  Table.mem_of_filter_lookup? h

/-- What is put in to last is there, whatever has to make room for it. -/
theorem lookup?_put_self (s : ByAge K V) (now : Nat) (k : K) (v : V) (h : 0 < ttl) :
    (s.put now k v ttl).table.lookup? k = some (.ofLifetime now v ttl) := by
  have he : (Entry.ofLifetime now v ttl).isExpired now = false := by
    unfold Entry.isExpired Entry.ofLifetime
    rw [decide_eq_false_iff_not]
    exact Nat.not_le.mpr (Nat.lt_add_of_pos_right h)
  unfold put bounded
  split
  · exact Table.lookup?_put_self _ _ _
  · have hlow := lowWater_pos { s with table := s.table.put k (.ofLifetime now v ttl) }
    obtain ⟨n, hn⟩ := Nat.exists_eq_add_of_lt hlow
    dsimp only
    rw [hn, Nat.zero_add, Table.live, Table.put,
      List.filter_cons_of_pos (by rw [he]; rfl), List.take_succ_cons]
    simp [Table.lookup?]

theorem peek_put_of_lt (s : ByAge K V) {now later : Nat} (k : K) (v : V) (hn : now ≤ later)
    (hl : later < now + ttl) :
    (s.put now k v ttl).peek later k = some (.ofLifetime now v ttl) := by
  have he : (Entry.ofLifetime now v ttl).isExpired later = false := by
    unfold Entry.isExpired Entry.ofLifetime
    rw [decide_eq_false_iff_not]
    exact Nat.not_le.mpr hl
  unfold peek
  rw [lookup?_put_self _ _ _ _ (by omega), Option.filter_some, he]
  rfl

theorem peek_put_self (s : ByAge K V) (now : Nat) (k : K) (v : V) (h : 0 < ttl) :
    (s.put now k v ttl).peek now k = some (.ofLifetime now v ttl) :=
  s.peek_put_of_lt k v (Nat.le_refl _) (Nat.lt_add_of_pos_right h)

end ByAge

namespace ByUse

variable [DecidableEq K] {s : ByUse K V} {now ttl : Nat} {k : K} {v : V} {p : K × Entry V}

/-- The live entry of a key, which is not used by it. -/
def peek (s : ByUse K V) (now : Nat) (k : K) : Option (Entry V) :=
  (s.table.lookup? k).filter fun e => !e.isExpired now

theorem mem_of_mem_put (h : p ∈ (s.put now k v ttl).table) :
    p = (k, .ofLifetime now v ttl) ∨ p ∈ s.table ∧ p.1 ≠ k :=
  Table.mem_of_mem_put (List.mem_of_mem_take h)

theorem mem_of_mem_get (h : p ∈ (s.get now k).2.table) : p ∈ s.table := by
  unfold get at h
  split at h
  · exact h
  · rename_i e he
    split at h
    · exact (List.mem_filter.mp h).1
    · rcases Table.mem_of_mem_put h with rfl | h
      · exact Table.mem_of_lookup? he
      · exact h.1

theorem get_fst (s : ByUse K V) (now : Nat) (k : K) : (s.get now k).1 = s.peek now k := by
  unfold get peek
  match s.table.lookup? k with
  | none => rfl
  | some e =>
    rw [e.filter_live now]
    show (if e.isExpired now then _ else _ : Option (Entry V) × _).1 = _
    split <;> rfl

theorem mem_of_peek {e : Entry V} (h : s.peek now k = some e) :
    (k, e) ∈ s.table ∧ now < e.expires :=
  Table.mem_of_filter_lookup? h

end ByUse

namespace Registry

/-- Whether `P` holds of every entry in either tier. -/
structure All (P : K → Entry V → Prop) (r : Registry K V) : Prop where
  hot : ∀ p ∈ r.hot.table, P p.1 p.2
  cold : ∀ c, r.cold = some c → ∀ p ∈ c.table, P p.1 p.2

section

variable {P Q : K → Entry V → Prop} {r : Registry K V}

theorem All.mono (h : r.All P) (hPQ : ∀ k e, P k e → Q k e) : r.All Q :=
  ⟨fun p hp => hPQ _ _ (h.hot p hp), fun c hc p hp => hPQ _ _ (h.cold c hc p hp)⟩

theorem All.ofPolicy (p : Policy) : (Registry.ofPolicy p : Registry K V).All P := by
  refine ⟨fun q hq => ?_, fun c hc q hq => ?_⟩
  · cases hq
  · obtain ⟨n, -, rfl⟩ := Option.map_eq_some_iff.mp hc
    cases hq

theorem All.purge (h : r.All P) (now : Nat) : (r.purge now).2.All P := by
  refine ⟨fun p hp => h.hot p (List.mem_filter.mp hp).1, ?_⟩
  unfold Registry.purge
  match hc : r.cold with
  | none =>
    intro c he
    cases he
  | some c =>
    intro c' he p hp
    cases he
    exact h.cold c hc p (List.mem_filter.mp hp).1

end

variable [DecidableEq K]

/-- The live entry of a key in the cold tier. -/
def coldLive? (r : Registry K V) (now : Nat) (k : K) : Option (Entry V) :=
  r.cold.bind fun c => c.peek now k

/-- The live value of a key. -/
def live? (r : Registry K V) (now : Nat) (k : K) : Option V :=
  match r.hot.peek now k with
  | some e => some e.value
  | none => (r.coldLive? now k).map (·.value)

variable {P : K → Entry V → Prop} {r : Registry K V} {now ttl : Nat} {k : K} {v : V}

theorem getCold_fst (r : Registry K V) (now : Nat) (k : K) :
    (r.getCold now k).1 = r.coldLive? now k := by
  unfold getCold coldLive?
  match r.cold with
  | none => rfl
  | some c => exact c.get_fst now k

theorem getCold_hot (r : Registry K V) (now : Nat) (k : K) : (r.getCold now k).2.hot = r.hot := by
  unfold getCold
  split <;> rfl

theorem getCold_tier (r : Registry K V) (now : Nat) (k : K) :
    (r.getCold now k).2.policy = r.policy ∧
      (r.getCold now k).2.cold.isSome = r.cold.isSome := by
  unfold getCold
  split
  · exact ⟨rfl, rfl⟩
  · rename_i c hc
    exact ⟨rfl, by rw [hc]; rfl⟩

theorem get_fst (r : Registry K V) (now : Nat) (k : K) : (r.get now k).1 = r.live? now k := by
  unfold get live?
  rw [← r.hot.get_fst now k]
  match r.hot.get now k with
  | (some e, hot) => rfl
  | (none, hot) =>
    have hc := getCold_fst { r with hot := hot } now k
    dsimp only
    rw [show r.coldLive? now k = ({ r with hot := hot } : Registry K V).coldLive? now k from rfl,
      ← hc]
    match ({ r with hot := hot } : Registry K V).getCold now k with
    | (some e, r') => rfl
    | (none, r') => rfl

/-- An entry is computed exactly if there is no live value, and then it is the given one. -/
theorem entry_fst (r : Registry K V) (now : Nat) (k : K) (v : V) (ttl : Nat) :
    (r.entry now k v ttl).1 = ⟨(r.live? now k).getD v, (r.live? now k).isNone⟩ := by
  unfold entry live?
  match r.hot.peek now k with
  | some e => rfl
  | none =>
    dsimp only
    rw [← getCold_fst]
    match r.getCold now k with
    | (some e, r') => rfl
    | (none, r') => rfl

theorem live?_put_self (r : Registry K V) (now : Nat) (k : K) (v : V) (h : 0 < ttl) :
    (r.put now k v ttl).live? now k = some v := by
  have hp : (r.put now k v ttl).hot.peek now k = some (.ofLifetime now v ttl) :=
    ByAge.peek_put_self _ _ _ _ h
  unfold live?
  rw [hp]
  rfl

/-- What `entry` gives out is what is found from then on. -/
theorem live?_entry (r : Registry K V) (now : Nat) (k : K) (v : V) (h : 0 < ttl) :
    (r.entry now k v ttl).2.live? now k = some (r.entry now k v ttl).1.value := by
  have hp : ∃ e, (r.entry now k v ttl).2.hot.peek now k = some e ∧
      e.value = (r.entry now k v ttl).1.value := by
    unfold entry
    match hh : r.hot.peek now k with
    | some e => exact ⟨e, hh, rfl⟩
    | none =>
      dsimp only
      match r.getCold now k with
      | (some e, r') => exact ⟨_, ByAge.peek_put_self _ _ _ _ h, rfl⟩
      | (none, r') => exact ⟨_, ByAge.peek_put_self _ _ _ _ h, rfl⟩
  obtain ⟨e, he, hv⟩ := hp
  unfold live?
  rw [he, ← hv]

/-- Where there is no live value, what is stored is found until it expires. -/
theorem live?_entry_of_lt (hn : r.live? now k = none) (v : V) {later : Nat} (hle : now ≤ later)
    (hlt : later < now + ttl) : (r.entry now k v ttl).2.live? later k = some v := by
  have hf := r.getCold_fst now k
  unfold live? at hn
  unfold entry
  match hh : r.hot.peek now k with
  | some e =>
    rw [hh] at hn
    cases hn
  | none =>
    rw [hh] at hn
    dsimp only
    match hg : r.getCold now k with
    | (some e, r') =>
      rw [hg] at hf
      rw [← hf] at hn
      cases hn
    | (none, r') =>
      have hp := r'.hot.peek_put_of_lt k v hle hlt
      unfold live? putCold
      rw [hp]
      rfl

theorem live?_entry_of_none (hn : r.live? now k = none) (v : V) (h : 0 < ttl) :
    (r.entry now k v ttl).2.live? now k = some v :=
  live?_entry_of_lt hn v (Nat.le_refl _) (Nat.lt_add_of_pos_right h)

namespace All

theorem of_coldLive? (h : r.All P) {e : Entry V} (he : r.coldLive? now k = some e) :
    P k e ∧ now < e.expires := by
  obtain ⟨c, hc, hp⟩ := Option.bind_eq_some_iff.mp he
  obtain ⟨hm, hlt⟩ := ByUse.mem_of_peek hp
  exact ⟨h.cold c hc _ hm, hlt⟩

theorem of_live? (h : r.All P) (hv : r.live? now k = some v) :
    ∃ e, P k e ∧ e.value = v ∧ now < e.expires := by
  unfold live? at hv
  split at hv
  · rename_i e he
    obtain ⟨hm, hlt⟩ := ByAge.mem_of_peek he
    exact ⟨e, h.hot _ hm, Option.some.inj hv, hlt⟩
  · obtain ⟨e, he, rfl⟩ := Option.map_eq_some_iff.mp hv
    obtain ⟨hP, hlt⟩ := h.of_coldLive? he
    exact ⟨e, hP, rfl, hlt⟩

theorem getCold (h : r.All P) (now : Nat) (k : K) : (r.getCold now k).2.All P := by
  refine ⟨by rw [getCold_hot]; exact h.hot, ?_⟩
  unfold Registry.getCold
  match hc : r.cold with
  | none =>
    intro c he
    rw [hc] at he
    cases he
  | some c =>
    intro c' he p hp
    cases he
    exact h.cold c hc p (ByUse.mem_of_mem_get hp)

theorem putHot (h : r.All P) (now ttl : Nat) (hP : P k ⟨v, now + ttl⟩) :
    ({ r with hot := r.hot.put now k v ttl } : Registry K V).All P := by
  refine ⟨fun p hp => ?_, h.cold⟩
  rcases ByAge.mem_of_mem_put hp with rfl | hp
  · exact hP
  · exact h.hot p hp.1

theorem putCold (h : r.All P) (hP : r.cold.isSome → P k ⟨v, now + max r.policy.coldTtl ttl⟩) :
    (r.putCold now k v ttl).All P := by
  refine ⟨h.hot, fun c hc p hp => ?_⟩
  obtain ⟨c', hc', rfl⟩ := Option.map_eq_some_iff.mp hc
  rcases ByUse.mem_of_mem_put hp with rfl | hp
  · exact hP (by rw [hc']; rfl)
  · exact h.cold c' hc' p hp.1

/-- Storing leaves nothing of a key but what is stored. -/
theorem put_of_ne (h : r.All fun l e => l ≠ k → P l e) (hP : P k ⟨v, now + ttl⟩)
    (hc : r.cold.isSome → P k ⟨v, now + max r.policy.coldTtl ttl⟩) :
    (r.put now k v ttl).All P := by
  refine ⟨fun p hp => ?_, fun c he p hp => ?_⟩
  · rcases ByAge.mem_of_mem_put hp with rfl | ⟨hm, hk⟩
    · exact hP
    · exact h.hot p hm hk
  · obtain ⟨c', hc', rfl⟩ := Option.map_eq_some_iff.mp he
    rcases ByUse.mem_of_mem_put hp with rfl | ⟨hm, hk⟩
    · exact hc (by rw [hc']; rfl)
    · exact h.cold c' hc' p hm hk

theorem put (h : r.All P) (hP : P k ⟨v, now + ttl⟩)
    (hc : r.cold.isSome → P k ⟨v, now + max r.policy.coldTtl ttl⟩) :
    (r.put now k v ttl).All P :=
  put_of_ne (h.mono fun l _ hp (_ : l ≠ k) => hp) hP hc

/-- What is promoted expires no later than what it comes from. -/
theorem get (h : r.All P) (hP : ∀ k e t, P k e → t ≤ e.expires → P k ⟨e.value, t⟩) (now : Nat)
    (k : K) : (r.get now k).2.All P := by
  unfold Registry.get
  have hdrop : ∀ hot, hot = (r.hot.get now k).2 → ({ r with hot := hot } : Registry K V).All P := by
    rintro hot rfl
    exact ⟨fun p hp => h.hot p (ByAge.mem_of_mem_get hp), h.cold⟩
  match hg : r.hot.get now k with
  | (some e, hot) =>
    have h' := hdrop hot (by rw [hg])
    exact ⟨h'.hot, h'.cold⟩
  | (none, hot) =>
    have h' := hdrop hot (by rw [hg])
    have hcold := h'.getCold now k
    have hfst := getCold_fst { r with hot := hot } now k
    dsimp only
    match hc : ({ r with hot := hot } : Registry K V).getCold now k with
    | (none, r') =>
      rw [hc] at hcold
      exact ⟨hcold.hot, hcold.cold⟩
    | (some e, r') =>
      rw [hc] at hcold hfst
      obtain ⟨he, hlt⟩ := h'.of_coldLive? hfst.symm
      have hput := hcold.putHot now (min (e.remaining now) r'.policy.defaultTtl)
        (hP k e _ he (by unfold Entry.remaining; omega))
      exact ⟨hput.hot, hput.cold⟩

/-- What holds of values alone, whatever their deadlines, is kept by `entry`. -/
theorem entry (h : r.All P) (hP : ∀ e t, P k e → P k ⟨e.value, t⟩)
    (hv : r.live? now k = none → ∀ t, P k ⟨v, t⟩) : (r.entry now k v ttl).2.All P := by
  unfold Registry.entry
  unfold live? at hv
  match hh : r.hot.peek now k with
  | some e => exact ⟨h.hot, h.cold⟩
  | none =>
    rw [hh] at hv
    have hcold := h.getCold now k
    have hfst := r.getCold_fst now k
    dsimp only
    match hc : r.getCold now k with
    | (some e, r') =>
      rw [hc] at hcold hfst
      obtain ⟨he, -⟩ := h.of_coldLive? hfst.symm
      have hput := hcold.putHot now ttl (hP e _ he)
      exact ⟨hput.hot, hput.cold⟩
    | (none, r') =>
      rw [hc] at hcold hfst
      have hnew : ∀ t, P k ⟨v, t⟩ := hv (by rw [← hfst]; rfl)
      have hput := hcold.putHot now ttl (hnew _)
      refine All.putCold ⟨hput.hot, hput.cold⟩ fun _ => hnew _

/-- Where there is no live value, `entry` leaves nothing of a key but what it is given. -/
theorem entry_of_none (h : r.All fun l e => l ≠ k → P l e) (hn : r.live? now k = none)
    (hP : P k ⟨v, now + ttl⟩) (hc : r.cold.isSome → P k ⟨v, now + max r.policy.coldTtl ttl⟩) :
    (r.entry now k v ttl).2.All P := by
  unfold Registry.entry
  unfold live? at hn
  match hh : r.hot.peek now k with
  | some e =>
    rw [hh] at hn
    cases hn
  | none =>
    rw [hh] at hn
    have hcold := h.getCold now k
    have hfst := r.getCold_fst now k
    have htier := r.getCold_tier now k
    dsimp only
    match hg : r.getCold now k with
    | (some e, r') =>
      rw [hg] at hfst
      rw [← hfst] at hn
      cases hn
    | (none, r') =>
      rw [hg] at hcold htier
      have hput : (r'.put now k v ttl).All P := by
        refine put_of_ne hcold hP ?_
        rw [htier.1, htier.2]
        exact hc
      exact ⟨hput.hot, hput.cold⟩

theorem remove (h : r.All P) (k : K) : (r.remove k).2.All P := by
  unfold Registry.remove
  match hc : r.cold with
  | none =>
    refine ⟨fun p hp => h.hot p (List.mem_filter.mp hp).1, fun c he => ?_⟩
    cases he
  | some c =>
    refine ⟨fun p hp => h.hot p (List.mem_filter.mp hp).1, fun c' he p hp => ?_⟩
    cases he
    exact h.cold c hc p (List.mem_filter.mp hp).1

end All

end Registry

end SocksChain.Store
