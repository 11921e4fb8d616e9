import SocksChain.Proofs.Store.Selection

/-!
What a store that forgets by age drops, over time. It answers, event by event, as the store that
keeps its entries in the order of insertion, and drops what is expired and the oldest ones only when
it would hold too much.
-/

namespace SocksChain.Store

open History (Event)

variable {K V W : Type}

namespace Table

/-- The same table with other values. -/
def mapValues (f : V → W) (t : Table K V) : Table K W :=
  t.map fun p => (p.1, ⟨f p.2.value, p.2.expires⟩)

theorem live_mapValues (f : V → W) (t : Table K V) (now : Nat) :
    (t.mapValues f).live now = (t.live now).mapValues f := List.filter_map

variable [DecidableEq K]

theorem lookup?_mapValues (f : V → W) (t : Table K V) (k : K) :
    (t.mapValues f).lookup? k = (t.lookup? k).map fun e => ⟨f e.value, e.expires⟩ := by
  simp only [lookup?, mapValues, List.find?_map, Option.map_map]
  rfl

theorem lookup?_of_mem {t : Table K V} (h : (t.map (·.1)).Nodup) {p : K × Entry V} (hp : p ∈ t) :
    t.lookup? p.1 = some p.2 := by
  induction t with
  | nil => cases hp
  | cons q t ih =>
    obtain ⟨hq, ht⟩ := List.nodup_cons.mp h
    rcases List.mem_cons.mp hp with rfl | hp
    · simp [lookup?]
    · have hne : q.1 ≠ p.1 := fun he => hq (List.mem_map.mpr ⟨p, hp, he.symm⟩)
      simpa [lookup?, hne] using ih ht hp

/-- What is alive is not under a key whose entry is expired. -/
theorem ne_of_isExpired {t : Table K V} (h : (t.map (·.1)).Nodup) {k : K} {e : Entry V} {now : Nat}
    (he : t.lookup? k = some e) (hx : e.isExpired now = true) {p : K × Entry V}
    (hp : p ∈ t.live now) : p.1 ≠ k := by
  rintro rfl
  obtain ⟨hp, hlive⟩ := List.mem_filter.mp hp
  cases he.symm.trans (lookup?_of_mem h hp)
  rw [hx] at hlive
  cases hlive

theorem remove_mapValues (f : V → W) (t : Table K V) (k : K) :
    (t.mapValues f).remove k = (t.remove k).mapValues f := List.filter_map

theorem put_mapValues (f : V → W) (t : Table K V) (k : K) (e : Entry V) :
    (t.mapValues f).put k ⟨f e.value, e.expires⟩ = (t.put k e).mapValues f := by
  rw [put, remove_mapValues]
  rfl

end Table

namespace Shards

/-- The store without the times of insertion. -/
def forget (s : Shards K V) : ByAge K V :=
  { capacity := s.capacity, table := s.table.mapValues (·.value), capacity_pos := s.capacity_pos }

theorem size_forget (s : Shards K V) : s.forget.size = s.size := List.length_map _

end Shards

/-- What a store answers to an event. -/
inductive Answer (V : Type) where
  | nothing
  | stored
  | found (v : Option V)
  | computed (v : V) (inserted : Bool)
  | dropped (n : Nat)
deriving DecidableEq

/-- Whether something was inserted. -/
def Answer.inserts : Answer V → Bool
  | stored => true
  | computed _ inserted => inserted
  | _ => false

variable [DecidableEq K]

def ByAge.serve (now : Nat) (s : ByAge K V) : Event K V → Answer V × ByAge K V
  | .wait _ => (.nothing, s)
  | .get k => (.found ((s.get now k).1.map (·.value)), (s.get now k).2)
  | .entry k v ttl =>
    let ((v, inserted), s) := s.getOrPut now k v ttl
    (.computed v inserted, s)
  | .put k v ttl => (.stored, s.put now k v ttl)
  | .remove k => (.found (s.remove k).1, (s.remove k).2)
  | .purge => (.dropped (s.purge now).1, (s.purge now).2)

namespace Shards

def serve (select : Nat → Selection K) (now : Nat) (s : Shards K V) :
    Event K V → Answer V × Shards K V
  | .wait _ => (.nothing, s)
  | .get k => (.found (s.get now k).1, (s.get now k).2)
  | .entry k v ttl =>
    let ((v, inserted), s) := s.getOrPut (select now) now k v ttl
    (.computed v inserted, s)
  | .put k v ttl => (.stored, s.put (select now) now k v ttl)
  | .remove k => (.found (s.remove k).1, (s.remove k).2)
  | .purge => (.dropped (s.purge now).1, (s.purge now).2)

variable {s : Shards K V} {select : Nat → Selection K} {now : Nat}

theorem lookup?_forget (s : Shards K V) (k : K) : s.forget.table.lookup? k =
    (s.table.lookup? k).map fun e => ⟨e.value.value, e.expires⟩ :=
  Table.lookup?_mapValues Stamped.value s.table k

theorem forget_remove (s : Shards K V) (k : K) :
    s.forget.remove k = (s.remove k).map id forget := by
  unfold ByAge.remove
  rw [lookup?_forget, Option.map_map]
  refine congrArg (Prod.mk _) (ByAge.ext rfl ?_)
  exact Table.remove_mapValues Stamped.value s.table k

omit [DecidableEq K] in
theorem live_forget (s : Shards K V) (now : Nat) :
    s.forget.table.live now = (s.purge now).2.forget.table :=
  Table.live_mapValues Stamped.value s.table now

omit [DecidableEq K] in
theorem forget_purge (s : Shards K V) (now : Nat) :
    s.forget.purge now = (s.purge now).map id forget := by
  unfold ByAge.purge
  rw [live_forget]
  refine Prod.ext ?_ rfl
  exact congrArg₂ (· - ·) s.size_forget (s.purge now).2.size_forget

theorem forget_get (s : Shards K V) (now : Nat) (k : K) :
    (s.forget.get now k).map (·.map (·.value)) id = (s.get now k).map id forget := by
  unfold ByAge.get get
  rw [lookup?_forget]
  match s.table.lookup? k with
  | none => rfl
  | some e =>
    have hsame : (⟨e.value.value, e.expires⟩ : Entry V).isExpired now = e.isExpired now := rfl
    dsimp only [Option.map_some]
    rw [hsame]
    split
    · refine congrArg (Prod.mk none) (ByAge.ext rfl ?_)
      exact Table.remove_mapValues Stamped.value s.table k
    · rfl

theorem put_forget (s : Shards K V) (now : Nat) (k : K) (v : V) (ttl : Nat) :
    s.forget.table.put k (.ofLifetime now v ttl) = (s.insert now k v ttl).forget.table :=
  Table.put_mapValues Stamped.value s.table k (.ofLifetime now ⟨v, now⟩ ttl)

theorem forget_put (h : s.Ordered) (hs : (select now).Fair)
    (hn : ∀ p ∈ s.table, p.2.value.inserted < now) (k : K) (v : V) (ttl : Nat) :
    s.forget.put now k v ttl = (s.put (select now) now k v ttl).forget := by
  have hlen : (s.forget.table.put k (.ofLifetime now v ttl)).length =
      (s.insert now k v ttl).size := by
    rw [put_forget]
    exact size_forget _
  unfold ByAge.put ByAge.bounded
  dsimp only
  rw [h.put_eq hs hn, hlen]
  by_cases hx : (s.insert now k v ttl).size ≤ s.capacity
  · rw [if_pos hx]
    exact (if_pos hx).trans (ByAge.ext rfl (s.put_forget now k v ttl))
  · rw [if_neg hx]
    refine (if_neg hx).trans (ByAge.ext rfl ?_)
    dsimp only
    rw [put_forget, live_forget]
    exact List.map_take.symm

/-- Whether the key has no live entry. -/
def Lacks (s : Shards K V) (now : Nat) (k : K) : Prop :=
  ∀ e, s.table.lookup? k = some e → e.isExpired now = true

theorem Lacks.getOrPut_eq {k : K} (h : s.Lacks now k) (select : Nat → Selection K) (v : V)
    (ttl : Nat) :
    s.getOrPut (select now) now k v ttl = ((v, true), s.put (select now) now k v ttl) := by
  unfold getOrPut
  split
  · rfl
  · rename_i e he
    exact if_pos (h e he)

/-- A live value is there already. -/
theorem getOrPut_of_not_lacks {k : K} (h : ¬ s.Lacks now k) (select : Nat → Selection K) (v : V)
    (ttl : Nat) :
    ∃ e, s.table.lookup? k = some e ∧ e.isExpired now = false ∧
      s.getOrPut (select now) now k v ttl = ((e.value.value, false), s) := by
  unfold Lacks at h
  push Not at h
  obtain ⟨e, he, hx⟩ := h
  refine ⟨e, he, Bool.eq_false_iff.mpr hx, ?_⟩
  unfold getOrPut
  rw [he]
  exact if_neg hx

theorem peek_forget_eq_none_iff {k : K} : s.forget.peek now k = none ↔ s.Lacks now k := by
  unfold ByAge.peek Lacks
  rw [lookup?_forget, Option.filter_eq_none_iff]
  simp [Entry.isExpired]

theorem forget_getOrPut (h : s.Ordered) (hs : (select now).Fair) {k : K}
    (hn : s.Lacks now k → ∀ p ∈ s.table, p.2.value.inserted < now) (v : V) (ttl : Nat) :
    s.forget.getOrPut now k v ttl = (s.getOrPut (select now) now k v ttl).map id forget := by
  unfold ByAge.getOrPut
  by_cases hk : s.Lacks now k
  · rw [hk.getOrPut_eq, peek_forget_eq_none_iff.mpr hk]
    exact congrArg (Prod.mk _) (forget_put h hs (hn hk) k v ttl)
  · obtain ⟨e, he, hx, hget⟩ := getOrPut_of_not_lacks hk select v ttl
    have hlive : (⟨e.value.value, e.expires⟩ : Entry V).isExpired now = false := hx
    rw [hget, ByAge.peek, lookup?_forget, he, Option.map_some, Option.filter_some, hlive]
    rfl

/-- The events that insert something, with what they insert. -/
inductive Stores (s : Shards K V) (now : Nat) : Event K V → K → V → Nat → Prop
  | put (k : K) (v : V) (ttl : Nat) : Stores s now (.put k v ttl) k v ttl
  | entry {k : K} (v : V) (ttl : Nat) : s.Lacks now k → Stores s now (.entry k v ttl) k v ttl

/-- Whatever happens, the answer is that of the store that keeps the order of insertion. -/
theorem forget_serve (h : s.Ordered) (hs : (select now).Fair) (e : Event K V)
    (hn : ∀ k v ttl, s.Stores now e k v ttl → ∀ p ∈ s.table, p.2.value.inserted < now) :
    s.forget.serve now e = (s.serve select now e).map id forget := by
  cases e with
  | wait ms => rfl
  | get k =>
    have hget := s.forget_get now k
    have hfst := congrArg Prod.fst hget
    have hsnd := congrArg Prod.snd hget
    exact congrArg₂ (fun a s => (Answer.found a, s)) hfst hsnd
  | entry k v ttl =>
    have hget := forget_getOrPut h hs (fun hk => hn k v ttl (.entry v ttl hk)) v ttl
    unfold ByAge.serve
    dsimp only
    rw [hget]
    rfl
  | put k v ttl => exact congrArg (Prod.mk _) (forget_put h hs (hn k v ttl (.put k v ttl)) k v ttl)
  | remove k =>
    unfold ByAge.serve
    dsimp only
    rw [forget_remove]
    rfl
  | purge =>
    unfold ByAge.serve
    dsimp only
    rw [forget_purge]
    rfl

/-- An event inserts something, or else drops nothing that is alive but what is to be removed. -/
theorem Ordered.serve_cases (h : s.Ordered) (select : Nat → Selection K) (now : Nat)
    (e : Event K V) :
    (∃ k v ttl, s.Stores now e k v ttl ∧ (s.serve select now e).1.inserts = true ∧
      (s.serve select now e).2 = s.put (select now) now k v ttl) ∨
    ((∀ k v ttl, ¬ s.Stores now e k v ttl) ∧ (s.serve select now e).1.inserts = false ∧
      ∃ t, (s.serve select now e).2 = { s with table := t } ∧ t.Sublist s.table ∧
        ∀ p ∈ s.table, now < p.2.expires → e ≠ .remove p.1 → p ∈ t) := by
  cases e with
  | wait ms => exact .inr ⟨fun _ _ _ h => (by cases h), rfl, _, rfl, .refl _, fun _ hp _ _ => hp⟩
  | get k =>
    refine .inr ⟨fun _ _ _ h => (by cases h), rfl, ?_⟩
    unfold serve get
    dsimp only
    split
    · exact ⟨_, rfl, .refl _, fun _ hp _ _ => hp⟩
    · rename_i x hx
      split
      · rename_i hexp
        refine ⟨_, rfl, List.filter_sublist, fun p hp hlive _ => List.mem_filter.mpr ⟨hp, ?_⟩⟩
        refine decide_eq_true (Table.ne_of_isExpired h.once hx hexp (List.mem_filter.mpr ⟨hp, ?_⟩))
        rw [Entry.isExpired_eq_false.mpr hlive]
        rfl
      · exact ⟨_, rfl, .refl _, fun _ hp _ _ => hp⟩
  | entry k v ttl =>
    by_cases hk : s.Lacks now k
    · have hput := hk.getOrPut_eq select v ttl
      refine .inl ⟨k, v, ttl, .entry v ttl hk, ?_, ?_⟩ <;> simp only [serve, hput, Answer.inserts]
    · obtain ⟨x, hx, hlive, hget⟩ := getOrPut_of_not_lacks hk select v ttl
      refine .inr ⟨?_, ?_, s.table, ?_, .refl _, fun _ hp _ _ => hp⟩
      · rintro _ _ _ ⟨⟩
        contradiction
      · simp only [serve, hget, Answer.inserts]
      · simp only [serve, hget]
  | put k v ttl => exact .inl ⟨k, v, ttl, .put k v ttl, rfl, rfl⟩
  | remove k =>
    refine .inr ⟨fun _ _ _ h => (by cases h), rfl, _, rfl, List.filter_sublist, fun p hp _ hk => ?_⟩
    refine List.mem_filter.mpr ⟨hp, decide_eq_true ?_⟩
    rintro rfl
    exact hk rfl
  | purge =>
    refine .inr ⟨fun _ _ _ h => (by cases h), rfl, _, rfl, List.filter_sublist, fun p hp hlive _ => ?_⟩
    refine List.mem_filter.mpr ⟨hp, ?_⟩
    rw [Entry.isExpired_eq_false.mpr hlive]
    rfl

end Shards

/-- How long an event takes. -/
def History.Event.duration : Event K V → Nat
  | .wait ms => ms
  | _ => 0

/-- A store over time: what it has answered, and when something was inserted. -/
structure Diary (S V : Type) where
  store : S
  now : Nat := 0
  answers : List (Answer V) := []
  /-- The last time comes first. -/
  births : List Nat := []

namespace Diary

variable {S : Type} {serve : Nat → S → Event K V → Answer V × S}

omit [DecidableEq K]

def step (serve : Nat → S → Event K V → Answer V × S) (d : Diary S V) (e : Event K V) :
    Diary S V where
  store := (serve d.now d.store e).2
  now := d.now + e.duration
  answers := d.answers ++ [(serve d.now d.store e).1]
  births := if (serve d.now d.store e).1.inserts then d.now :: d.births else d.births

def run (serve : Nat → S → Event K V → Answer V × S) (d : Diary S V) (events : List (Event K V)) :
    Diary S V := events.foldl (step serve) d

theorem run_concat (d : Diary S V) (events : List (Event K V)) (e : Event K V) :
    d.run serve (events ++ [e]) = (d.run serve events).step serve e := by
  rw [run, List.foldl_append]
  rfl

theorem births_suffix_step (d : Diary S V) (e : Event K V) :
    d.births <:+ (d.step serve e).births := by
  unfold step
  dsimp only
  split
  · exact List.suffix_cons _ _
  · exact List.suffix_rfl

/-- A diary of a store whose entries were all inserted at a time that is noted. -/
structure Dated (d : Diary (Shards K V) V) (n : Nat) : Prop where
  ordered : d.store.Ordered
  born : ∀ p ∈ d.store.table, p.2.value.inserted ∈ d.births
  past : ∀ t ∈ d.births, t ≤ d.now
  full : d.store.size ≤ n
  capacity : d.store.capacity = n

theorem Dated.ofCapacity (n : Nat) :
    ({ store := .ofCapacity n } : Diary (Shards K V) V).Dated (max n 1) where
  ordered := ⟨List.nodup_nil, .nil⟩
  born := nofun
  past := nofun
  full := Nat.zero_le _
  capacity := rfl

section

variable [DecidableEq K] {d : Diary (Shards K V) V} {d' : Diary (ByAge K V) V} {n : Nat}
  {select : Nat → Selection K} {e : Event K V}

/-- Where no two insertions have one time, nothing is as new as what is inserted. -/
theorem Dated.fresh (h : d.Dated n) (hb : (d.step (Shards.serve select) e).births.Nodup)
    {k : K} {v : V} {ttl : Nat} (hk : d.store.Stores d.now e k v ttl) :
    ∀ p ∈ d.store.table, p.2.value.inserted < d.now := by
  rcases h.ordered.serve_cases select d.now e with ⟨k, v, ttl, -, hi, -⟩ | ⟨hno, -⟩
  · have hbirths : (d.step (Shards.serve select) e).births = d.now :: d.births := if_pos hi
    rw [hbirths, List.nodup_cons] at hb
    intro p hp
    have hborn := h.born p hp
    refine Nat.lt_of_le_of_ne (h.past _ hborn) fun he => hb.1 ?_
    rwa [← he]
  · exact absurd hk (hno k v ttl)

omit [DecidableEq K] in
theorem Dated.of_sublist {s : Shards K V} {t : Table K (Stamped V)} (ho : s.Ordered)
    (hd : d.store = { s with table := t }) (ht : t.Sublist s.table)
    (hb : ∀ p ∈ s.table, p.2.value.inserted ∈ d.births) (hp : ∀ t ∈ d.births, t ≤ d.now)
    (hf : t.length ≤ s.capacity) : d.Dated s.capacity := by
  refine ⟨?_, ?_, hp, ?_, ?_⟩ <;> rw [hd]
  · exact ho.sublist ht
  · exact fun p hp => hb p (ht.subset hp)
  · exact hf

theorem Dated.step (h : d.Dated n) (hs : ∀ now, (select now).Fair)
    (hb : (d.step (Shards.serve select) e).births.Nodup) :
    (d.step (Shards.serve select) e).Dated n := by
  have hpast : ∀ t ∈ d.births, t ≤ d.now + e.duration := fun t ht =>
    Nat.le_add_right_of_le (h.past t ht)
  rw [← h.capacity]
  rcases h.ordered.serve_cases select d.now e with
    ⟨k, v, ttl, hk, hi, hput⟩ | ⟨-, hi, t, ht, hsub, -⟩
  · have hbirths : (d.step (Shards.serve select) e).births = d.now :: d.births := if_pos hi
    have hfresh := h.fresh hb hk
    obtain ⟨t, ht, hsub, hlen⟩ := h.ordered.exists_put (hs d.now) hfresh k v ttl
    refine .of_sublist (s := d.store.insert d.now k v ttl) (h.ordered.insert hfresh k v ttl)
      (hput.trans ht) hsub ?_ ?_ hlen
    · rw [hbirths]
      intro p hp
      rcases Table.mem_of_mem_put hp with rfl | ⟨hp, -⟩
      · exact List.mem_cons_self
      · exact List.mem_cons_of_mem _ (h.born p hp)
    · rw [hbirths]
      exact List.forall_mem_cons.mpr ⟨Nat.le_add_right _ _, hpast⟩
  · have hbirths : (d.step (Shards.serve select) e).births = d.births :=
      if_neg (by rw [hi]; exact Bool.false_ne_true)
    refine .of_sublist h.ordered ht hsub ?_ ?_ ?_
    · rw [hbirths]
      exact h.born
    · rw [hbirths]
      exact hpast
    · exact hsub.length_le.trans (h.full.trans (Nat.le_of_eq h.capacity.symm))

/-- A diary of the store whose entries stand in no order, and one of the store that keeps the order
of insertion, of the same events and with the same answers. -/
structure Agrees (d : Diary (Shards K V) V) (d' : Diary (ByAge K V) V) : Prop where
  store : d'.store = d.store.forget
  now : d'.now = d.now
  answers : d'.answers = d.answers

theorem Agrees.step (h : d.Agrees d') (hd : d.Dated n) (hs : ∀ now, (select now).Fair)
    (hb : (d.step (Shards.serve select) e).births.Nodup) :
    (d.step (Shards.serve select) e).Agrees (d'.step ByAge.serve e) := by
  have hserve : d'.store.serve d'.now e = (d.store.serve select d.now e).map id Shards.forget := by
    rw [h.store, h.now]
    exact Shards.forget_serve hd.ordered (hs _) e fun k v ttl hk => hd.fresh hb hk
  unfold Diary.step
  refine ⟨?_, ?_, ?_⟩ <;> dsimp only
  · rw [hserve]
    rfl
  · rw [h.now]
  · rw [hserve, h.answers]
    rfl

end

end Diary

/-- A store for so many entries after some events. -/
def Shards.after (select : Nat → Selection K) (n : Nat) (events : List (Event K V)) :
    Diary (Shards K V) V :=
  ({ store := .ofCapacity n } : Diary (Shards K V) V).run (serve select) events

/-- The same events in a store that keeps the order of insertion. -/
def ByAge.after (n : Nat) (events : List (Event K V)) : Diary (ByAge K V) V :=
  ({ store := .ofCapacity n } : Diary (ByAge K V) V).run serve events

namespace Shards

variable {select : Nat → Selection K} {n : Nat} {s : Shards K V} {now : Nat}

theorem after_concat (events : List (Event K V)) (e : Event K V) :
    after select n (events ++ [e]) = (after select n events).step (serve select) e :=
  Diary.run_concat _ _ _

theorem dated_after (hs : ∀ now, (select now).Fair) (events : List (Event K V))
    (hb : (after select n events).births.Nodup) :
    (after select n events).Dated (max n 1) ∧
      (after select n events).Agrees (ByAge.after n events) := by
  induction events using List.reverseRecOn with
  | nil => exact ⟨.ofCapacity n, ⟨rfl, rfl, rfl⟩⟩
  | append_singleton events e ih =>
    have hrun : ByAge.after n (events ++ [e]) = (ByAge.after n events).step ByAge.serve e :=
      Diary.run_concat _ _ _
    rw [after_concat] at hb
    rw [after_concat, hrun]
    obtain ⟨hd, ha⟩ := ih (hb.sublist (Diary.births_suffix_step _ e).sublist)
    exact ⟨hd.step hs hb, ha.step hd hs hb⟩

/-- What is inserted is there at once. -/
theorem Ordered.get_put_self (h : s.Ordered) (hs : (select now).Fair)
    (hn : ∀ p ∈ s.table, p.2.value.inserted < now) (k : K) (v : V) {ttl : Nat} (ht : 0 < ttl) :
    ((s.put (select now) now k v ttl).get now k).1 = some v := by
  have hget := congrArg Prod.fst ((s.put (select now) now k v ttl).forget_get now k)
  simp only [Prod.map_fst, id_eq] at hget
  rw [← hget, ← forget_put h hs hn, ByAge.get_fst, ByAge.peek_put_self _ _ _ _ ht]
  rfl

/-- **What goes and what stays.** Let no two insertions be made at one time. Whatever partial
selection makes of the order of the entries, the store answers as the one that keeps the order of
insertion, and never holds too many. An insertion for which there is room drops nothing. Any other
insertion drops what is expired, and of what is alive all but the entries that were inserted last,
down to the low-water mark; the one just inserted is among those that stay, if it is to live at all.
Nothing else drops what is alive, unless it is what is to be removed. -/
theorem eviction_is_exact (n : Nat) (hs : ∀ now, (select now).Fair) (events : List (Event K V))
    (e : Event K V) (hb : (after select n (events ++ [e])).births.Nodup) :
    let c := max n 1
    let m := c - c / 8
    let d := after select n events
    let d' := after select n (events ++ [e])
    let list := ByAge.after n (events ++ [e])
    (d'.answers = list.answers ∧ d'.store.forget = list.store) ∧
    d'.store.size ≤ c ∧
    (∀ k v ttl, d.store.Stores d.now e k v ttl →
      let all := d.store.table.put k (.ofLifetime d.now ⟨v, d.now⟩ ttl)
      (all.length ≤ c → d'.store.table = all) ∧
      (c < all.length → d'.store.table =
        all.filter fun p => !p.2.isExpired d.now && decide (later all d.now p < m)) ∧
      (0 < ttl → (d'.store.get d.now k).1 = some v)) ∧
    ((∀ k v ttl, ¬ d.store.Stores d.now e k v ttl) → d'.store.table.Sublist d.store.table ∧
      ∀ p ∈ d.store.table, d.now < p.2.expires → e ≠ .remove p.1 → p ∈ d'.store.table) := by
  intro c m d d' list
  have hstep : d' = d.step (serve select) e := after_concat events e
  obtain ⟨hd', ha⟩ := dated_after hs (events ++ [e]) hb
  have hbirths : (d.step (serve select) e).births.Nodup := hstep ▸ hb
  obtain ⟨hd, -⟩ := dated_after hs events (hbirths.sublist (Diary.births_suffix_step d e).sublist)
  have hstore : d'.store = (d.store.serve select d.now e).2 := by rw [hstep]; rfl
  refine ⟨⟨ha.answers.symm, ha.store.symm⟩, hd'.full, ?_, ?_⟩
  · intro k v ttl hk all
    have hfresh := hd.fresh hbirths hk
    have hput : d'.store = d.store.put (select d.now) d.now k v ttl := by
      rw [hstore]
      cases hk with
      | put => rfl
      | entry _ _ hl => exact congrArg Prod.snd (hl.getOrPut_eq select v ttl)
    have htable := hd.ordered.put_table (hs d.now) hfresh k v ttl
    have hm : d.store.lowWater = m := by rw [lowWater, hd.capacity]
    rw [hd.capacity, hm] at htable
    rw [hput]
    refine ⟨fun hfits => htable.trans (if_pos hfits), fun hmany => ?_, fun ht => ?_⟩
    · exact htable.trans (if_neg (Nat.not_le.mpr hmany))
    · exact hd.ordered.get_put_self (hs d.now) hfresh k v ht
  · intro hno
    rcases hd.ordered.serve_cases select d.now e with
      ⟨k, v, ttl, hk, -⟩ | ⟨-, -, t, ht, hsub, hkeep⟩
    · exact absurd hk (hno k v ttl)
    · rw [hstore, ht]
      exact ⟨hsub, hkeep⟩

/-- Fills a store for eight entries. The first one is expired at the end, and the second one has
been overwritten. -/
def fillingEight : List (Event Nat String) :=
  [.put 0 "x" 5, .wait 1] ++ [1, 2, 3, 4, 5, 6, 7].flatMap (fun k => [.put k "a" 100, .wait 1]) ++
    [.put 1 "b" 100, .wait 1]

/-- What is expired goes, and the key that was inserted first and not overwritten. -/
theorem ninth_entry_drops_two :
    let before := after (fun _ => .oldestFirst) 8 fillingEight
    let after := after (fun _ => .oldestFirst) 8 (fillingEight ++ [.put 8 "c" 100])
    after.births.Nodup ∧ before.store.table.map (·.1) = [1, 7, 6, 5, 4, 3, 2, 0] ∧
      after.store.table.map (·.1) = [8, 1, 7, 6, 5, 4, 3] := by
  intro before after
  have hb : after.births.Nodup := by decide
  obtain ⟨-, -, hstores, -⟩ := eviction_is_exact 8 (fun _ => Selection.fair_oldestFirst)
    fillingEight _ hb
  obtain ⟨-, hmany, -⟩ := hstores 8 "c" 100 (.put 8 "c" 100)
  refine ⟨hb, by decide, ?_⟩
  rw [hmany (by decide)]
  decide

end Shards

end SocksChain.Store
