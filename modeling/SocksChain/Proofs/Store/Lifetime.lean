import SocksChain.Proofs.Store.Contents

/-!
A registry over time, and how long each value was given to live when it was stored. A value that is
looked for comes back from the cold tier for no longer than it has left. A value that is asked for
with a lifetime of its own comes back for that lifetime, and outlives its own if the new one is
longer; that is the only way in which a value is given out too late. To show that it is one, the
value that has come back is looked for again; it is still there, because it was inserted last, and
among entries of one age that one goes last.
-/

namespace SocksChain.Store

/-- How long a registry keeps what is stored for `ttl`. -/
def Policy.lifetime (p : Policy) (ttl : Nat) : Nat :=
  if p.coldCapacity.isSome then max p.coldTtl ttl else ttl

namespace Registry

variable {K V : Type} {r : Registry K V} {now ttl : Nat} {k : K} {v : V}

/-- A registry has a cold tier only if its policy wants one. -/
def Tiered (r : Registry K V) : Prop := r.cold.isSome → r.policy.coldCapacity.isSome

namespace Tiered

theorem ofPolicy (p : Policy) : (Registry.ofPolicy p : Registry K V).Tiered := by
  intro h
  rwa [Registry.ofPolicy, Option.isSome_map] at h

theorem purge (h : r.Tiered) (now : Nat) : (r.purge now).2.Tiered := by
  intro hc
  refine h ?_
  unfold Registry.purge at hc
  match hr : r.cold with
  | none =>
    rw [hr] at hc
    cases hc
  | some c => rfl

variable [DecidableEq K]

theorem getCold (h : r.Tiered) (now : Nat) (k : K) : (r.getCold now k).2.Tiered := by
  unfold Registry.getCold
  split
  · exact h
  · rename_i c hc
    exact fun _ => h (by rw [hc]; rfl)

theorem get (h : r.Tiered) (now : Nat) (k : K) : (r.get now k).2.Tiered := by
  unfold Registry.get
  split
  · exact h
  · rename_i hot _
    have hcold := getCold (r := { r with hot := hot }) h now k
    split <;> rename_i hg <;> rw [hg] at hcold <;> exact hcold

theorem putCold (h : r.Tiered) : (r.putCold now k v ttl).Tiered := by
  intro hc
  refine h ?_
  rwa [Registry.putCold, Option.isSome_map] at hc

theorem put (h : r.Tiered) : (r.put now k v ttl).Tiered := putCold h

theorem entry (h : r.Tiered) : (r.entry now k v ttl).2.Tiered := by
  unfold Registry.entry
  split
  · exact h
  · have hcold := h.getCold now k
    split <;> rename_i hg <;> rw [hg] at hcold
    · exact hcold
    · exact putCold hcold

theorem remove (h : r.Tiered) (k : K) : (r.remove k).2.Tiered := by
  unfold Registry.remove
  dsimp only
  split
  · exact h
  · rename_i c hc
    exact fun _ => h (by rw [hc]; rfl)

end Tiered

variable [DecidableEq K]

/-- A key that the hot tier has is given out as it is there. -/
theorem entry_of_hot {e : Entry V} (h : r.hot.peek now k = some e) :
    r.entry now k v ttl = (⟨e.value, false⟩, r.hit) := by
  unfold entry
  rw [h]

/-- A key that the cold tier alone has comes back into the hot one, for the lifetime asked for. -/
theorem entry_of_cold {e : Entry V} (h : r.hot.peek now k = none)
    (hc : r.coldLive? now k = some e) :
    r.entry now k v ttl = (⟨e.value, false⟩,
      { (r.getCold now k).2 with hot := r.hot.put now k e.value ttl }.hit) := by
  have hg := r.getCold_fst now k
  have hh := r.getCold_hot now k
  rw [hc] at hg
  unfold entry
  rw [h]
  match hr : r.getCold now k with
  | (none, r') =>
    rw [hr] at hg
    cases hg
  | (some e', r') =>
    rw [hr] at hg hh
    cases hg
    simp only at hh ⊢
    rw [hh]

theorem All.entry_of_cold {P : K → Entry V → Prop} (h : r.All P) {e : Entry V}
    (hh : r.hot.peek now k = none) (hc : r.coldLive? now k = some e)
    (hP : P k ⟨e.value, now + ttl⟩) :
    (r.entry now k v ttl).2.All P := by
  rw [Registry.entry_of_cold hh hc]
  have hput := (h.getCold now k).putHot now ttl hP
  rw [getCold_hot] at hput
  exact ⟨hput.hot, hput.cold⟩

end Registry

/-- A registry at some time, and what was last stored under each key, until when. -/
structure History (K V : Type) where
  registry : Registry K V
  now : Nat := 0
  stored : K → Option (Entry V) := fun _ => none

namespace History

inductive Event (K V : Type) where
  | wait (ms : Nat)
  | get (k : K)
  | entry (k : K) (v : V) (ttl : Nat)
  | put (k : K) (v : V) (ttl : Nat)
  | remove (k : K)
  | purge

variable {K V : Type}

def ofPolicy (p : Policy) : History K V := { registry := .ofPolicy p }

variable [DecidableEq K]

/-- What was last stored under each key once `v` has been stored under `k`. -/
def noting (h : History K V) (k : K) (v : V) (ttl : Nat) : K → Option (Entry V) := fun l =>
  if l = k then some (.ofLifetime h.now v (h.registry.policy.lifetime ttl)) else h.stored l

def step (h : History K V) : Event K V → History K V
  | .wait ms => { h with now := h.now + ms }
  | .get k => { h with registry := (h.registry.get h.now k).2 }
  | .entry k v ttl =>
    let (found, registry) := h.registry.entry h.now k v ttl
    { h with registry, stored := if found.inserted then h.noting k v ttl else h.stored }
  | .put k v ttl =>
    { h with registry := h.registry.put h.now k v ttl, stored := h.noting k v ttl }
  | .remove k => { h with registry := (h.registry.remove k).2 }
  | .purge => { h with registry := (h.registry.purge h.now).2 }

def run (h : History K V) (events : List (Event K V)) : History K V := events.foldl step h

/-- However long one waits, nothing is given out from the time on until which it was to live. -/
def Punctual (h : History K V) : Prop :=
  ∀ k x, h.stored k = some x → ∀ t, h.now ≤ t → x.expires ≤ t →
    (h.registry.get t k).1 = none ∧ ∀ v ttl, (h.registry.entry t k v ttl).1.inserted = true

/-- An event that asks for a key which the cold tier alone has, and for longer than it may live. -/
def Overruns (h : History K V) : Event K V → Prop
  | .entry k _ ttl => h.registry.hot.peek h.now k = none ∧ (h.registry.coldLive? h.now k).isSome ∧
      ∃ x, h.stored k = some x ∧ x.expires < h.now + ttl
  | _ => False

/-- An entry that was last stored under its key, and expires no later than it was to. -/
def Kept (stored : K → Option (Entry V)) (k : K) (e : Entry V) : Prop :=
  ∃ x, stored k = some x ∧ e.value = x.value ∧ e.expires ≤ x.expires

structure Sound (h : History K V) : Prop where
  tiered : h.registry.Tiered
  kept : h.registry.All (Kept h.stored)

theorem le_lifetime (p : Policy) (ttl : Nat) : ttl ≤ p.lifetime ttl := by
  unfold Policy.lifetime
  split <;> omega

theorem kept_noting_self {h : History K V} {k : K} {v : V} {ttl t : Nat}
    (ht : t ≤ h.now + h.registry.policy.lifetime ttl) : Kept (h.noting k v ttl) k ⟨v, t⟩ :=
  ⟨_, if_pos rfl, rfl, ht⟩

theorem kept_noting_of_ne {h : History K V} {k : K} (v : V) (ttl : Nat) {l : K} {e : Entry V}
    (hl : l ≠ k) (he : Kept h.stored l e) : Kept (h.noting k v ttl) l e := by
  obtain ⟨x, hx, hv, ht⟩ := he
  exact ⟨x, (if_neg hl).trans hx, hv, ht⟩

namespace Sound

omit [DecidableEq K] in
theorem ofPolicy (p : Policy) : (History.ofPolicy p : History K V).Sound :=
  ⟨.ofPolicy p, .ofPolicy p⟩

variable {h : History K V} {k : K} {v : V} {ttl : Nat}

/-- What a sound registry gives out is to live on. -/
theorem exists_of_live? (hs : h.Sound) {t : Nat} (hv : h.registry.live? t k = some v) :
    ∃ x, h.stored k = some x ∧ x.value = v ∧ t < x.expires := by
  obtain ⟨e, ⟨x, hx, he, ht⟩, rfl, hlt⟩ := hs.kept.of_live? hv
  exact ⟨x, hx, he.symm, Nat.lt_of_lt_of_le hlt ht⟩

theorem punctual (hs : h.Sound) : h.Punctual := by
  intro k x hx t hnow ht
  have hn : h.registry.live? t k = none := by
    match hv : h.registry.live? t k with
    | none => rfl
    | some v =>
      obtain ⟨y, hy, -, hlt⟩ := hs.exists_of_live? hv
      cases hx.symm.trans hy
      omega
  refine ⟨by rw [Registry.get_fst, hn], fun v ttl => ?_⟩
  rw [Registry.entry_fst, hn]
  rfl

omit [DecidableEq K] in
/-- The deadlines of what is stored now, in either tier. -/
theorem store_le (hs : h.Sound) (ttl : Nat) : h.now + ttl ≤ h.now + h.registry.policy.lifetime ttl ∧
    (h.registry.cold.isSome → h.now + max h.registry.policy.coldTtl ttl ≤
      h.now + h.registry.policy.lifetime ttl) := by
  refine ⟨Nat.add_le_add_left (le_lifetime _ _) _, fun hc => Nat.add_le_add_left ?_ _⟩
  have hl : h.registry.policy.lifetime ttl = _ := if_pos (hs.tiered hc)
  exact Nat.le_of_eq hl.symm

theorem kept_of_ne (hs : h.Sound) (k : K) (v : V) (ttl : Nat) :
    h.registry.All fun l e => l ≠ k → Kept (h.noting k v ttl) l e :=
  hs.kept.mono fun _ _ he hl => kept_noting_of_ne v ttl hl he

theorem put (hs : h.Sound) (k : K) (v : V) (ttl : Nat) : (h.step (.put k v ttl)).Sound := by
  obtain ⟨hhot, hcold⟩ := hs.store_le ttl
  exact ⟨hs.tiered.put, (hs.kept_of_ne k v ttl).put_of_ne (kept_noting_self hhot)
    fun hc => kept_noting_self (hcold hc)⟩

theorem get (hs : h.Sound) (k : K) : (h.step (.get k)).Sound := by
  refine ⟨hs.tiered.get _ _, hs.kept.get ?_ _ _⟩
  intro l e t he ht
  obtain ⟨x, hx, hv, hle⟩ := he
  exact ⟨x, hx, hv, Nat.le_trans ht hle⟩

/-- Asking for a key keeps a registry sound where the key is in the hot tier, in none, or in the
cold one alone and not asked for longer than it may live. -/
theorem entry (hs : h.Sound) (he : ¬ h.Overruns (.entry k v ttl)) :
    (h.step (.entry k v ttl)).Sound := by
  have hfst := h.registry.entry_fst h.now k v ttl
  match hl : h.registry.live? h.now k with
  | none =>
    rw [hl] at hfst
    obtain ⟨hhot, hcold⟩ := hs.store_le ttl
    have hk := (hs.kept_of_ne k v ttl).entry_of_none hl (kept_noting_self hhot)
      fun hc => kept_noting_self (hcold hc)
    refine ⟨hs.tiered.entry, ?_⟩
    simp only [step, hfst]
    exact hk
  | some w =>
    rw [hl] at hfst
    have hstored : (h.step (.entry k v ttl)).stored = h.stored := by
      simp only [step, hfst]
      rfl
    refine ⟨hs.tiered.entry, ?_⟩
    rw [hstored]
    match hh : h.registry.hot.peek h.now k with
    | some e =>
      simp only [step, Registry.entry_of_hot hh]
      exact ⟨hs.kept.hot, hs.kept.cold⟩
    | none =>
      simp only [Registry.live?, hh] at hl
      obtain ⟨e, hc, rfl⟩ := Option.map_eq_some_iff.mp hl
      refine Registry.All.entry_of_cold hs.kept hh hc ?_
      obtain ⟨⟨x, hx, hv, -⟩, -⟩ := hs.kept.of_coldLive? hc
      refine ⟨x, hx, hv, Nat.le_of_not_lt fun hlt => he ⟨hh, by rw [hc]; rfl, x, hx, hlt⟩⟩

theorem step (hs : h.Sound) {e : Event K V} (he : ¬ h.Overruns e) : (h.step e).Sound := by
  cases e with
  | wait ms => exact ⟨hs.tiered, hs.kept⟩
  | get k => exact hs.get k
  | entry k v ttl => exact hs.entry he
  | put k v ttl => exact hs.put k v ttl
  | remove k => exact ⟨hs.tiered.remove k, hs.kept.remove k⟩
  | purge => exact ⟨hs.tiered.purge _, hs.kept.purge _⟩

/-- A value that comes back for too long is given out at the time until which it was to live. -/
theorem not_punctual (hs : h.Sound) {e : Event K V} (he : h.Overruns e) :
    ¬ (h.step e).Punctual := by
  cases e with
  | entry k v ttl =>
    obtain ⟨hh, hc, x, hx, hlt⟩ := he
    obtain ⟨e, hc⟩ := Option.isSome_iff_exists.mp hc
    obtain ⟨⟨y, hy, -, hle⟩, hnow⟩ := hs.kept.of_coldLive? hc
    cases hx.symm.trans hy
    have hentry : h.registry.entry h.now k v ttl = _ := Registry.entry_of_cold hh hc
    have hpeek : (h.step (.entry k v ttl)).registry.hot.peek x.expires k =
        some (.ofLifetime h.now e.value ttl) := by
      simp only [History.step, hentry]
      exact ByAge.peek_put_of_lt _ _ _ (by omega) hlt
    intro hp
    have hstored : (h.step (.entry k v ttl)).stored k = some x := by
      simp only [History.step, hentry]
      exact hx
    obtain ⟨hg, -⟩ := hp k x hstored x.expires (by simp only [History.step]; omega) (Nat.le_refl _)
    rw [Registry.get_fst, Registry.live?, hpeek] at hg
    cases hg
  | _ => exact he.elim

/-- From a sound registry on, a run is punctual at all times exactly if no event of it overruns. -/
theorem punctual_iff (hs : h.Sound) (events : List (Event K V)) :
    (∀ a, a <+: events → (h.run a).Punctual) ↔
      ∀ a e, a ++ [e] <+: events → ¬ (h.run a).Overruns e := by
  induction events generalizing h with
  | nil =>
    refine ⟨fun _ a e hp => ?_, fun _ a hp => ?_⟩
    · have := List.prefix_nil.mp hp
      simp at this
    · rw [List.prefix_nil.mp hp]
      exact hs.punctual
  | cons e events ih =>
    constructor
    · intro hp
      have he : ¬ h.Overruns e := fun he => hs.not_punctual he
        (hp [e] (List.prefix_append [e] events))
      have ih := (ih (hs.step he)).mp fun a ha => hp (e :: a) (List.cons_prefix_cons.mpr ⟨rfl, ha⟩)
      intro a e' ha
      cases a with
      | nil =>
        obtain ⟨rfl, -⟩ := List.cons_prefix_cons.mp ha
        exact he
      | cons e'' a =>
        obtain ⟨rfl, ha'⟩ := List.cons_prefix_cons.mp ha
        exact ih a e' ha'
    · intro ho
      have he : ¬ h.Overruns e := ho [] e (List.prefix_append [e] events)
      have ih := (ih (hs.step he)).mpr fun a e' ha =>
        ho (e :: a) e' (List.cons_prefix_cons.mpr ⟨rfl, ha⟩)
      intro a ha
      cases a with
      | nil => exact hs.punctual
      | cons e' a =>
        obtain ⟨rfl, ha'⟩ := List.cons_prefix_cons.mp ha
        exact ih a ha'

end Sound

/-- **When no value is given out too late.** In a run from an empty registry nothing is ever given
out after the lifetime that it was stored for, however long one waits in between, exactly if no
value that only the cold tier still has is asked for with a longer lifetime than it has left. -/
theorem run_punctual_iff (p : Policy) (events : List (Event K V)) :
    (∀ a, a <+: events → ((ofPolicy p).run a).Punctual) ↔
      ∀ a e, a ++ [e] <+: events → ¬ ((ofPolicy p).run a).Overruns e :=
  (Sound.ofPolicy p).punctual_iff events

/-- A value stored until 1000 is asked for at 500, for 10000, and is still given out at 1500. -/
theorem asked_for_value_outlives_its_lifetime :
    let p : Policy := { coldCapacity := some 4, coldTtl := 1000 }
    let h : History String String := (ofPolicy p).run
      [.put "k" "v" 100, .wait 500, .entry "k" "w" 10000, .wait 1000]
    h.stored "k" = some ⟨"v", 1000⟩ ∧ h.now = 1500 ∧ (h.registry.get h.now "k").1 = some "v" := by
  decide

end History

end SocksChain.Store
