import SocksChain.Origins
import SocksChain.Proofs.Store.Room

/-!
What the links of a node say about where its connections come from. A link stores the origin of the
connection that it was made for, so that a chain of any length has collapsed to its client as soon
as its hops are linked. The far end of a hop is a key too, and belongs to whichever chain came there
last; no chain goes on from it, so that the chains that share one are not mixed up.
-/

namespace SocksChain.Origins

/-- A connection from `near` to `far` that was opened for `inbound`, and when it was linked. -/
structure Hop where
  time : Nat
  inbound : Ip.Zoned
  near : Ip.Zoned
  far : Ip.Zoned
deriving DecidableEq

namespace Hop

/-- The addresses that a link makes into keys. -/
def ends (h : Hop) : List Ip.Zoned := [h.near, h.far]

def roles (h : Hop) : List Ip.Zoned := [h.inbound, h.near, h.far]

end Hop

/-- All ends of the hops. -/
def ends (hops : List Hop) : Finset Ip.Zoned := (hops.flatMap Hop.ends).toFinset

/-- Where the chain of an address starts: the hops, the latest first, are followed back from a near
end to what the hop was opened for. -/
def client : List Hop → Ip.Zoned → Ip.Zoned
  | [], a => a
  | h :: earlier, a => client earlier (if a = h.near then h.inbound else a)

section Hops

variable {hops later earlier : List Hop} {h : Hop} {a : Ip.Zoned}

theorem mem_ends : a ∈ ends hops ↔ ∃ h ∈ hops, a = h.near ∨ a = h.far := by
  simp [ends, Hop.ends]

theorem ends_subset_cons (h : Hop) (hops : List Hop) : ends hops ⊆ ends (h :: hops) := by
  intro a ha
  obtain ⟨g, hg, hga⟩ := mem_ends.mp ha
  exact mem_ends.mpr ⟨g, List.mem_cons_of_mem _ hg, hga⟩

theorem client_cons_of_ne (ha : a ≠ h.near) : client (h :: earlier) a = client earlier a := by
  rw [client, if_neg ha]

theorem client_near (h : Hop) (earlier : List Hop) :
    client (h :: earlier) h.near = client earlier h.inbound := by
  rw [client, if_pos rfl]

theorem client_append (ha : ∀ h ∈ later, a ≠ h.near) (earlier : List Hop) :
    client (later ++ earlier) a = client earlier a := by
  induction later with
  | nil => rfl
  | cons h later ih =>
    rw [List.cons_append, client_cons_of_ne (ha h List.mem_cons_self)]
    exact ih fun g hg => ha g (List.mem_cons_of_mem _ hg)

/-- What no hop starts from is where its chain starts. -/
theorem client_eq_self (ha : ∀ h ∈ hops, a ≠ h.near) : client hops a = a := by
  rw [← List.append_nil hops, client_append ha, client]

theorem client_mem (hops : List Hop) (a : Ip.Zoned) :
    client hops a = a ∨ ∃ g ∈ hops, client hops a = g.inbound := by
  induction hops generalizing a with
  | nil => exact .inl rfl
  | cons h hops ih =>
    rw [client]
    rcases ih (if a = h.near then h.inbound else a) with hc | ⟨g, hg, hc⟩
    · rw [hc]
      split
      · exact .inr ⟨h, List.mem_cons_self, rfl⟩
      · exact .inl rfl
    · exact .inr ⟨g, List.mem_cons_of_mem _ hg, hc⟩

/-- No hop leads on from where a chain starts, unless it was opened for its own near end. -/
theorem inbound_eq_of_client (hf : hops.Pairwise fun h earlier => h.near ∉ earlier.roles)
    {g : Hop} (hg : g ∈ hops) (hc : client hops a = g.near) : g.inbound = g.near := by
  induction hops generalizing a with
  | nil => cases hg
  | cons h hops ih =>
    obtain ⟨hh, hf⟩ := List.pairwise_cons.mp hf
    rw [client] at hc
    rcases List.mem_cons.mp hg with rfl | hg
    · rcases client_mem hops (if a = g.near then g.inbound else a) with hb | ⟨k, hk, hb⟩
      · rw [hb] at hc
        split at hc
        · exact hc
        · rename_i hne
          exact absurd hc hne
      · exact absurd (hc.symm.trans hb) fun heq => hh k hk (by simp [Hop.roles, heq])
    · exact ih hf hg hc

end Hops

inductive Event where
  | wait (ms : Nat)
  | link (inbound near far : Ip.Zoned)
  | ask (address : Ip.Zoned)
  | purge

/-- The links at some time, and the hops that were linked until then, the latest first. -/
structure Trace where
  origins : Origins
  now : Nat := 0
  hops : List Hop := []

namespace Trace

def ofPolicy (p : Store.Policy) : Trace := { origins := .ofPolicy p }

def step (t : Trace) : Event → Trace
  | .wait ms => { t with now := t.now + ms }
  | .link inbound near far =>
    { t with
      origins := t.origins.link t.now inbound near far
      hops := ⟨t.now, inbound, near, far⟩ :: t.hops }
  | .ask address => { t with origins := (t.origins.origin t.now address).2 }
  | .purge => { t with origins := ⟨(t.origins.links.purge t.now).2⟩ }

def run (t : Trace) (events : List Event) : Trace := events.foldl step t

/-- What keeps chains apart. The near end of a hop is an address that was not used before, no chain
goes on from a far end, and the links neither expire nor fill the hot tier. -/
structure Apart (p : Store.Policy) (t : Trace) : Prop where
  fresh : t.hops.Pairwise fun h earlier => h.near ∉ earlier.roles
  final : ∀ g ∈ t.hops, ∀ h ∈ t.hops, g.far ≠ h.inbound ∧ g.far ≠ h.near
  live : ∀ h ∈ t.hops, t.now < h.time + p.defaultTtl
  room : (ends t.hops).card ≤ max p.hotCapacity 1

/-- Every near end leads to the start of its chain for as long as a link lives, and nothing else is
found but ends of hops. -/
structure Linked (p : Store.Policy) (t : Trace) : Prop where
  policy : t.origins.links.policy = p
  capacity : t.origins.links.hot.capacity = max p.hotCapacity 1
  room : t.origins.links.Room (ends t.hops)
  leads : ∀ h ∈ t.hops, t.origins.links.hot.table.lookup? h.near =
    some ⟨client t.hops h.near, h.time + p.defaultTtl⟩

variable {p : Store.Policy} {t : Trace}

/-- Chains that are apart were so before. -/
theorem Apart.of_step {e : Event} (h : Apart p (t.step e)) : Apart p t := by
  cases e with
  | wait ms =>
    exact ⟨h.fresh, h.final, fun g hg => Nat.lt_of_le_of_lt (Nat.le_add_right _ ms) (h.live g hg),
      h.room⟩
  | link inbound near far =>
    exact ⟨(List.pairwise_cons.mp h.fresh).2,
      fun g hg k hk => h.final g (List.mem_cons_of_mem _ hg) k (List.mem_cons_of_mem _ hk),
      fun g hg => h.live g (List.mem_cons_of_mem _ hg),
      (Finset.card_le_card (ends_subset_cons _ _)).trans h.room⟩
  | ask address => exact ⟨h.fresh, h.final, h.live, h.room⟩
  | purge => exact ⟨h.fresh, h.final, h.live, h.room⟩

namespace Linked

theorem ofPolicy (p : Store.Policy) : Linked p (ofPolicy p) :=
  ⟨rfl, rfl, .ofPolicy p (Nat.zero_le _), nofun⟩

/-- An address that is no far end leads to the start of its chain. -/
theorem origin_eq (h : Linked p t) (ha : Apart p t) {a : Ip.Zoned} (hf : ∀ g ∈ t.hops, g.far ≠ a) :
    (t.origins.origin t.now a).1 = client t.hops a := by
  show (t.origins.links.get t.now a).1.getD a = _
  rw [Store.Registry.get_fst]
  by_cases hn : ∃ g ∈ t.hops, a = g.near
  · obtain ⟨g, hg, rfl⟩ := hn
    rw [Store.Registry.live?_of_lookup? (h.leads g hg) (ha.live g hg), Option.getD_some]
  · have hne : ∀ g ∈ t.hops, a ≠ g.near := fun g hg heq => hn ⟨g, hg, heq⟩
    have hout : a ∉ ends t.hops := by
      intro hm
      obtain ⟨g, hg, heq | heq⟩ := mem_ends.mp hm
      · exact hne g hg heq
      · exact hf g hg heq.symm
    rw [h.room.live?_eq_none hout, Option.getD_none, client_eq_self hne]

theorem wait (h : Linked p t) (ms : Nat) : Linked p (t.step (.wait ms)) :=
  ⟨h.policy, h.capacity, h.room, h.leads⟩

theorem ask (h : Linked p t) (ha : Apart p t) (a : Ip.Zoned) : Linked p (t.step (.ask a)) where
  policy := (Store.Registry.policy_get _ _ _).trans h.policy
  capacity := (Store.Registry.capacity_get _ _ _).trans h.capacity
  room := h.room.get t.now a
  leads g hg := h.room.lookup?_get (h.leads g hg) (ha.live g hg) a

theorem purge (h : Linked p t) (ha : Apart p t) : Linked p (t.step .purge) where
  policy := h.policy
  capacity := h.capacity
  room := h.room.purge t.now
  leads g hg := Store.Table.lookup?_live (h.leads g hg) (ha.live g hg)

/-- What a link stores under both ends is already the start of the chain. -/
theorem link_links (h : Linked p t) {inbound near far : Ip.Zoned}
    (ha : Apart p (t.step (.link inbound near far))) :
    (t.step (.link inbound near far)).origins.links =
      ((t.step (.ask inbound)).origins.links.put t.now near (client t.hops inbound)
        p.defaultTtl).put t.now far (client t.hops inbound) p.defaultTtl := by
  have horigin : (t.origins.origin t.now inbound).1 = client t.hops inbound :=
    h.origin_eq ha.of_step fun g hg =>
      (ha.final g (List.mem_cons_of_mem _ hg) _ List.mem_cons_self).1
  have hpolicy : (t.step (.ask inbound)).origins.links.policy = p :=
    (h.ask ha.of_step inbound).policy
  rw [← horigin, ← hpolicy]
  rfl

theorem link (h : Linked p t) {inbound near far : Ip.Zoned}
    (ha : Apart p (t.step (.link inbound near far))) :
    Linked p (t.step (.link inbound near far)) := by
  -- A near end is fresh, and a far end is no near end: neither overwrites what leads on.
  have hold : ∀ g ∈ t.hops, g.near ≠ near ∧ g.near ≠ far := by
    intro g hg
    have hroles := (List.pairwise_cons.mp ha.fresh).1 g hg
    have hfinal := (ha.final _ List.mem_cons_self g (List.mem_cons_of_mem _ hg)).2
    exact ⟨fun heq => hroles (by simp [Hop.roles, ← heq]), hfinal.symm⟩
  have hends : near ≠ far := (ha.final _ List.mem_cons_self _ List.mem_cons_self).2.symm
  have httl : 0 < p.defaultTtl := Nat.lt_of_add_lt_add_left (ha.live _ List.mem_cons_self)
  have hnear : near ∈ ends (t.step (.link inbound near far)).hops :=
    mem_ends.mpr ⟨_, List.mem_cons_self, .inl rfl⟩
  have hfar : far ∈ ends (t.step (.link inbound near far)).hops :=
    mem_ends.mpr ⟨_, List.mem_cons_self, .inr rfl⟩
  have hasked := h.ask ha.of_step inbound
  have hroom := hasked.room.mono (ends_subset_cons _ _) (hasked.capacity ▸ ha.room)
  obtain ⟨hroom', hself, hother⟩ := hroom.put_put hnear hfar hends httl t.now (client t.hops inbound)
  rw [← h.link_links ha] at hroom' hself hother
  refine ⟨?_, ?_, hroom', ?_⟩
  · rw [h.link_links ha]
    exact hasked.policy
  · rw [h.link_links ha, Store.Registry.capacity_put, Store.Registry.capacity_put, hasked.capacity]
  · intro g hg
    rcases List.mem_cons.mp hg with rfl | hg
    · show _ = some (⟨client (_ :: t.hops) near, _⟩ : Store.Entry Ip.Zoned)
      rw [hself, client_near]
    · show _ = some (⟨client (_ :: t.hops) g.near, _⟩ : Store.Entry Ip.Zoned)
      rw [hother _ (hold g hg).1 (hold g hg).2, client_cons_of_ne (hold g hg).1]
      exact hasked.leads g hg

theorem step (h : Linked p t) {e : Event} (ha : Apart p (t.step e)) : Linked p (t.step e) := by
  cases e with
  | wait ms => exact h.wait ms
  | link inbound near far => exact h.link ha
  | ask a => exact h.ask ha.of_step a
  | purge => exact h.purge ha.of_step

theorem run (events : List Event) (ha : Apart p ((Trace.ofPolicy p).run events)) :
    Linked p ((Trace.ofPolicy p).run events) := by
  induction events using List.reverseRecOn with
  | nil => exact ofPolicy p
  | append_singleton events e ih =>
    have hrun : (Trace.ofPolicy p).run (events ++ [e]) = ((Trace.ofPolicy p).run events).step e := by
      rw [Trace.run, List.foldl_append]
      rfl
    rw [hrun] at ha ⊢
    exact (ih ha.of_step).step ha

end Linked

/-- **Every hop leads to its own client.** However many chains are linked, and in whatever order
their hops come: while the chains are apart, the near end of every hop leads to the address that is
found by following what the hop was opened for back through the hops before it, and no hop leads on
from there. What is no end of a hop leads to itself. -/
theorem every_hop_leads_to_its_client (p : Store.Policy) (events : List Event)
    (ha : Apart p ((ofPolicy p).run events)) :
    let t := (ofPolicy p).run events
    (∀ later h earlier, t.hops = later ++ h :: earlier →
      (t.origins.origin t.now h.near).1 = client earlier h.inbound ∧
        ∀ g ∈ earlier, client earlier h.inbound = g.near → g.inbound = g.near) ∧
      ∀ a, a ∉ ends t.hops → (t.origins.origin t.now a).1 = a := by
  intro t
  have hl : Linked p t := Linked.run events ha
  constructor
  · intro later h earlier hsplit
    have hh : h ∈ t.hops := by rw [hsplit]; exact List.mem_append_right _ List.mem_cons_self
    have hfresh := ha.fresh
    rw [show ((ofPolicy p).run events).hops = later ++ h :: earlier from hsplit,
      List.pairwise_append] at hfresh
    obtain ⟨-, hearlier, hlater⟩ := hfresh
    have hne : ∀ g ∈ later, h.near ≠ g.near := fun g hg heq =>
      hlater g hg h List.mem_cons_self (by simp [Hop.roles, heq])
    refine ⟨?_, fun g hg => inbound_eq_of_client (List.pairwise_cons.mp hearlier).2 hg⟩
    calc (t.origins.origin t.now h.near).1
        = client t.hops h.near := hl.origin_eq ha fun g hg => (ha.final g hg h hh).2
      _ = client (h :: earlier) h.near := by rw [hsplit, client_append hne]
      _ = client earlier h.inbound := client_near h earlier
  · intro a hout
    have hne : ∀ g ∈ t.hops, a ≠ g.near ∧ a ≠ g.far := fun g hg =>
      ⟨fun heq => hout (mem_ends.mpr ⟨g, hg, .inl heq⟩),
        fun heq => hout (mem_ends.mpr ⟨g, hg, .inr heq⟩)⟩
    rw [hl.origin_eq ha fun g hg heq => (hne g hg).2 heq.symm]
    exact client_eq_self fun g hg => (hne g hg).1

/-- Two clients, two hops each, through the same servers. -/
theorem chains_that_share_their_far_ends :
    let address (host : UInt8) (port : UInt16) : Ip.Zoned := .ofSocket ⟨.v4 ⟨10, 0, 0, host⟩, port⟩
    let alice := address 10 40000
    let bob := address 11 40000
    let first := address 2 1080
    let second := address 3 1080
    let events : List Event := [.link alice (address 1 50000) first,
      .link bob (address 1 50001) first, .wait 1000, .ask first,
      .link (address 1 50001) (address 2 60000) second, .purge,
      .link (address 1 50000) (address 2 60001) second]
    let t := (ofPolicy {}).run events
    Apart {} t ∧ (t.origins.origin t.now (address 2 60000)).1 = bob ∧
      (t.origins.origin t.now (address 2 60001)).1 = alice ∧
      (t.origins.origin t.now alice).1 = alice := by
  intro address alice bob first second events t
  have ha : Apart {} t := ⟨by decide, by decide, by decide, by decide⟩
  obtain ⟨hlead, hself⟩ := every_hop_leads_to_its_client {} events ha
  let early : List Hop := [⟨0, bob, address 1 50001, first⟩, ⟨0, alice, address 1 50000, first⟩]
  let bobs : Hop := ⟨1000, address 1 50001, address 2 60000, second⟩
  let alices : Hop := ⟨1000, address 1 50000, address 2 60001, second⟩
  have hb : client early bobs.inbound = bob := by decide
  have hc : client (bobs :: early) alices.inbound = alice := by decide
  refine ⟨ha, ?_, ?_, hself alice (by decide)⟩
  · exact (hlead [alices] bobs early rfl).1.trans hb
  · exact (hlead [] alices (bobs :: early) rfl).1.trans hc

end Trace

end SocksChain.Origins
