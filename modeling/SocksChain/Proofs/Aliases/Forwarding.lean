import SocksChain.Proofs.Aliases.Ledger

/-!
Whether a node forwards what it is told. Its own substitutions propagate a mapping that they create,
and again after a failure; a mapping that another node has registered is there already and is
propagated by nobody. So what is asked for at the next hop was forwarded exactly if a substitution
was there before the mapping was.
-/

namespace SocksChain

namespace Ledger

variable {S : Type}

/-- The destination that an event is about. -/
def Event.names? : Event S → Option Endpoint
  | .substitute _ d _ => some d
  | .approach _ _ d _ => some d
  | .register real => some real
  | _ => none

/-- The collaborator that an event is on behalf of. -/
def Event.support? : Event S → Option S
  | .substitute _ _ s => some s
  | .approach _ _ _ hop => hop.support
  | _ => none

theorem names?_of_use? {L : Ledger S} {e : Event S} {d : Endpoint} {s : S}
    (h : L.use? e = some (d, s)) : e.names? = some d ∧ e.support? = some s := by
  cases e with
  | substitute draw d' s' =>
    cases h
    exact ⟨rfl, rfl⟩
  | approach cipher draw d' hop =>
    simp only [use?] at h
    split at h
    · obtain ⟨s', hs, he⟩ := Option.map_eq_some_iff.mp h
      cases he
      exact ⟨rfl, hs⟩
    · cases h
  | _ => cases h

/-- An event that comes to a substitution of `d` with no live mapping under its hash. -/
def Founds (L : Ledger S) (d : Endpoint) (e : Event S) : Prop :=
  ∃ x s, L.use? e = some (x, s) ∧ x.toText = d.toText ∧ L.known? d.hash = none

/-- Whether any of these events does. -/
def Founded (L : Ledger S) (d : Endpoint) : List (Event S) → Prop
  | [] => False
  | e :: events => L.Founds d e ∨ (L.step e).Founded d events

/-- How things stand with the mapping of `d`, of which only `s` can be told. -/
structure Forwarding (d : Endpoint) (s : S) (founded : Prop) (L : Ledger S) : Prop where
  stored : L.aliases.Says d.hash d.toText
  calls : ∀ c ∈ L.calls, c.hash = d.hash → c.real = d.toText ∧ c.support = s
  started : (∃ c ∈ L.calls, c.hash = d.hash) ↔ founded
  flagged : d.hash ∈ L.aliases.unpropagated → founded
  unfailed : founded → d.hash ∈ L.aliases.unpropagated ∨
    ∃ c ∈ L.calls, c.hash = d.hash ∧ c.standing ≠ .failed

theorem exists_mem_set {calls : List (Call S)} {k : Nat} {c c' : Call S} (hk : calls[k]? = some c)
    {P : Call S → Prop} (hP : P c → P c') (h : ∃ x ∈ calls, P x) :
    ∃ x ∈ calls.set k c', P x := by
  obtain ⟨hlt, hc⟩ := List.getElem?_eq_some_iff.mp hk
  obtain ⟨x, hx, hp⟩ := h
  obtain ⟨j, hj, rfl⟩ := List.getElem_of_mem hx
  by_cases hjk : k = j
  · subst hjk
    exact ⟨c', List.mem_set hlt c', hP (hc ▸ hp)⟩
  · refine ⟨_, List.getElem_mem (by rw [List.length_set]; exact hj), ?_⟩
    · rw [List.getElem_set_ne hjk]
      exact hp

theorem exists_mem_of_set {calls : List (Call S)} {k : Nat} {c c' : Call S}
    (hk : calls[k]? = some c) {P : Call S → Prop} (hP : P c' → P c)
    (h : ∃ x ∈ calls.set k c', P x) : ∃ x ∈ calls, P x := by
  obtain ⟨x, hx, hp⟩ := h
  rcases List.mem_or_eq_of_mem_set hx with hx | rfl
  · exact ⟨x, hx, hp⟩
  · exact ⟨c, List.mem_of_getElem? hk, hP hp⟩

/-- An event that is on behalf of `s`, if of anybody, and mistakes no other text for that of `d`. -/
structure Concerns (d : Endpoint) (s : S) (e : Event S) : Prop where
  support : ∀ t, e.support? = some t → t = s
  text : ∀ x, e.names? = some x → x.hash = d.hash → x.toText = d.toText

namespace Forwarding

variable {d : Endpoint} {s : S} {founded : Prop} {L : Ledger S}

/-- Calls are settled without any harm, as long as a failure is kept in mind. -/
theorem settle (h : Forwarding d s founded L) {k : Nat} {c : Call S} (hk : L.calls[k]? = some c)
    {x : Standing} {a : Aliases} (hs : a.Says d.hash d.toText)
    (hu : d.hash ∈ a.unpropagated ↔
      d.hash ∈ L.aliases.unpropagated ∨ (c.hash = d.hash ∧ x = .failed)) :
    Forwarding d s founded { L with
      aliases := a
      calls := L.calls.set k { c with standing := x } } := by
  refine ⟨hs, ?_, ?_, ?_, ?_⟩
  · intro c' hc' hh
    rcases List.mem_or_eq_of_mem_set hc' with hc' | rfl
    · exact h.calls c' hc' hh
    · exact h.calls c (List.mem_of_getElem? hk) hh
  · rw [← h.started]
    exact ⟨exists_mem_of_set hk id, exists_mem_set hk id⟩
  · intro hm
    rcases hu.mp hm with hm | ⟨hc, -⟩
    · exact h.flagged hm
    · exact h.started.mp ⟨c, List.mem_of_getElem? hk, hc⟩
  · intro hf
    by_cases hc : c.hash = d.hash ∧ x = .failed
    · exact .inl (hu.mpr (.inr hc))
    · rcases h.unfailed hf with hm | hm
      · exact .inl (hu.mpr (.inl hm))
      · refine .inr (exists_mem_set hk ?_ hm)
        intro h
        obtain ⟨hh, -⟩ := h
        exact ⟨hh, fun hx' => hc ⟨hh, hx'⟩⟩

/-- A substitution that finds the mapping, or is one of another hash, changes nothing of it. -/
theorem useOther (h : Forwarding d s founded L) {x : Endpoint} {draw : Nat} {t : S}
    (hs : (L.use draw x t).aliases.Says d.hash d.toText)
    (hx : ¬ (L.aliases.Propagates L.now x ∧ x.hash = d.hash)) :
    Forwarding d s founded (L.use draw x t) := by
  have hu : d.hash ∈ (L.use draw x t).aliases.unpropagated ↔
      d.hash ∈ L.aliases.unpropagated := by
    rw [mem_use_unpropagated]
    exact and_iff_left fun hp => hx ⟨hp.1, hp.2.symm⟩
  obtain ⟨more, hc, hm⟩ : ∃ more, (L.use draw x t).calls = L.calls ++ more ∧
      ∀ c ∈ more, c.hash ≠ d.hash := by
    by_cases hp : L.aliases.Propagates L.now x
    · refine ⟨_, use_calls_of_propagates hp draw t, fun c hc hh => hx ⟨hp, ?_⟩⟩
      rw [List.mem_singleton.mp hc] at hh
      exact hh
    · refine ⟨[], ?_, nofun⟩
      rw [use_calls_of_not_propagates hp, List.append_nil]
  have hmem : ∀ c, c.hash = d.hash → (c ∈ (L.use draw x t).calls ↔ c ∈ L.calls) := by
    intro c hh
    rw [hc, List.mem_append]
    exact or_iff_left fun hi => hm c hi hh
  refine ⟨hs, fun c hi hh => h.calls c ((hmem c hh).mp hi) hh, ?_,
    fun hi => h.flagged (hu.mp hi), ?_⟩
  · rw [← h.started]
    constructor
    · intro h
      obtain ⟨c, hi, hh⟩ := h
      exact ⟨c, (hmem c hh).mp hi, hh⟩
    · intro h
      obtain ⟨c, hi, hh⟩ := h
      exact ⟨c, (hmem c hh).mpr hi, hh⟩
  · intro hf
    rcases h.unfailed hf with hi | ⟨c, hi, hh, hn⟩
    · exact .inl (hu.mpr hi)
    · exact .inr ⟨c, (hmem c hh).mpr hi, hh, hn⟩

theorem use (h : Forwarding d s founded L) {e : Event S} {x : Endpoint} {draw : Nat}
    (hu : L.use? e = some (x, s)) (hx : x.hash = d.hash → x.toText = d.toText) :
    Forwarding d s (founded ∨ L.Founds d e) (L.use draw x s) := by
  have hs : (L.use draw x s).aliases.Says d.hash d.toText :=
    h.stored.substitute draw fun hh _ => hx hh
  by_cases hp : L.aliases.Propagates L.now x ∧ x.hash = d.hash
  · obtain ⟨hp, hh⟩ := hp
    have hc := use_calls_of_propagates hp draw s
    have hfound : founded ∨ L.Founds d e := by
      rw [Aliases.Propagates, hh] at hp
      rcases hp with hn | ⟨-, hm⟩
      · exact .inr ⟨x, s, hu, hx hh, hn⟩
      · exact .inl (h.flagged hm)
    have hnew : (⟨x.hash, x.toText, s, .inFlight⟩ : Call S) ∈ (L.use draw x s).calls := by
      rw [hc]
      exact List.mem_append_right _ List.mem_cons_self
    refine ⟨hs, ?_, iff_of_true ⟨_, hnew, hh⟩ hfound, fun _ => hfound,
      fun _ => .inr ⟨_, hnew, hh, nofun⟩⟩
    intro c hi hc'
    rw [hc, List.mem_append, List.mem_singleton] at hi
    rcases hi with hi | rfl
    · exact h.calls c hi hc'
    · exact ⟨hx hh, rfl⟩
  · have hno : ¬ L.Founds d e := by
      intro h
      obtain ⟨y, t, hy, ht, hn⟩ := h
      cases hu.symm.trans hy
      have hh : x.hash = d.hash := congrArg Endpoint.hashText ht
      rw [← hh] at hn
      exact hp ⟨.inl hn, hh⟩
    rw [or_iff_left hno]
    exact h.useOther hs hp

theorem step (h : Forwarding d s founded L) {e : Event S} (he : Concerns d s e) :
    Forwarding d s (founded ∨ L.Founds d e) (L.step e) := by
  have hs : (L.step e).aliases.Says d.hash d.toText :=
    stored_step h.stored e (fun x t hu hh _ => he.text x (names?_of_use? hu).1 hh)
      (fun r hr hh => he.text r (by rw [hr]; rfl) hh)
  have hno : L.use? e = none → ¬ L.Founds d e := by
    intro hu h
    obtain ⟨x, t, hx, -⟩ := h
    cases hu.symm.trans hx
  rcases L.step_cases e with ⟨draw, x, t, hu, hstep⟩ | ⟨k, c, hu, -, hk, -, hstep⟩ |
    ⟨k, c, hu, -, hk, -, hstep⟩ | ⟨hu, -, hc, hun⟩
  · obtain ⟨hname, hsup⟩ := names?_of_use? hu
    obtain rfl := he.support t hsup
    rw [hstep]
    exact h.use hu (he.text x hname)
  · rw [or_iff_left (hno hu)]
    rw [hstep] at hs ⊢
    refine h.settle hk hs ?_
    rw [Aliases.mem_propagationFailed_unpropagated, or_comm]
    exact or_congr_right ⟨fun hi => ⟨hi.symm, rfl⟩, fun hi => hi.1.symm⟩
  · rw [or_iff_left (hno hu)]
    rw [hstep] at hs ⊢
    exact h.settle hk hs (or_iff_left nofun).symm
  · rw [or_iff_left (hno hu)]
    exact ⟨hs, by rw [hc]; exact h.calls, by rw [hc]; exact h.started, by rw [hun]; exact h.flagged,
      by rw [hc, hun]; exact h.unfailed⟩

theorem run (h : Forwarding d s founded L) {events : List (Event S)}
    (he : ∀ e ∈ events, Concerns d s e) :
    Forwarding d s (founded ∨ L.Founded d events) (L.run events) := by
  induction events generalizing L founded with
  | nil =>
    rw [Founded, or_false]
    exact h
  | cons e events ih =>
    rw [Founded, ← or_assoc]
    exact ih (h.step (he e List.mem_cons_self)) fun e' hm => he e' (List.mem_cons_of_mem _ hm)

theorem ofPolicies (a : AliasPolicy) (p : Store.Policy) (d : Endpoint) (s : S) :
    Forwarding d s False (Ledger.ofPolicies a p) :=
  ⟨Store.Registry.All.ofPolicy p, nofun, iff_of_false (fun ⟨_, hc, _⟩ => nomatch hc) id, nofun,
    nofun⟩

end Forwarding

/-- **When a substitution is backed by a call.** With one collaborator and no two texts of one hash,
a substitution that starts no call has one behind it that has not failed, exactly if some earlier
substitution of its destination found no live mapping. -/
theorem backed_iff (a : AliasPolicy) (p : Store.Policy) {events : List (Event S)} {d : Endpoint}
    {s : S} (he : ∀ e ∈ events, Concerns d s e) (draw : Nat) :
    let L := (Ledger.ofPolicies a p).run events
    ((L.aliases.substitute L.now draw d).1.propagates = false →
        ∃ c ∈ L.calls, c.hash = d.hash ∧ c.real = d.toText ∧ c.support = s ∧
          c.standing ≠ .failed) ↔
      L.known? d.hash = none ∨ (Ledger.ofPolicies a p).Founded d events := by
  intro L
  have h : Forwarding d s (False ∨ (Ledger.ofPolicies a p).Founded d events) L :=
    (Forwarding.ofPolicies a p d s).run he
  rw [false_or] at h
  rw [Aliases.substitute_propagates_eq_false]
  constructor
  · intro hb
    by_cases hq : L.aliases.Propagates L.now d
    · rcases hq with hn | ⟨-, hm⟩
      · exact .inl hn
      · exact .inr (h.flagged hm)
    · refine .inr ?_
      obtain ⟨c, hc, hh, -⟩ := hb hq
      exact h.started.mp ⟨c, hc, hh⟩
  · intro hb hq
    rcases hb with hn | hf
    · exact absurd (.inl hn) hq
    · rcases h.unfailed hf with hm | ⟨c, hc, hh, hns⟩
      · refine absurd ?_ hq
        match hk : L.aliases.known? L.now d.hash with
        | none => exact .inl hk
        | some v => exact .inr ⟨h.stored.of_known? hk ▸ hk, hm⟩
      · obtain ⟨hr, hs⟩ := h.calls c hc hh
        exact ⟨c, hc, hh, hr, hs, hns⟩

/-- A mapping that was propagated once, forgotten, and then registered by another node. -/
theorem backed_after_registration :
    let d : Endpoint := ⟨"db.example.org", 5432⟩
    let events : List (Event Nat) :=
      [.substitute 0 d 1, .wait 3600000, .register d]
    let L := (Ledger.ofPolicies {} {}).run events
    (∀ e ∈ events, Concerns d 1 e) ∧ (L.aliases.substitute L.now 0 d).1.propagates = false ∧
      ∃ c ∈ L.calls, c.hash = d.hash ∧ c.real = d.toText ∧ c.support = 1 ∧
        c.standing ≠ .failed := by
  intro d
  -- The digest of a text is never to be computed.
  clear_value d
  intro events
  have he : ∀ e ∈ events, Concerns d 1 e := by
    have hc : ∀ e : Event Nat, (∀ t, e.support? = some t → t = 1) →
        (∀ x, e.names? = some x → x = d) → Concerns d 1 e :=
      fun e h₁ h₂ => ⟨h₁, fun x hx _ => by rw [h₂ x hx]⟩
    simp only [events, List.forall_mem_cons]
    refine ⟨hc _ ?_ ?_, hc _ nofun nofun, hc _ nofun ?_, nofun⟩
    all_goals
      intro x hx
      cases hx
      rfl
  have hn : (Ledger.ofPolicies {} {} : Ledger Nat).known? d.hash = none := known?_ofPolicies _ _ _
  have hm : d.hash ∉ ((Ledger.ofPolicies {} {}).use 0 d 1).aliases.unpropagated := by
    rw [mem_use_unpropagated]
    exact fun hm => hm.2 ⟨.inl hn, rfl⟩
  have ht : 0 < ({} : AliasPolicy).ttl := by decide
  have hk : ((Ledger.ofPolicies {} {}).run events).known? d.hash = some d.toText :=
    known?_register d ht
  have hu : d.hash ∉ ((Ledger.ofPolicies {} {}).run events).aliases.unpropagated := hm
  have hb := (backed_iff {} {} he 0).mpr (.inr (.inl ⟨d, 1, rfl, rfl, hn⟩))
  dsimp only at hb ⊢
  generalize (Ledger.ofPolicies {} {}).run events = L at hb hk hu ⊢
  have hp : (L.aliases.substitute L.now 0 d).1.propagates = false := by
    rw [Aliases.substitute_propagates_eq_false]
    exact Aliases.not_propagates hk hu
  exact ⟨he, hp, hb hp⟩

/-- A mapping that another node has registered is asked for at the next hop, which nobody tells. -/
theorem registered_mapping_is_not_forwarded :
    let d : Endpoint := ⟨"db.example.org", 5432⟩
    let L : Ledger Nat := (Ledger.ofPolicies {} {}).run [.register d]
    let x := (L.aliases.substitute L.now 0 d).1
    x.standIn = ⟨Alias.host ".fake.internal" d.hash, 443⟩ ∧ x.propagates = false ∧
      ¬ ∃ c ∈ L.calls, c.hash = d.hash ∧ c.real = d.toText ∧ c.support = 1 ∧
        c.standing ≠ .failed := by
  intro d
  clear_value d
  intro L x
  have hk : L.known? d.hash = some d.toText := known?_register d (by decide)
  refine ⟨rfl, ?_, nofun⟩
  rw [Aliases.substitute_propagates_eq_false]
  exact Aliases.not_propagates hk (List.not_mem_nil)

end Ledger

end SocksChain
