import SocksChain.Approach
import SocksChain.Proofs.Store.Contents

/-!
Aliases over time, and a ledger of the calls in which collaborators are told what an alias stands
for. A substitution starts a call if it finds no live mapping, or one of the same text whose last
call has failed. A call is settled at any time later, or never.
-/

namespace SocksChain

namespace Endpoint

/-- The hash under which a destination is mapped. -/
def hash (d : Endpoint) : UInt64 := hashText d.toText

end Endpoint

namespace Aliases

/-- The live mapping of a hash. -/
def known? (a : Aliases) (now : Nat) (hash : UInt64) : Option String := (a.registry.get now hash).1

/-- Whether a substitution of `d` has its mapping propagated. -/
def Propagates (a : Aliases) (now : Nat) (d : Endpoint) : Prop :=
  a.known? now d.hash = none ∨ a.known? now d.hash = some d.toText ∧ d.hash ∈ a.unpropagated

variable {a : Aliases} {now draw : Nat} {d : Endpoint} {h : UInt64}

theorem substitute_propagates (draw : Nat) :
    (a.substitute now draw d).1.propagates = true ↔ a.Propagates now d := by
  unfold substitute Propagates known? Endpoint.hash
  dsimp only
  rw [Store.Registry.entry_fst, Store.Registry.get_fst]
  match a.registry.live? now (Endpoint.hashText d.toText) with
  | none => simp
  | some v => simp

theorem substitute_propagates_eq_false (draw : Nat) :
    (a.substitute now draw d).1.propagates = false ↔ ¬ a.Propagates now d := by
  rw [← substitute_propagates draw, Bool.not_eq_true]

theorem not_propagates (hk : a.known? now d.hash = some d.toText) (hm : d.hash ∉ a.unpropagated) :
    ¬ a.Propagates now d := by
  intro h
  rcases h with hn | ⟨-, hu⟩
  · cases hk.symm.trans hn
  · exact hm hu

theorem mem_substitute_unpropagated (draw : Nat) :
    h ∈ (a.substitute now draw d).2.unpropagated ↔
      h ∈ a.unpropagated ∧ ¬ (a.Propagates now d ∧ h = d.hash) := by
  have hu : (a.substitute now draw d).2.unpropagated =
      if (a.substitute now draw d).1.propagates then a.unpropagated.filter (· ≠ d.hash)
      else a.unpropagated := rfl
  rw [hu]
  split <;> rename_i hq
  · rw [List.mem_filter, decide_eq_true_eq]
    have hp := (substitute_propagates draw).mp hq
    exact and_congr_right' ⟨fun hn hp => hn hp.2, fun hn he => hn ⟨hp, he⟩⟩
  · exact ⟨fun hm => ⟨hm, fun hp => hq ((substitute_propagates draw).mpr hp.1)⟩, fun hm => hm.1⟩

/-- `P` holds of every mapping that is stored, live or not. -/
def Stores (a : Aliases) (P : UInt64 → String → Prop) : Prop :=
  a.registry.All fun k e => P k e.value

namespace Stores

variable {P : UInt64 → String → Prop}

theorem substitute (hs : a.Stores P) (draw : Nat)
    (hd : a.known? now d.hash = none → P d.hash d.toText) :
    (a.substitute now draw d).2.Stores P := by
  refine Store.Registry.All.entry hs (fun e t he => he) ?_
  intro hn t
  refine hd ?_
  unfold known?
  rw [Store.Registry.get_fst]
  exact hn

theorem register (hs : a.Stores P) {real : Endpoint} (hr : P real.hash real.toText) :
    (a.register now real).2.Stores P :=
  Store.Registry.All.put hs hr fun _ => hr

theorem restore (hs : a.Stores P) (e : Endpoint) : (a.restore now e).2.Stores P := by
  unfold Aliases.restore resolve
  split
  · exact hs
  · exact Store.Registry.All.get hs (fun k e t he _ => he) _ _

end Stores

/-- Everything that is stored under a hash, live or not, is the text `v`. -/
def Says (a : Aliases) (h : UInt64) (v : String) : Prop :=
  a.registry.All fun k e => k = h → e.value = v

namespace Says

variable {v : String}

theorem of_known? (hs : a.Says h v) {w : String} (hk : a.known? now h = some w) : w = v := by
  unfold known? at hk
  rw [Store.Registry.get_fst] at hk
  obtain ⟨e, he, rfl, -⟩ := Store.Registry.All.of_live? hs hk
  exact he rfl

theorem substitute (hs : a.Says h v) (draw : Nat)
    (hd : d.hash = h → a.known? now h = none → d.toText = v) :
    (a.substitute now draw d).2.Says h v :=
  Stores.substitute (P := fun k w => k = h → w = v) hs draw fun hn hk => hd hk (hk ▸ hn)

/-- A mapping that is new leaves nothing else stored under its hash. -/
theorem substitute_of_none (hn : a.known? now d.hash = none) (draw : Nat) :
    (a.substitute now draw d).2.Says d.hash d.toText := by
  unfold known? at hn
  rw [Store.Registry.get_fst] at hn
  refine Store.Registry.All.entry_of_none ?_ hn (fun hk => rfl) fun _ hk => rfl
  exact ⟨fun p _ hne hk => absurd hk hne, fun c _ p _ hne hk => absurd hk hne⟩

theorem register (hs : a.Says h v) {real : Endpoint} (hr : real.hash = h → real.toText = v) :
    (a.register now real).2.Says h v :=
  Stores.register (P := fun k w => k = h → w = v) hs hr

end Says

theorem known?_register (a : Aliases) (now : Nat) {real : Endpoint} (ht : 0 < a.policy.ttl) :
    (a.register now real).2.known? now real.hash = some real.toText := by
  unfold known?
  rw [Store.Registry.get_fst]
  exact Store.Registry.live?_put_self _ _ _ _ ht

theorem mem_propagationFailed_unpropagated {k : UInt64} :
    h ∈ (a.propagationFailed k).unpropagated ↔ h = k ∨ h ∈ a.unpropagated := by
  unfold propagationFailed
  rw [List.mem_cons, List.mem_filter]
  by_cases hk : h = k <;> simp [hk]

end Aliases

/-- How a call has gone. -/
inductive Standing where
  | inFlight
  | succeeded
  | failed
deriving DecidableEq

/-- A call in which a collaborator is told what an alias stands for. -/
structure Call (S : Type) where
  hash : UInt64
  real : String
  support : S
  standing : Standing := .inFlight
deriving DecidableEq

/-- Aliases at some time, and all the calls that were ever started, the first one first. -/
structure Ledger (S : Type) where
  aliases : Aliases
  now : Nat := 0
  calls : List (Call S) := []

namespace Ledger

inductive Event (S : Type) where
  | wait (ms : Nat)
  | substitute (draw : Nat) (d : Endpoint) (support : S)
  /-- A connection is opened through a backend, which may take a substitution. -/
  | approach (cipher : Option CipherSettings) (draw : Nat) (d : Endpoint) (hop : Hop S)
  /-- Another node says what it will ask for. -/
  | register (real : Endpoint)
  | restore (e : Endpoint)
  | purge
  | evict (hash : UInt64)
  | settled (call : Nat) (ok : Bool)

variable {S : Type}

def ofPolicies (a : AliasPolicy) (p : Store.Policy) : Ledger S :=
  { aliases := { policy := a, registry := .ofPolicy p } }

/-- A substitution on behalf of `support`, which is called if the mapping has to be propagated. -/
def use (L : Ledger S) (draw : Nat) (d : Endpoint) (support : S) : Ledger S :=
  let (x, aliases) := L.aliases.substitute L.now draw d
  { L with
    aliases := aliases
    calls := L.calls ++ if x.propagates then [⟨x.hash, x.real, support, .inFlight⟩] else [] }

def step (L : Ledger S) : Event S → Ledger S
  | .wait ms => { L with now := L.now + ms }
  | .substitute draw d support => L.use draw d support
  | .approach cipher draw d hop =>
    let (plan, aliases) := Plan.via L.aliases cipher L.now draw d hop
    { L with
      aliases := aliases
      calls := L.calls ++
        (plan.notice.map fun (support, x) => ⟨x.hash, x.real, support, .inFlight⟩).toList }
  | .register real => { L with aliases := (L.aliases.register L.now real).2 }
  | .restore e => { L with aliases := (L.aliases.restore L.now e).2 }
  | .purge =>
    { L with aliases := { L.aliases with registry := (L.aliases.registry.purge L.now).2 } }
  | .evict hash =>
    { L with aliases := { L.aliases with registry := (L.aliases.registry.remove hash).2 } }
  | .settled k ok =>
    match L.calls[k]? with
    | none => L
    | some c =>
      if c.standing ≠ .inFlight then L
      else if ok then { L with calls := L.calls.set k { c with standing := .succeeded } }
      else
        { L with
          aliases := L.aliases.propagationFailed c.hash
          calls := L.calls.set k { c with standing := .failed } }

def run (L : Ledger S) (events : List (Event S)) : Ledger S := events.foldl step L

/-- The substitution that an event comes to: what is substituted, and on whose behalf. -/
def use? (L : Ledger S) : Event S → Option (Endpoint × S)
  | .substitute _ d support => some (d, support)
  | .approach _ _ d hop => if L.aliases.policy.hides d then hop.support.map (d, ·) else none
  | _ => none

/-- The hash of the call whose failure an event reports. -/
def failure? (L : Ledger S) : Event S → Option UInt64
  | .settled k false =>
    (L.calls[k]?).bind fun c => if c.standing = .inFlight then some c.hash else none
  | _ => none

/-- The live mapping of a hash. -/
def known? (L : Ledger S) (h : UInt64) : Option String := L.aliases.known? L.now h

section Use

variable {L : Ledger S} {draw : Nat} {d : Endpoint} {s : S} {e : Event S}

theorem step_of_use? (h : L.use? e = some (d, s)) : ∃ draw, L.step e = L.use draw d s := by
  cases e with
  | substitute draw d' s' =>
    cases h
    exact ⟨draw, rfl⟩
  | approach cipher draw d' hop =>
    simp only [use?] at h
    split at h
    · rename_i hh
      match hs : hop.support with
      | none =>
        rw [hs] at h
        cases h
      | some s' =>
        rw [hs] at h
        cases h
        refine ⟨draw, ?_⟩
        simp only [step, use, Plan.via, hs, hh, if_true]
        cases (L.aliases.substitute L.now draw d).1.propagates <;> rfl
    · cases h
  | _ => cases h

/-- A connection that takes no substitution leaves the aliases alone. -/
theorem step_approach_of_use?_eq_none {cipher : Option CipherSettings} {hop : Hop S}
    (h : L.use? (.approach cipher draw d hop) = none) :
    L.step (.approach cipher draw d hop) = L := by
  have hvia : Plan.via L.aliases cipher L.now draw d hop =
      (⟨.through cipher hop.backend d, none⟩, L.aliases) := by
    simp only [use?] at h
    unfold Plan.via
    split
    · rfl
    · rename_i s hs
      rw [hs] at h
      split at h
      · cases h
      · rename_i hh
        exact if_neg hh
  simp only [step, hvia, Option.map_none, Option.toList_none, List.append_nil]

theorem use_calls_of_propagates (h : L.aliases.Propagates L.now d) (draw : Nat) (s : S) :
    (L.use draw d s).calls = L.calls ++ [⟨d.hash, d.toText, s, .inFlight⟩] := by
  show L.calls ++ (if (L.aliases.substitute L.now draw d).1.propagates then _ else _) = _
  rw [if_pos ((Aliases.substitute_propagates draw).mpr h)]
  rfl

theorem use_calls_of_not_propagates (h : ¬ L.aliases.Propagates L.now d) (draw : Nat) (s : S) :
    (L.use draw d s).calls = L.calls := by
  show L.calls ++ (if (L.aliases.substitute L.now draw d).1.propagates then _ else _) = _
  rw [if_neg (fun hp => h ((Aliases.substitute_propagates draw).mp hp)), List.append_nil]

theorem mem_use_unpropagated {h : UInt64} : h ∈ (L.use draw d s).aliases.unpropagated ↔
    h ∈ L.aliases.unpropagated ∧ ¬ (L.aliases.Propagates L.now d ∧ h = d.hash) :=
  Aliases.mem_substitute_unpropagated draw

theorem known?_ofPolicies (a : AliasPolicy) (p : Store.Policy) (h : UInt64) :
    (ofPolicies a p : Ledger S).known? h = none := by
  unfold known? Aliases.known?
  rw [Store.Registry.get_fst]
  match hv : (ofPolicies a p : Ledger S).aliases.registry.live? _ h with
  | none => rfl
  | some v =>
    have hall : (ofPolicies a p : Ledger S).aliases.registry.All fun _ _ => False :=
      Store.Registry.All.ofPolicy p
    obtain ⟨_, hf, -⟩ := hall.of_live? hv
    exact hf.elim

/-- A mapping that a substitution creates lives, if mappings live at all. -/
theorem known?_use_of_none (hn : L.known? d.hash = none) (ht : 0 < L.aliases.policy.ttl)
    (draw : Nat) (s : S) : (L.use draw d s).known? d.hash = some d.toText := by
  unfold known? Aliases.known? at hn ⊢
  rw [Store.Registry.get_fst] at hn ⊢
  exact Store.Registry.live?_entry_of_none hn _ ht

theorem known?_register (real : Endpoint) (ht : 0 < L.aliases.policy.ttl) :
    (L.step (.register real)).known? real.hash = some real.toText :=
  L.aliases.known?_register L.now ht

end Use

/-- The news of a call counts once, while the call is in flight. -/
theorem step_settled_cases (L : Ledger S) (k : Nat) (ok : Bool) :
    (∃ c, L.failure? (.settled k ok) = some c.hash ∧ L.calls[k]? = some c ∧
      c.standing = .inFlight ∧ L.step (.settled k ok) = { L with
        aliases := L.aliases.propagationFailed c.hash
        calls := L.calls.set k { c with standing := .failed } }) ∨
    (∃ c, L.failure? (.settled k ok) = none ∧ L.calls[k]? = some c ∧
      c.standing = .inFlight ∧ L.step (.settled k ok) = { L with
        calls := L.calls.set k { c with standing := .succeeded } }) ∨
    (L.failure? (.settled k ok) = none ∧ L.step (.settled k ok) = L) := by
  match hc : L.calls[k]? with
  | none =>
    refine .inr (.inr ⟨?_, by simp only [step, hc]⟩)
    cases ok <;> simp only [failure?, hc, Option.bind_none]
  | some c =>
    by_cases hf : c.standing = .inFlight
    · cases ok with
      | false =>
        refine .inl ⟨c, ?_, rfl, hf, ?_⟩
        · simp only [failure?, hc, Option.bind_some, if_pos hf]
        · simp [step, hc, hf]
      | true =>
        refine .inr (.inl ⟨c, rfl, rfl, hf, ?_⟩)
        simp [step, hc, hf]
    · refine .inr (.inr ⟨?_, by simp [step, hc, hf]⟩)
      cases ok
      · simp only [failure?, hc, Option.bind_some, if_neg hf]
      · rfl

/-- What a step does: it comes to a substitution, it reports how a call has gone, or it starts and
settles nothing. -/
theorem step_cases (L : Ledger S) (e : Event S) :
    (∃ draw d s, L.use? e = some (d, s) ∧ L.step e = L.use draw d s) ∨
    (∃ k c, L.use? e = none ∧ L.failure? e = some c.hash ∧ L.calls[k]? = some c ∧
      c.standing = .inFlight ∧ L.step e = { L with
        aliases := L.aliases.propagationFailed c.hash
        calls := L.calls.set k { c with standing := .failed } }) ∨
    (∃ k c, L.use? e = none ∧ L.failure? e = none ∧ L.calls[k]? = some c ∧
      c.standing = .inFlight ∧
        L.step e = { L with calls := L.calls.set k { c with standing := .succeeded } }) ∨
    (L.use? e = none ∧ L.failure? e = none ∧ (L.step e).calls = L.calls ∧
      (L.step e).aliases.unpropagated = L.aliases.unpropagated) := by
  match hu : L.use? e with
  | some (d, s) =>
    obtain ⟨draw, hd⟩ := step_of_use? hu
    exact .inl ⟨draw, d, s, rfl, hd⟩
  | none =>
  refine .inr ?_
  cases e with
  | substitute draw d s => cases hu
  | wait ms => exact .inr (.inr ⟨rfl, rfl, rfl, rfl⟩)
  | register real => exact .inr (.inr ⟨rfl, rfl, rfl, rfl⟩)
  | purge => exact .inr (.inr ⟨rfl, rfl, rfl, rfl⟩)
  | evict hash => exact .inr (.inr ⟨rfl, rfl, rfl, rfl⟩)
  | restore d =>
    refine .inr (.inr ⟨rfl, rfl, rfl, ?_⟩)
    simp only [step, Aliases.restore, Aliases.resolve]
    split <;> rfl
  | approach cipher draw d hop =>
    rw [step_approach_of_use?_eq_none hu]
    exact .inr (.inr ⟨rfl, rfl, rfl, rfl⟩)
  | settled k ok =>
    rcases L.step_settled_cases k ok with ⟨c, hf, hc, hi, hstep⟩ | ⟨c, hf, hc, hi, hstep⟩ |
      ⟨hf, hstep⟩
    · exact .inl ⟨k, c, rfl, hf, hc, hi, hstep⟩
    · exact .inr (.inl ⟨k, c, rfl, hf, hc, hi, hstep⟩)
    · exact .inr (.inr ⟨rfl, hf, by rw [hstep], by rw [hstep]⟩)

/-- Every call is one that there was, for all but how it has gone, or one that a substitution has
started. -/
theorem mem_calls_step {L : Ledger S} {e : Event S} {c : Call S} (hc : c ∈ (L.step e).calls) :
    (∃ c' ∈ L.calls, c'.hash = c.hash ∧ c'.real = c.real) ∨
      ∃ d s, L.use? e = some (d, s) ∧ L.aliases.Propagates L.now d ∧
        c = ⟨d.hash, d.toText, s, .inFlight⟩ := by
  have hset : ∀ {k : Nat} {x : Call S} {standing : Standing}, L.calls[k]? = some x →
      c ∈ L.calls.set k { x with standing := standing } →
      ∃ c' ∈ L.calls, c'.hash = c.hash ∧ c'.real = c.real := by
    intro k x standing hk hc
    rcases List.mem_or_eq_of_mem_set hc with hc | rfl
    · exact ⟨c, hc, rfl, rfl⟩
    · exact ⟨x, List.mem_of_getElem? hk, rfl, rfl⟩
  rcases L.step_cases e with ⟨draw, d, s, hu, hstep⟩ | ⟨k, x, -, -, hk, -, hstep⟩ |
    ⟨k, x, -, -, hk, -, hstep⟩ | ⟨-, -, hcalls, -⟩
  · rw [hstep] at hc
    by_cases hp : L.aliases.Propagates L.now d
    · rw [use_calls_of_propagates hp, List.mem_append, List.mem_singleton] at hc
      exact hc.imp (fun hc => ⟨c, hc, rfl, rfl⟩) fun hc => ⟨d, s, hu, hp, hc⟩
    · rw [use_calls_of_not_propagates hp] at hc
      exact .inl ⟨c, hc, rfl, rfl⟩
  · rw [hstep] at hc
    exact .inl (hset hk hc)
  · rw [hstep] at hc
    exact .inl (hset hk hc)
  · exact .inl ⟨c, hcalls ▸ hc, rfl, rfl⟩

/-- What an event can make of the aliases. -/
inductive Moves (L : Ledger S) (e : Event S) : Aliases → Prop
  | uses (draw : Nat) {d : Endpoint} {s : S} : L.use? e = some (d, s) →
      Moves L e (L.aliases.substitute L.now draw d).2
  | registers {real : Endpoint} : e = .register real → Moves L e (L.aliases.register L.now real).2
  | restores (x : Endpoint) : Moves L e (L.aliases.restore L.now x).2
  | purges : Moves L e { L.aliases with registry := (L.aliases.registry.purge L.now).2 }
  | evicts (hash : UInt64) :
      Moves L e { L.aliases with registry := (L.aliases.registry.remove hash).2 }
  | fails (hash : UInt64) : Moves L e (L.aliases.propagationFailed hash)
  | stays : Moves L e L.aliases

theorem moves_step (L : Ledger S) (e : Event S) : L.Moves e (L.step e).aliases := by
  match hu : L.use? e with
  | some (d, s) =>
    obtain ⟨draw, hd⟩ := step_of_use? hu
    rw [hd]
    exact .uses draw hu
  | none =>
  cases e with
  | substitute draw d s => cases hu
  | wait ms => exact .stays
  | register real => exact .registers rfl
  | restore x => exact .restores x
  | purge => exact .purges
  | evict hash => exact .evicts hash
  | approach cipher draw d hop =>
    rw [step_approach_of_use?_eq_none hu]
    exact .stays
  | settled k ok =>
    rcases L.step_settled_cases k ok with ⟨c, -, -, -, hstep⟩ | ⟨c, -, -, -, hstep⟩ |
      ⟨-, hstep⟩
    · rw [hstep]
      exact .fails c.hash
    · rw [hstep]
      exact .stays
    · rw [hstep]
      exact .stays

/-- A step stores nothing but what a substitution or a registration maps. -/
theorem stores_step {L : Ledger S} {P : UInt64 → String → Prop} (hs : L.aliases.Stores P)
    (e : Event S)
    (hu : ∀ d s, L.use? e = some (d, s) → L.known? d.hash = none → P d.hash d.toText)
    (hr : ∀ real, e = .register real → P real.hash real.toText) :
    (L.step e).aliases.Stores P := by
  have hm := L.moves_step e
  generalize (L.step e).aliases = a at hm ⊢
  cases hm with
  | uses draw hq => exact hs.substitute draw (hu _ _ hq)
  | registers he => exact hs.register (hr _ he)
  | restores x => exact hs.restore x
  | purges => exact Store.Registry.All.purge hs _
  | evicts hash => exact Store.Registry.All.remove hs _
  | fails | stays => exact hs

/-- What is stored under a hash stays one text, unless a substitution or a registration of another
text with that hash stores that. -/
theorem stored_step {L : Ledger S} {h : UInt64} {v : String} (hs : L.aliases.Says h v) (e : Event S)
    (hu : ∀ d s, L.use? e = some (d, s) → d.hash = h → L.known? h = none → d.toText = v)
    (hr : ∀ real, e = .register real → real.hash = h → real.toText = v) :
    (L.step e).aliases.Says h v :=
  stores_step (P := fun k w => k = h → w = v) hs e (fun d s hd hn hk => hu d s hd hk (hk ▸ hn)) hr

end Ledger

end SocksChain
