import SocksChain.Directory
import SocksChain.Proofs.Aliases.Ledger

/-!
Where the mappings of a node come from. A substitution and a registration derive the hash from the
text that they store, a promotion moves an entry as it is, and a call that the node's own directory
answers stores what a substitution has handed it, however late. So every text stands under its own
hash, whatever other nodes push, and an alias is restored to a text of its own hash or not at all.
-/

namespace SocksChain

namespace Store.Registry

variable {K V : Type}

/-- In neither tier of `r'` is there anything that was not there in `r`, but under `k`. -/
structure GrowsOnlyAt (k : K) (r r' : Registry K V) : Prop where
  hot : ∀ p ∈ r'.hot.table, p.1 ≠ k → p ∈ r.hot.table
  cold : ∀ c', r'.cold = some c' →
    ∃ c, r.cold = some c ∧ ∀ p ∈ c'.table, p.1 ≠ k → p ∈ c.table

theorem growsOnlyAt_put [DecidableEq K] (r : Registry K V) (now : Nat) (k : K) (v : V) (ttl : Nat) :
    GrowsOnlyAt k r (r.put now k v ttl) := by
  constructor
  · intro p hp hk
    rcases ByAge.mem_of_mem_put hp with rfl | ⟨hm, -⟩
    · exact absurd rfl hk
    · exact hm
  · intro c' hc'
    obtain ⟨c, hc, rfl⟩ := Option.map_eq_some_iff.mp hc'
    refine ⟨c, hc, fun p hp hk => ?_⟩
    rcases ByUse.mem_of_mem_put hp with rfl | ⟨hm, -⟩
    · exact absurd rfl hk
    · exact hm

end Store.Registry

theorem Aliases.resolve_fst (a : Aliases) (now : Nat) (e : Endpoint) :
    (a.resolve now e).1 = (Alias.hash? a.policy.suffix e.host).bind fun h =>
      (a.registry.live? now h).bind Endpoint.ofText? := by
  unfold resolve
  split <;> rename_i hh
  · rw [hh, Option.bind_none]
  · rw [hh, Option.bind_some, ← Store.Registry.get_fst]

theorem Directory.real_fst (d : Directory) (r : Store.Registry UInt64 String) (now : Nat)
    (host : String) :
    (d.real r now host).1 = (Alias.hash? d.suffix host).bind fun h =>
      (r.live? now h).bind Endpoint.ofText? := by
  unfold real
  split <;> rename_i hh
  · rw [hh, Option.bind_none]
  · rw [hh, Option.bind_some, ← Store.Registry.get_fst]

/-- A node's aliases, with directories of its own for collaborators. -/
abbrev HomeLedger := Ledger Directory

namespace HomeLedger

inductive Event where
  | ledger (e : Ledger.Event Directory)
  /-- A host is looked up, which may be an alias. -/
  | lookup (d : Directory) (names : Names) (host : String)

/-- A call that is in flight reaches its directory, which stores what it is told. -/
def record (L : HomeLedger) (k : Nat) : HomeLedger :=
  match L.calls[k]? with
  | none => L
  | some c =>
    if c.standing = .inFlight then
      { L with aliases := { L.aliases with
          registry := c.support.record L.aliases.registry L.now c.hash c.real } }
    else L

/-- A call that succeeds has reached its directory. -/
def step (L : HomeLedger) : Event → HomeLedger
  | .ledger (.settled k true) => Ledger.step (L.record k) (.settled k true)
  | .ledger e => Ledger.step L e
  | .lookup d names host =>
    { L with aliases := { L.aliases with
        registry := (d.resolve names L.aliases.registry L.now host).2 } }

def run (L : HomeLedger) (events : List Event) : HomeLedger := events.foldl step L

theorem step_ledger_cases (L : HomeLedger) (e : Ledger.Event Directory) :
    (∃ k, e = .settled k true ∧ L.step (.ledger e) = Ledger.step (L.record k) e) ∨
      L.step (.ledger e) = Ledger.step L e := by
  by_cases hk : ∃ k, e = .settled k true
  · obtain ⟨k, rfl⟩ := hk
    exact .inl ⟨k, rfl, rfl⟩
  · refine .inr ?_
    unfold step
    split
    · rename_i k he
      cases he
      exact absurd ⟨k, rfl⟩ hk
    · rename_i he
      cases he
      rfl
    · rename_i he
      cases he

/-- Every text that is stored, or that a collaborator has been told, stands under its own hash. -/
structure Genuine (L : HomeLedger) : Prop where
  stored : L.aliases.Stores fun h text => h = Endpoint.hashText text
  told : ∀ c ∈ L.calls, c.hash = Endpoint.hashText c.real

namespace Genuine

variable {L : HomeLedger}

theorem ofPolicies (a : AliasPolicy) (p : Store.Policy) : Genuine (Ledger.ofPolicies a p) :=
  ⟨Store.Registry.All.ofPolicy p, nofun⟩

/-- A call is told what a substitution has hashed, and how it goes does not change that. -/
theorem told_step (h : Genuine L) (e : Ledger.Event Directory) :
    ∀ c ∈ (Ledger.step L e).calls, c.hash = Endpoint.hashText c.real := by
  intro c hc
  rcases Ledger.mem_calls_step hc with ⟨x, hx, hh, hr⟩ | ⟨d, s, -, -, rfl⟩
  · rw [← hh, ← hr]
    exact h.told x hx
  · rfl

theorem ledger (h : Genuine L) (e : Ledger.Event Directory) : Genuine (Ledger.step L e) :=
  ⟨Ledger.stores_step h.stored e (fun _ _ _ _ => rfl) fun _ _ => rfl, h.told_step e⟩

/-- A call that reaches its directory late, when the mapping is long forgotten, does no harm: it
was told the text together with the hash of the text. -/
theorem record (h : Genuine L) (k : Nat) : Genuine (L.record k) := by
  unfold HomeLedger.record
  split
  · exact h
  · rename_i c hc
    split
    · have hhash := h.told c (List.mem_of_getElem? hc)
      exact ⟨Store.Registry.All.put h.stored hhash fun _ => hhash, h.told⟩
    · exact h

theorem lookup (h : Genuine L) (d : Directory) (names : Names) (host : String) :
    Genuine (L.step (.lookup d names host)) := by
  refine ⟨?_, h.told⟩
  show Store.Registry.All _ (d.real L.aliases.registry L.now host).2
  unfold Directory.real
  split
  · exact h.stored
  · exact Store.Registry.All.get h.stored (fun k e t he _ => he) _ _

theorem step (h : Genuine L) (e : Event) : Genuine (L.step e) := by
  cases e with
  | lookup d names host => exact h.lookup d names host
  | ledger e =>
    rcases L.step_ledger_cases e with ⟨k, -, hstep⟩ | hstep
    · rw [hstep]
      exact (h.record k).ledger e
    · rw [hstep]
      exact h.ledger e

theorem run (h : Genuine L) (events : List Event) : Genuine (L.run events) := by
  induction events generalizing L with
  | nil => exact h
  | cons e events ih => exact ih (h.step e)

/-- What is found under a hash has that hash. -/
theorem hash_of_live? (h : Genuine L) {now : Nat} {k : UInt64} {text : String}
    (ht : L.aliases.registry.live? now k = some text) : k = Endpoint.hashText text := by
  obtain ⟨e, he, rfl, -⟩ := Store.Registry.All.of_live? h.stored ht
  exact he

/-- What stands behind an alias is read from a text of the hash that the alias shows. -/
theorem exists_text (h : Genuine L) {now : Nat} {shown : Option UInt64} {real : Endpoint}
    (hr : (shown.bind fun k => (L.aliases.registry.live? now k).bind Endpoint.ofText?) =
      some real) :
    ∃ text, shown = some (Endpoint.hashText text) ∧ Endpoint.ofText? text = some real := by
  obtain ⟨k, rfl, hk⟩ := Option.bind_eq_some_iff.mp hr
  obtain ⟨text, ht, htext⟩ := Option.bind_eq_some_iff.mp hk
  exact ⟨text, congrArg some (h.hash_of_live? ht), htext⟩

end Genuine

/-- **No mapping is forged.** Whatever a node substitutes, restores and looks up, whatever other
nodes register, and whenever its calls are answered or what it stores is forgotten: in either tier
every text stands under its own hash. So an alias is left as it is, or restored to what is read from
a text of the hash that it shows, by the aliases of the node and by its directories; and a
registration puts nothing new under any hash but that of what is registered. -/
theorem mappings_are_genuine (a : AliasPolicy) (p : Store.Policy) (events : List Event) :
    let L := run (Ledger.ofPolicies a p) events
    let r := L.aliases.registry
    (r.All fun h e => h = Endpoint.hashText e.value) ∧
      (∀ e, (L.aliases.resolve L.now e).1 = none ∧ (L.aliases.restore L.now e).1 = e ∨
        ∃ text real, Alias.hash? L.aliases.policy.suffix e.host = some (Endpoint.hashText text) ∧
          Endpoint.ofText? text = some real ∧ (L.aliases.resolve L.now e).1 = some real ∧
          (L.aliases.restore L.now e).1 = real) ∧
      (∀ (d : Directory) host real, (d.real r L.now host).1 = some real →
        ∃ text, Alias.hash? d.suffix host = some (Endpoint.hashText text) ∧
          Endpoint.ofText? text = some real) ∧
      ∀ real : Endpoint, r.GrowsOnlyAt real.hash (L.aliases.register L.now real).2.registry := by
  intro L r
  have h : Genuine L := (Genuine.ofPolicies a p).run events
  refine ⟨h.stored, ?_, ?_, ?_⟩
  · intro e
    have hrestore : (L.aliases.restore L.now e).1 = (L.aliases.resolve L.now e).1.getD e := rfl
    match hr : (L.aliases.resolve L.now e).1 with
    | none =>
      rw [hr] at hrestore
      exact .inl ⟨rfl, hrestore⟩
    | some real =>
      rw [hr] at hrestore
      rw [Aliases.resolve_fst] at hr
      obtain ⟨text, hshown, htext⟩ := h.exists_text hr
      exact .inr ⟨text, real, hshown, htext, rfl, hrestore⟩
  · intro d host real hr
    rw [Directory.real_fst] at hr
    exact h.exists_text hr
  · intro real
    exact r.growsOnlyAt_put _ _ _ _

end HomeLedger

end SocksChain
