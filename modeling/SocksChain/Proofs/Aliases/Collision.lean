import SocksChain.Directory
import SocksChain.Proofs.Aliases.Agreement
import SocksChain.Proofs.Aliases.Provenance

/-!
What an alias stands for right after it was handed out. A substitution keeps the mapping that it
finds, whatever that says, and hands out its alias all the same. So the alias stands for the
destination that it replaces exactly if the hash was free, or the destination's own. A mapping that
was just recorded is not dropped to make room, as among those of one age the last one stays longest.
-/

namespace SocksChain.Aliases

/-- Whether the hash of `d` is mapped to another text. -/
def Taken (a : Aliases) (now : Nat) (d : Endpoint) : Prop :=
  ∃ text, a.known? now d.hash = some text ∧ text ≠ d.toText

variable {a : Aliases} {now draw : Nat} {d : Endpoint}

theorem known?_substitute (draw : Nat) (d : Endpoint) (ht : 0 < a.policy.ttl) :
    (a.substitute now draw d).2.known? now d.hash =
      some ((a.known? now d.hash).getD d.toText) := by
  unfold known?
  rw [Store.Registry.get_fst, Store.Registry.get_fst]
  exact (Store.Registry.live?_entry _ _ _ _ ht).trans (by rw [Store.Registry.entry_fst]; rfl)

theorem known?_getD_eq_iff :
    (a.known? now d.hash).getD d.toText = d.toText ↔ ¬ a.Taken now d := by
  unfold Taken
  match a.known? now d.hash with
  | none => simp
  | some text => simp

/-- Where every text stands under its own hash, a hash is taken only by a text of the same hash. -/
theorem Stores.exists_collision (hs : a.Stores fun h text => h = Endpoint.hashText text)
    (ht : a.Taken now d) : ∃ text, text ≠ d.toText ∧ Endpoint.hashText text = d.hash := by
  obtain ⟨text, hk, hne⟩ := ht
  unfold known? at hk
  rw [Store.Registry.get_fst] at hk
  obtain ⟨e, he, rfl, -⟩ := Store.Registry.All.of_live? hs hk
  exact ⟨e.value, hne, he.symm⟩

/-- **An alias stands for the destination that it replaces exactly if its hash is not taken.** Right
after a substitution the hash of the alias is mapped to what it was mapped to before, or else to the
text of the destination, and the alias is restored to what is read from that. Where another text
stands there the alias is handed out as well, and nobody is told. In a registry in which every text
stands under its own hash that takes two texts of one hash. -/
theorem stands_for_replaced_iff (a : Aliases) (now draw : Nat) (d : Endpoint)
    (ht : 0 < a.policy.ttl) :
    let s := (a.substitute now draw d).1
    let b := (a.substitute now draw d).2
    let text := (a.known? now d.hash).getD d.toText
    b.known? now s.hash = some text ∧
      (b.restore now s.standIn).1 = (Endpoint.ofText? text).getD s.standIn ∧
      (b.known? now s.hash = some d.toText ↔ ¬ a.Taken now d) ∧
      (a.Taken now d → s.propagates = false) ∧
      ((a.Stores fun h text => h = Endpoint.hashText text) → a.Taken now d →
        ∃ other, other ≠ d.toText ∧ Endpoint.hashText other = d.hash) := by
  intro s b text
  have hk : b.known? now s.hash = some text := known?_substitute draw d ht
  refine ⟨hk, ?_, ?_, ?_, Stores.exists_collision⟩
  · have hs : s.standIn = ⟨Alias.host b.policy.suffix s.hash, a.policy.port draw⟩ := rfl
    rw [hs, restore_alias, hk, Option.bind_some]
  · rw [hk, Option.some_inj]
    exact known?_getD_eq_iff
  · rintro ⟨other, ho, hne⟩
    rw [substitute_propagates_eq_false]
    rintro (hn | ⟨hd, -⟩)
    · cases ho.symm.trans hn
    · exact hne (Option.some.inj (ho.symm.trans hd))

/-- The first alias of a node stands for the destination that it was made for. -/
theorem first_alias_stands_for_replaced :
    let d : Endpoint := ⟨"db.example.org", 5432⟩
    let s := (Agreement.entry.substitute 0 0 d).1
    let b := (Agreement.entry.substitute 0 0 d).2
    0 < Agreement.entry.policy.ttl ∧ b.known? 0 s.hash = some "db.example.org:5432" ∧
      (b.restore 0 s.standIn).1 = d := by
  intro d s b
  have ht : 0 < Agreement.entry.policy.ttl := by decide
  obtain ⟨hk, hr, -⟩ := stands_for_replaced_iff Agreement.entry 0 0 d ht
  have hn : Agreement.entry.known? 0 d.hash = none :=
    Ledger.known?_ofPolicies (S := Unit) {} {} d.hash
  have hreal : Endpoint.ofText? d.toText = some d := by cbv
  rw [hn, Option.getD_none] at hk hr
  refine ⟨ht, hk.trans (by cbv), ?_⟩
  rw [hr, hreal, Option.getD_some]

/-- Another text has been recorded under the hash of `db.example.org:5432`. The alias of that
destination is handed out all the same, and restored to what was recorded. -/
theorem alias_of_taken_hash_misleads :
    let d : Endpoint := ⟨"db.example.org", 5432⟩
    let node := Directory.ofSuffix ".fake.internal" 600000 300000
    let a : Aliases :=
      { policy := {}, registry := node.record (.ofPolicy {}) 0 d.hash "other.example:1" }
    let s := (a.substitute 0 0 d).1
    let b := (a.substitute 0 0 d).2
    0 < a.policy.ttl ∧ s.real = "db.example.org:5432" ∧
      b.known? 0 s.hash = some "other.example:1" ∧
      (b.restore 0 s.standIn).1 = ⟨"other.example", 1⟩ := by
  intro d node a s b
  have ht : 0 < a.policy.ttl := by decide
  have hput : a.registry.live? 0 d.hash = some "other.example:1" :=
    Store.Registry.live?_put_self (.ofPolicy {}) 0 d.hash "other.example:1" (by decide)
  have hk : b.known? 0 d.hash = some "other.example:1" := by
    refine (known?_substitute 0 d ht).trans ?_
    unfold known?
    rw [Store.Registry.get_fst, hput, Option.getD_some]
  have hs : s.standIn = ⟨Alias.host b.policy.suffix d.hash, a.policy.port 0⟩ := rfl
  have hother : Endpoint.ofText? "other.example:1" = some ⟨"other.example", 1⟩ := by cbv
  refine ⟨ht, (substitute_real a 0 0 d).trans (by cbv), hk, ?_⟩
  rw [hs, restore_alias, hk, Option.bind_some, hother, Option.getD_some]

end SocksChain.Aliases
