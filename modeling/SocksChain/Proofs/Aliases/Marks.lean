import SocksChain.Proofs.Aliases.Ledger
import SocksChain.Proofs.Store.Capacity

/-!
What is marked as not propagated. A mark stands for a failed propagation and goes when a substitution
has the mapping propagated again; it does not go with the mapping. So the marks are exactly the
hashes that have failed since they were last propagated, and there may be more of them than the
registry has room for, by those mappings that it has dropped in the meantime.
-/

namespace SocksChain

instance (a : Aliases) (now : Nat) (d : Endpoint) : Decidable (a.Propagates now d) :=
  inferInstanceAs (Decidable (_ ∨ _))

namespace Ledger

variable {S : Type}

/-- The hashes that are mapped, in either tier, live or not. -/
def mapped (L : Ledger S) : Finset UInt64 := L.aliases.registry.keys

/-- The hash of what an event substitutes, if it is something with `P`. -/
def substituted (L : Ledger S) (e : Event S) (P : Endpoint → Prop) [DecidablePred P] :
    Finset UInt64 :=
  (L.use? e).elim ∅ fun (d, _) => if P d then {d.hash} else ∅

/-- The hash that an event has propagated. -/
def propagated (L : Ledger S) (e : Event S) : Finset UInt64 :=
  L.substituted e (L.aliases.Propagates L.now)

/-- The hash under which a substitution stores a mapping. -/
def founded (L : Ledger S) (e : Event S) : Finset UInt64 :=
  L.substituted e fun d => L.known? d.hash = none

/-- The hash of the call whose failure an event reports. -/
def failed (L : Ledger S) (e : Event S) : Finset UInt64 := (L.failure? e).elim ∅ ({·})

/-- The hashes whose mappings an event has forgotten, be it for age, for room or on demand. -/
def dropped (L : Ledger S) (e : Event S) : Finset UInt64 :=
  (L.mapped ∪ L.founded e) \ (L.step e).mapped

/-- The hashes to which something has occurred since they were last propagated, or before all that
if they are not propagated at all. -/
def since (occurs : Ledger S → Event S → Finset UInt64) (L : Ledger S) (before : Finset UInt64) :
    List (Event S) → Finset UInt64
  | [] => before
  | e :: events => since occurs (L.step e) (before \ L.propagated e ∪ occurs L e) events

variable {L : Ledger S} {e : Event S} {h : UInt64} {F D : Finset UInt64}

theorem mem_substituted {P : Endpoint → Prop} [DecidablePred P] : h ∈ L.substituted e P ↔
    ∃ d s, L.use? e = some (d, s) ∧ P d ∧ h = d.hash := by
  unfold substituted
  match hu : L.use? e with
  | none => simp
  | some (d, s) => by_cases hp : P d <;> simp [hp]

theorem mem_failed : h ∈ L.failed e ↔ L.failure? e = some h := by
  unfold failed
  match L.failure? e with
  | none => simp
  | some k => simp [eq_comm]

theorem failure?_of_use? {d : Endpoint} {s : S} (hu : L.use? e = some (d, s)) :
    L.failure? e = none := by
  cases e with
  | settled k ok => cases hu
  | _ => rfl

theorem mem_propagated {d : Endpoint} {s : S} (hu : L.use? e = some (d, s)) :
    h ∈ L.propagated e ↔ L.aliases.Propagates L.now d ∧ h = d.hash := by
  refine mem_substituted.trans ⟨?_, fun hp => ⟨d, s, hu, hp⟩⟩
  rintro ⟨x, t, hx, hp⟩
  cases hu.symm.trans hx
  exact hp

theorem not_mem_propagated (hu : L.use? e = none) : h ∉ L.propagated e := by
  intro hh
  obtain ⟨d, s, hs, -⟩ := mem_substituted.1 hh
  cases hu.symm.trans hs

/-- Only a failure sets a mark, and only a propagation takes one away. -/
theorem mem_unpropagated_step : h ∈ (L.step e).aliases.unpropagated ↔
    h ∈ L.aliases.unpropagated ∧ h ∉ L.propagated e ∨ h ∈ L.failed e := by
  rw [mem_failed]
  rcases L.step_cases e with ⟨draw, d, s, hu, hstep⟩ | ⟨k, c, hu, hf, -, -, hstep⟩ |
    ⟨k, c, hu, hf, -, -, hstep⟩ | ⟨hu, hf, -, hmarks⟩
  · rw [hstep, mem_use_unpropagated, mem_propagated hu, failure?_of_use? hu]
    simp
  · rw [hstep, hf, Aliases.mem_propagationFailed_unpropagated]
    simp [not_mem_propagated hu, or_comm, eq_comm]
  · rw [hstep, hf]
    simp [not_mem_propagated hu]
  · rw [hmarks, hf]
    simp [not_mem_propagated hu]

theorem nodup_unpropagated_step (hn : L.aliases.unpropagated.Nodup) (e : Event S) :
    (L.step e).aliases.unpropagated.Nodup := by
  rcases L.step_cases e with ⟨draw, d, s, -, hstep⟩ | ⟨k, c, -, -, -, -, hstep⟩ |
    ⟨k, c, -, -, -, -, hstep⟩ | ⟨-, -, -, hmarks⟩
  · have hu : (L.use draw d s).aliases.unpropagated =
        if (L.aliases.substitute L.now draw d).1.propagates then
          L.aliases.unpropagated.filter (· ≠ d.hash)
        else L.aliases.unpropagated := rfl
    rw [hstep, hu]
    split
    · exact hn.filter _
    · exact hn
  · rw [hstep]
    exact List.nodup_cons.2 ⟨by simp, hn.filter _⟩
  · rw [hstep]
    exact hn
  · rw [hmarks]
    exact hn

theorem exists_of_failure? (hf : L.failure? e = some h) : ∃ c ∈ L.calls, c.hash = h := by
  rcases L.step_cases e with ⟨draw, d, s, hu, -⟩ | ⟨k, c, -, hf', hk, -⟩ | ⟨k, c, -, hf', -⟩ |
    ⟨-, hf', -⟩
  · cases (failure?_of_use? hu).symm.trans hf
  · exact ⟨c, List.mem_of_getElem? hk, Option.some.inj (hf'.symm.trans hf)⟩
  · cases hf'.symm.trans hf
  · cases hf'.symm.trans hf

/-! ## Marks and mappings -/

/-- What is propagated is there to be propagated. -/
theorem propagated_subset (L : Ledger S) (e : Event S) :
    L.propagated e ⊆ L.mapped ∪ L.founded e := by
  intro h hh
  obtain ⟨d, s, hu, hp, rfl⟩ := mem_substituted.1 hh
  rcases hp with hn | ⟨hk, -⟩
  · exact Finset.mem_union_right _ (mem_substituted.2 ⟨d, s, hu, hn, rfl⟩)
  · refine Finset.mem_union_left _ ?_
    unfold Aliases.known? at hk
    rw [Store.Registry.get_fst] at hk
    exact Store.Registry.mem_keys_of_live? hk

theorem mapped_or_dropped (hs : h ∈ L.mapped ∪ L.founded e) (D : Finset UInt64) :
    h ∈ (L.step e).mapped ∪ (D \ L.propagated e ∪ L.dropped e) := by
  by_cases hm : h ∈ (L.step e).mapped
  · exact Finset.mem_union_left _ hm
  · exact Finset.mem_union_right _ (Finset.mem_union_right _ (Finset.mem_sdiff.2 ⟨hs, hm⟩))

/-- What is mapped, or was dropped since it was last propagated, remains so. -/
theorem mapped_or_dropped_step (hh : h ∈ L.mapped ∪ D) (e : Event S) :
    h ∈ (L.step e).mapped ∪ (D \ L.propagated e ∪ L.dropped e) := by
  rcases Finset.mem_union.1 hh with hh | hh
  · exact mapped_or_dropped (Finset.mem_union_left _ hh) D
  · by_cases hp : h ∈ L.propagated e
    · exact mapped_or_dropped (L.propagated_subset e hp) D
    · refine Finset.mem_union_right _ (Finset.mem_union_left _ ?_)
      exact Finset.mem_sdiff.2 ⟨hh, hp⟩

theorem fits_step {p : Store.Policy} (hf : L.aliases.registry.Fits p) (e : Event S) :
    (L.step e).aliases.registry.Fits p := by
  have hm := L.moves_step e
  generalize (L.step e).aliases = a at hm ⊢
  cases hm with
  | uses => exact hf.entry _ _ _ _
  | registers => exact hf.put _ _ _ _
  | restores x =>
    unfold Aliases.restore Aliases.resolve
    dsimp only
    split
    · exact hf
    · exact hf.get _ _
  | purges => exact hf.purge _
  | evicts hash => exact hf.remove _
  | fails | stays => exact hf

/-- The marks are the hashes `F`, each of them once, and whatever a call was started for is mapped
or one of `D`. -/
structure Marked (L : Ledger S) (F D : Finset UInt64) : Prop where
  once : L.aliases.unpropagated.Nodup
  marks : ∀ h, h ∈ L.aliases.unpropagated ↔ h ∈ F
  marked : ∀ h ∈ F, h ∈ L.mapped ∪ D
  called : ∀ c ∈ L.calls, c.hash ∈ L.mapped ∪ D

namespace Marked

theorem ofPolicies (a : AliasPolicy) (p : Store.Policy) :
    Marked (ofPolicies a p : Ledger S) ∅ ∅ :=
  ⟨List.nodup_nil, fun h => by simp [Ledger.ofPolicies], nofun, nofun⟩

theorem step (hm : Marked L F D) (e : Event S) :
    Marked (L.step e) (F \ L.propagated e ∪ L.failed e) (D \ L.propagated e ∪ L.dropped e) := by
  refine ⟨nodup_unpropagated_step hm.once e, fun h => ?_, fun h hh => ?_, fun c hc => ?_⟩
  · rw [mem_unpropagated_step, Finset.mem_union, Finset.mem_sdiff, hm.marks]
  · rcases Finset.mem_union.1 hh with hh | hh
    · exact mapped_or_dropped_step (hm.marked h (Finset.mem_sdiff.1 hh).1) e
    · obtain ⟨c, hc, rfl⟩ := exists_of_failure? (mem_failed.1 hh)
      exact mapped_or_dropped_step (hm.called c hc) e
  · rcases mem_calls_step hc with ⟨c', hc', heq, -⟩ | ⟨d, s, hu, hp, rfl⟩
    · rw [← heq]
      exact mapped_or_dropped_step (hm.called c' hc') e
    · exact mapped_or_dropped (L.propagated_subset e ((mem_propagated hu).2 ⟨hp, rfl⟩)) D

theorem run (hm : Marked L F D) (events : List (Event S)) :
    Marked (L.run events) (L.since failed F events) (L.since dropped D events) := by
  induction events generalizing L F D with
  | nil => exact hm
  | cons e events ih => exact ih (hm.step e)

end Marked

theorem fits_run {p : Store.Policy} (hf : L.aliases.registry.Fits p) (events : List (Event S)) :
    (L.run events).aliases.registry.Fits p := by
  induction events generalizing L with
  | nil => exact hf
  | cons e events ih => exact ih (fits_step hf e)

/-- **Marks outlive their mappings.** Whatever is substituted, registered and restored, however
propagations go, and whatever is forgotten: the hashes that are marked are exactly those of which a
propagation has failed since a substitution last had them propagated, each of them once. Every one
of them is mapped, unless the registry has dropped the mapping since then; so there are no more of
them than the registry has room for and such mappings together. -/
theorem marks_outlive_mappings (a : AliasPolicy) (p : Store.Policy) (events : List (Event S)) :
    let start : Ledger S := ofPolicies a p
    let L := start.run events
    let marks := L.aliases.unpropagated
    let lost := start.since dropped ∅ events
    marks.toFinset = start.since failed ∅ events ∧ marks.Nodup ∧
      marks.toFinset ⊆ L.mapped ∪ lost ∧ L.mapped.card ≤ p.room ∧
      marks.length ≤ p.room + lost.card := by
  intro start L marks lost
  have hm : Marked L (start.since failed ∅ events) lost := (Marked.ofPolicies a p).run events
  have hmarks : marks.toFinset = start.since failed ∅ events := by
    ext h
    rw [List.mem_toFinset]
    exact hm.marks h
  have hsub : marks.toFinset ⊆ L.mapped ∪ lost := by
    rw [hmarks]
    exact hm.marked
  have hroom : L.mapped.card ≤ p.room :=
    (fits_run (Store.Registry.Fits.ofPolicy p) events).card_keys_le
  refine ⟨hmarks, hm.once, hsub, hroom, ?_⟩
  calc marks.length
      = marks.toFinset.card := (List.toFinset_card_of_nodup hm.once).symm
    _ ≤ (L.mapped ∪ lost).card := Finset.card_le_card hsub
    _ ≤ L.mapped.card + lost.card := Finset.card_union_le _ _
    _ ≤ p.room + lost.card := Nat.add_le_add_right hroom _

/-- Two propagations have failed, and there is room for one mapping: nothing is under way any more,
and there are two marks, one of them for a mapping that is gone. -/
theorem two_marks_for_one_mapping :
    let p : Store.Policy := { hotCapacity := 1 }
    let x : Endpoint := ⟨"a.example", 1⟩
    let y : Endpoint := ⟨"b.example", 2⟩
    let L := (ofPolicies {} p : Ledger Unit).run
      [.substitute 0 x (), .settled 0 false, .substitute 0 y (), .settled 1 false]
    p.room = 1 ∧ (∀ c ∈ L.calls, c.standing ≠ .inFlight) ∧ x.hash ∈ L.aliases.unpropagated ∧
      x.hash ∉ L.mapped ∧ L.aliases.unpropagated.length = 2 := by
  decide +kernel

end Ledger

end SocksChain
