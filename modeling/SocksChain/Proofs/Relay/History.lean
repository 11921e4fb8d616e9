import SocksChain.Proofs.Relay.Course

/-!
What the calls of a flow have been, by the phase they have led to. Until the input has ended nothing
is shut down; then the last flush is asked for until it is answered, and only its success is
followed by a shutdown. A flow that fails does so on its last call. And a flow whose receiver has
gone does nothing but read.
-/

namespace SocksChain.Relay

open Channel

/-- Nothing has been shut down yet. -/
def Unshut (acts : List Act) : Prop := ∀ answer, Act.shutdown answer ∉ acts

/-- The input has ended, and the last flush has not been answered yet. -/
def AtEnd (acts : List Act) : Prop :=
  ∃ front waits, acts = front ++ .read (.ready []) :: waits ∧ Unshut front ∧
    ∀ a ∈ waits, a = .flush .notReady

theorem Unshut.concat {acts : List Act} {a : Act} (h : Unshut acts)
    (ha : ∀ answer, a ≠ .shutdown answer) : Unshut (acts ++ [a]) := by
  intro answer hm
  rcases List.mem_append.mp hm with hm | hm
  · exact h answer hm
  · exact ha answer (List.mem_singleton.mp hm).symm

theorem Unshut.atEnd {acts : List Act} (h : Unshut acts) : AtEnd (acts ++ [.read (.ready [])]) :=
  ⟨acts, [], rfl, h, nofun⟩

theorem AtEnd.wait {acts : List Act} (h : AtEnd acts) : AtEnd (acts ++ [.flush .notReady]) := by
  obtain ⟨front, waits, rfl, hf, hw⟩ := h
  refine ⟨front, waits ++ [.flush .notReady], by simp, hf, fun a ha => ?_⟩
  rcases List.mem_append.mp ha with ha | ha
  · exact hw a ha
  · exact List.mem_singleton.mp ha

/-- What the calls have been that have led a flow to where it is. -/
def History (acts : List Act) (f : Flow) : Prop :=
  match f.phase with
  | .reading => Unshut acts
  | .writing _ _ => Unshut acts
  | .flushing _ => Unshut acts
  | .lastFlush => f.active = true ∧ AtEnd acts
  | .closing => f.active = true ∧ ∃ front tries, acts = front ++ .flush (.ready ()) :: tries ∧
      AtEnd front ∧ ∀ a ∈ tries, a = .shutdown .notReady
  | .done =>
    (f.active = true ∧ ∃ front tries answer,
      acts = front ++ .flush (.ready ()) :: (tries ++ [.shutdown answer]) ∧ AtEnd front ∧
      ∀ a ∈ tries, a = .shutdown .notReady) ∨
    (f.active = false ∧ ∃ front, acts = front ++ [.read (.ready [])] ∧ Unshut front)
  | .failed e =>
    (∃ front a, acts = front ++ [a] ∧
      (a = .read (.failed e) ∨ a.refusal? = some e ∧ e.kind.peerGone = false)) ∨
    ∃ front, acts = front ++ [.flush (.failed e)] ∧ AtEnd front

section Turning

variable {acts : List Act} {f f' : Flow} {a : Act}

theorem History.wait (h : History acts f) (hc : f.phase.Calls a) (hw : a.Waits) :
    History (acts ++ [a]) f := by
  obtain ⟨phase, active, delivered, discarded⟩ := f
  rcases hw with rfl | ⟨b, rfl⟩ | rfl | rfl <;> cases phase <;>
    simp only [Phase.Calls] at hc <;> simp only [History] at h ⊢
  · exact h.concat nofun
  · exact h.concat nofun
  · exact h.concat nofun
  · exact ⟨h.1, h.2.wait⟩
  · obtain ⟨ha, front, tries, rfl, hf, ht⟩ := h
    refine ⟨ha, front, tries ++ [.shutdown .notReady], by simp, hf, fun a ha => ?_⟩
    rcases List.mem_append.mp ha with ha | ha
    · exact ht a ha
    · exact List.mem_singleton.mp ha

theorem unshut_of_chunk {size : Nat} (h : History acts f) (hs : f.phase.chunk? = some size) :
    Unshut acts := by
  obtain ⟨phase, active, delivered, discarded⟩ := f
  cases phase <;> first | exact h | cases hs

theorem ne_shutdown_of_refusal {e : IoError} (h : a.refusal? = some e) (answer : Attempt Unit) :
    a ≠ .shutdown answer := by
  rintro rfl
  cases h

/-- A turn goes on with the history. -/
theorem History.turn (h : History acts f) (ht : Turns f a f') : History (acts ++ [a]) f' := by
  have hphase : ∀ p, f.phase = p → History acts { f with phase := p } := fun p hp => hp ▸ h
  cases ht with
  | waits hc hw => exact h.wait hc hw
  | breaks => exact .inl ⟨acts, _, rfl, .inl rfl⟩
  | ends hp ha => exact ⟨ha, (hphase _ hp).atEnd⟩
  | stops hp ha => exact .inr ⟨ha, acts, rfl, hphase _ hp⟩
  | takes hp => exact (hphase _ hp).concat nofun
  | @drops b hp =>
    unfold History
    rw [hp]
    exact (hphase _ hp).concat nofun
  | writes hp => exact (hphase _ hp).concat nofun
  | written hp => exact (hphase _ hp).concat nofun
  | delivers hp => exact (hphase _ hp).concat nofun
  | loses _ hs he => exact (unshut_of_chunk h hs).concat (ne_shutdown_of_refusal he)
  | fails _ _ he hg => exact .inl ⟨acts, a, rfl, .inr ⟨he, hg⟩⟩
  | settles hp =>
    obtain ⟨ha, hend⟩ := hphase _ hp
    exact ⟨ha, acts, [], rfl, hend, nofun⟩
  | cut hp => exact .inr ⟨acts, rfl, (hphase _ hp).2⟩
  | @shuts answer hp =>
    obtain ⟨ha, front, tries, rfl, hend, ht⟩ := hphase _ hp
    exact .inl ⟨ha, front, tries, answer, by simp, hend, ht⟩

/-- A flow that is done has asked for a shutdown just if its receiver was still there. -/
theorem History.shutdown_iff (h : History acts f) (hd : f.phase = .done) :
    (∃ answer, .shutdown answer ∈ acts) ↔ f.active = true := by
  unfold History at h
  rw [hd] at h
  rcases h with ⟨ha, front, tries, answer, rfl, -⟩ | ⟨ha, front, rfl, hunshut⟩
  · exact iff_of_true ⟨answer, by simp⟩ ha
  · refine iff_of_false ?_ (by simp [ha])
    rintro ⟨answer, hshut⟩
    rcases List.mem_append.mp hshut with hm | hm
    · exact hunshut answer hm
    · cases List.mem_singleton.mp hm

/-- Then nothing but shutdowns follows the last flush, which has succeeded. -/
theorem History.closing (h : History acts f) (hd : f.phase = .done) (ha : f.active = true) :
    ∃ front tries, acts = front ++ .flush (.ready ()) :: tries ∧ AtEnd front ∧
      ∀ a ∈ tries, ∃ answer, a = .shutdown answer := by
  unfold History at h
  rw [hd] at h
  rcases h with ⟨-, front, tries, answer, rfl, hend, ht⟩ | ⟨hinactive, -⟩
  · refine ⟨front, _, rfl, hend, fun a hm => ?_⟩
    rcases List.mem_append.mp hm with hm | hm
    · exact ⟨_, ht a hm⟩
    · exact ⟨answer, List.mem_singleton.mp hm⟩
  · cases ha.symm.trans hinactive

/-- The receiver of a flow has gone, and nothing is on its way to it. -/
def Idle (f : Flow) : Prop := f.active = false ∧ (f.phase = .reading ∨ f.phase.isOver = true)

theorem Idle.chunk?_eq_none (h : Idle f) : f.phase.chunk? = none := by
  rcases h.2 with hp | hp
  · rw [hp]
    rfl
  · cases hf : f.phase <;> rw [hf] at hp <;> first | rfl | cases hp

/-- Such a flow reads, and that is all. -/
theorem Idle.turn (h : Idle f) (ht : Turns f a f') : (∃ answer, a = .read answer) ∧ Idle f' := by
  have hphase : ∀ p, f.phase = p → p = .reading ∨ p.isOver = true := fun p hp => hp ▸ h.2
  cases ht with
  | waits hc hw =>
    refine ⟨?_, h⟩
    rcases h.2 with hp | hp
    · rw [hp] at hc
      rcases hw with rfl | ⟨b, rfl⟩ | rfl | rfl
      · exact ⟨_, rfl⟩
      all_goals cases hc
    · cases hf : f.phase <;> rw [hf] at hp hc <;> cases hp <;> cases hc
  | breaks => exact ⟨⟨_, rfl⟩, h.1, .inr rfl⟩
  | ends _ ha => exact absurd (ha.symm.trans h.1) nofun
  | stops => exact ⟨⟨_, rfl⟩, h.1, .inr rfl⟩
  | takes _ ha => exact absurd (ha.symm.trans h.1) nofun
  | drops hp => exact ⟨⟨_, rfl⟩, h.1, .inl hp⟩
  | writes hp => rcases hphase _ hp with hq | hq <;> cases hq
  | written hp => rcases hphase _ hp with hq | hq <;> cases hq
  | delivers hp => rcases hphase _ hp with hq | hq <;> cases hq
  | loses _ hs => exact absurd (hs.symm.trans h.chunk?_eq_none) nofun
  | fails _ hs => exact absurd (hs.symm.trans h.chunk?_eq_none) nofun
  | settles hp => rcases hphase _ hp with hq | hq <;> cases hq
  | cut hp => rcases hphase _ hp with hq | hq <;> cases hq
  | shuts hp => rcases hphase _ hp with hq | hq <;> cases hq

end Turning

namespace Lane.Course

variable {l m : Lane} {acts : List Act}

theorem history (h : l.Course acts m) (hl : l.1.phase = .reading) : History acts m.1 := by
  refine h.induct (P := History) ?_ fun _ _ _ _ => History.turn
  unfold History
  rw [hl]
  exact nofun

/-- Once its receiver has gone a flow only reads, and leaves that channel alone. -/
theorem of_idle (h : l.Course acts m) (hl : Idle l.1) :
    (∀ a ∈ acts, ∃ answer, a = .read answer) ∧ Idle m.1 ∧ m.2.2 = l.2.2 := by
  induction h with
  | start => exact ⟨nofun, hl, rfl⟩
  | next h ha ih =>
    obtain ⟨hreads, hm, ho⟩ := ih
    obtain ⟨⟨answer, rfl⟩, hidle⟩ := hm.turn (turns_step ha)
    refine ⟨fun a hmem => ?_, hidle, (answered_step ha).2.trans ho⟩
    rcases List.mem_append.mp hmem with hmem | hmem
    · exact hreads a hmem
    · exact ⟨answer, List.mem_singleton.mp hmem⟩

end Lane.Course

end SocksChain.Relay
