import Mathlib.Logic.Function.Iterate
import SocksChain.Proofs.Channel.Waiting
import SocksChain.Proofs.Relay.Course

/-!
What a flow settles at. A poll that ends because a channel is not ready has used something up, or
has come to where every later poll ends as well. So after enough polls nothing changes any more, and
this is where the run of the flow ends, however many polls are made of it.
-/

namespace SocksChain.Relay

open Channel

section Waiting

variable {a : Act} {i i' : Inlet} {o o' : Outlet}

theorem Act.refusal?_of_waits (h : a.Waits) : a.refusal? = none := by
  rcases h with rfl | ⟨b, rfl⟩ | rfl | rfl <;> rfl

/-- To wait is to stay. -/
theorem Turns.eq_of_waits {f f' : Flow} (h : Turns f a f') (hw : a.Waits) : f' = f := by
  cases h with
  | waits => rfl
  | loses _ _ he => exact absurd (he.symm.trans (Act.refusal?_of_waits hw)) nofun
  | fails _ _ he => exact absurd (he.symm.trans (Act.refusal?_of_waits hw)) nofun
  | shuts _ hne =>
    rcases hw with h | ⟨b, h⟩ | h | h <;> cases h
    exact absurd rfl hne
  | _ => rcases hw with h | ⟨b, h⟩ | h | h <;> cases h

/-- No call adds to what is still to come. -/
theorem Act.Answered.toCome_le (h : a.Answered i o i' o') :
    Flow.toCome i' o' ≤ Flow.toCome i o := by
  cases a with
  | read answer =>
    obtain ⟨hread, rfl⟩ := h
    have hle := (i.toCome_read chunkLimit).1
    rw [hread] at hle
    exact Nat.add_le_add_right hle _
  | write b answer =>
    obtain ⟨hwrite, rfl⟩ := h
    have hle := o.toCome_write_le b
    rw [hwrite] at hle
    exact Nat.add_le_add_left hle _
  | flush answer =>
    obtain ⟨hflush, rfl⟩ := h
    have hle := o.toCome_flush_le
    rw [hflush] at hle
    exact Nat.add_le_add_left hle _
  | shutdown answer =>
    obtain ⟨hshut, rfl⟩ := h
    have hle := o.toCome_shutdown.1
    rw [hshut] at hle
    exact Nat.add_le_add_left hle _

/-- A call that waits uses something up, or it changes nothing. -/
theorem Act.Answered.of_waits (h : a.Answered i o i' o') (hw : a.Waits) :
    Flow.toCome i' o' < Flow.toCome i o ∨ i' = i ∧ o' = o := by
  rcases hw with rfl | ⟨b, rfl⟩ | rfl | rfl
  · obtain ⟨hread, rfl⟩ := h
    have hwait := (i.toCome_read chunkLimit).2
    rw [hread] at hwait
    exact (hwait rfl).imp (fun hlt => Nat.add_lt_add_right hlt _) fun hi => ⟨hi, rfl⟩
  · obtain ⟨hwrite, rfl⟩ := h
    have hlt := Outlet.toCome_lt_of_write b o
    rw [hwrite] at hlt
    exact .inl (Nat.add_lt_add_left (hlt rfl) _)
  · obtain ⟨hflush, rfl⟩ := h
    have hlt := Outlet.toCome_lt_of_flush o
    rw [hflush] at hlt
    exact .inl (Nat.add_lt_add_left (hlt rfl) _)
  · obtain ⟨hshut, rfl⟩ := h
    have hlt := o.toCome_shutdown.2
    rw [hshut] at hlt
    exact .inl (Nat.add_lt_add_left (hlt rfl) _)

end Waiting

namespace Lane

variable {l : Lane}

/-- A flow stops at its end and at a channel that is not ready. -/
theorem over_or_waits_of_stop (h : l.step.1 = false) :
    l.step.2.isOver = true ∨ ∃ a, l.act = some a ∧ a.Waits := by
  obtain ⟨⟨phase, active, delivered, discarded⟩, i, o⟩ := l
  unfold act isOver
  unfold step Flow.step at h ⊢
  cases phase <;> dsimp only at h ⊢
  case reading =>
    generalize i.read chunkLimit = r at h ⊢
    rcases r with ⟨_ | _ | _, i'⟩
    · cases h
    · exact .inr ⟨_, rfl, .inl rfl⟩
    · exact .inl rfl
  case writing rest size =>
    generalize o.write rest = r at h ⊢
    rcases r with ⟨_ | _ | _, o'⟩
    · cases h
    · exact .inr ⟨_, rfl, .inr (.inl ⟨_, rfl⟩)⟩
    · cases h
  case flushing size =>
    generalize o.flush = r at h ⊢
    rcases r with ⟨_ | _ | _, o'⟩
    · cases h
    · exact .inr ⟨_, rfl, .inr (.inr (.inl rfl))⟩
    · cases h
  case lastFlush =>
    generalize o.flush = r at h ⊢
    rcases r with ⟨_ | _ | _, o'⟩
    · cases h
    · exact .inr ⟨_, rfl, .inr (.inr (.inl rfl))⟩
    · exact .inl rfl
  case closing =>
    generalize o.shutdown = r at h ⊢
    rcases r with ⟨_ | _ | _, o'⟩
    · exact .inl rfl
    · exact .inr ⟨_, rfl, .inr (.inr (.inr rfl))⟩
    · exact .inl rfl
  case done => exact .inl rfl
  case failed e => exact .inl rfl

theorem toCome_step_le (l : Lane) : l.step.2.toCome ≤ l.toCome := by
  cases ha : l.act with
  | none => exact Nat.le_of_eq (by rw [step_of_over (act_eq_none_iff.mp ha)])
  | some a => exact (answered_step ha).toCome_le

theorem step_of_waits {a : Act} (ha : l.act = some a) (hw : a.Waits) :
    l.step.2.toCome < l.toCome ∨ l.step.2 = l := by
  have hf : l.step.2.1 = l.1 := (turns_step ha).eq_of_waits hw
  exact ((answered_step ha).of_waits hw).imp_right fun ⟨hi, ho⟩ => Prod.ext hf (Prod.ext hi ho)

theorem poll_of_over (h : l.isOver = true) : l.poll = l := poll_of_stop (step_of_over h)

/-- A poll ends with the flow, or it has used something up, or it is as good as all later ones. -/
theorem poll_settles (l : Lane) : l.poll.toCome ≤ l.toCome ∧
    (l.poll.isOver = true ∨ l.poll.toCome < l.toCome ∨ l.poll.poll = l.poll) := by
  induction l using poll_induction with
  | hstop l m h =>
    have hm : l.step.2 = m := congrArg Prod.snd h
    have hle := l.toCome_step_le
    have hend := over_or_waits_of_stop (congrArg Prod.fst h)
    rw [poll_of_stop h]
    rw [hm] at hle hend
    refine ⟨hle, ?_⟩
    -- Of the two ways to stop, only one that uses nothing up leaves the next poll where it is.
    rcases hend with hover | ⟨a, ha, hw⟩
    · exact .inl hover
    · have hwait := step_of_waits ha hw
      rw [hm] at hwait
      rcases hwait with hlt | rfl
      · exact .inr (.inl hlt)
      · exact .inr (.inr (poll_of_stop h))
  | hgo l m h ih =>
    have hle := l.toCome_step_le
    rw [congrArg Prod.snd h] at hle
    rw [poll_of_go h]
    refine ⟨Nat.le_trans ih.1 hle, ih.2.imp_right fun hend => ?_⟩
    exact hend.imp_left fun hlt => Nat.lt_of_lt_of_le hlt hle

/-- No poll goes on from where a run has ended. -/
theorem poll_run (l : Lane) : l.run.poll = l.run := by
  induction l using run_induction with
  | hover l h =>
    rw [run_of_over h]
    exact poll_of_over h
  | hstuck l h hle =>
    rw [run_of_le h hle]
    rcases l.poll_settles.2 with hover | hlt | hsame
    · cases h.symm.trans hover
    · exact absurd hlt (Nat.not_lt.mpr hle)
    · exact hsame
  | hmore l h hlt ih =>
    rw [run_of_lt h hlt]
    exact ih

/-- A run is some number of polls. -/
theorem exists_iterate_eq_run (l : Lane) : ∃ n, poll^[n] l = l.run := by
  induction l using run_induction with
  | hover l h => exact ⟨1, (run_of_over h).symm⟩
  | hstuck l h hle => exact ⟨1, (run_of_le h hle).symm⟩
  | hmore l h hlt ih =>
    obtain ⟨n, hn⟩ := ih
    exact ⟨n + 1, hn.trans (run_of_lt h hlt).symm⟩

/-- More polls than that make no difference. -/
theorem exists_iterate_eq_run_of_le (l : Lane) : ∃ n, ∀ k, n ≤ k → poll^[k] l = l.run := by
  obtain ⟨n, hn⟩ := l.exists_iterate_eq_run
  refine ⟨n, fun k hk => ?_⟩
  rw [← Nat.sub_add_cancel hk, Function.iterate_add_apply, hn]
  exact Function.iterate_fixed l.poll_run _

/-- Where polls stop making a difference, the run has ended. -/
theorem iterate_eq_run_of_fixed {n : Nat} (h : (poll^[n] l).poll = poll^[n] l) :
    poll^[n] l = l.run := by
  obtain ⟨k, hk⟩ := l.exists_iterate_eq_run
  calc poll^[n] l = poll^[k] (poll^[n] l) := (Function.iterate_fixed h k).symm
    _ = poll^[n] (poll^[k] l) := Function.Commute.iterate_iterate_self poll k n l
    _ = l.run := by rw [hk, Function.iterate_fixed l.poll_run]

end Lane

end SocksChain.Relay
