import SocksChain.Proofs.Channel.Faithful
import SocksChain.Proofs.Channel.Reading

/-!
Exchanges as readers of a language. Where nothing fails on either channel, an exchange that reads a
counted number of bytes at a time comes to be done, however the bytes are cut and whatever lies over
them. What it takes for a success is a language; that of two exchanges, one after the other, is made
of theirs.
-/

namespace SocksChain.Channel.Exchange

variable {α β : Type} {L M : α → Bytes → Prop}

/-- An exchange that comes to be done where nothing fails, and gives `a` exactly where what there is
to read begins with a word for `a`, which is what it takes of it. -/
def Recognizes (x : Exchange α) (L : α → Bytes → Prop) : Prop :=
  ∀ (l : Link) v said, l.inlet.Brings v → l.outlet.Carries said →
    ∃ r i o left said', Dialogue.run x l = (.done r, ⟨i, o⟩) ∧ i.Brings left ∧
      o.Carries said' ∧ ∀ a u, (r = .ok a ∧ left = u) ↔ ∃ w, L a w ∧ v = w ++ u

namespace Recognizes

theorem congr {x : Exchange α} (h : Recognizes x L) (hL : ∀ a w, L a w ↔ M a w) :
    Recognizes x M := by
  intro l v said hin hout
  obtain ⟨r, i, o, left, said', hr, hi, ho, hiff⟩ := h l v said hin hout
  refine ⟨r, i, o, left, said', hr, hi, ho, fun a u => ?_⟩
  rw [hiff]
  simp only [hL]

theorem pure (a : α) : Recognizes (Pure.pure a) fun b w => b = a ∧ w = [] := by
  intro l v said hin hout
  refine ⟨.ok a, l.inlet, l.outlet, v, said, rfl, hin, hout, fun b u => ?_⟩
  constructor
  · rintro ⟨hb, rfl⟩
    cases hb
    exact ⟨[], ⟨rfl, rfl⟩, rfl⟩
  · rintro ⟨w, ⟨rfl, rfl⟩, rfl⟩
    exact ⟨rfl, rfl⟩

theorem fail (f : Failure) : Recognizes (Exchange.fail f : Exchange α) fun _ _ => False := by
  intro l v said hin hout
  refine ⟨.error f, l.inlet, l.outlet, v, said, rfl, hin, hout, fun b u => ?_⟩
  simp

theorem readExact (n : Nat) : Recognizes (Exchange.readExact n) fun b w => w = b ∧ b.length = n := by
  intro l v said hin hout
  unfold Exchange.readExact
  by_cases hlt : v.length < n
  · obtain ⟨i, hr, hi⟩ := run_readOn_of_lt bringing_brings hin hlt []
    refine ⟨_, i, l.outlet, [], said, hr, hi, hout, fun b u => ?_⟩
    constructor
    · rintro ⟨hb, -⟩
      cases hb
    · rintro ⟨w, ⟨rfl, rfl⟩, rfl⟩
      rw [List.length_append] at hlt
      omega
  · have hle : n ≤ v.length := Nat.not_lt.mp hlt
    obtain ⟨i, hr, hi⟩ := run_readOn_of_le bringing_brings hin hle []
    refine ⟨_, i, l.outlet, _, said, hr, hi, hout, fun b u => ?_⟩
    constructor
    · rintro ⟨hb, rfl⟩
      cases hb
      exact ⟨v.take n, ⟨rfl, List.length_take_of_le hle⟩, (List.take_append_drop n v).symm⟩
    · rintro ⟨w, ⟨rfl, rfl⟩, rfl⟩
      exact ⟨by rw [List.nil_append, List.take_left], List.drop_left⟩

/-- The words of two exchanges are words of the first with words of the second behind them. -/
theorem bind {x : Exchange α} {f : α → Exchange β} {N : α → β → Bytes → Prop}
    (h : Recognizes x L) (hf : ∀ a w, L a w → Recognizes (f a) (N a)) :
    Recognizes (x >>= f) fun c w => ∃ a w₁ w₂, L a w₁ ∧ N a c w₂ ∧ w = w₁ ++ w₂ := by
  intro l v said hin hout
  obtain ⟨r, i, o, left, said', hr, hi, ho, hiff⟩ := h l v said hin hout
  match r, hr, hiff with
  | .error e, hr, hiff =>
    refine ⟨.error e, i, o, left, said', run_bind_error _ hr, hi, ho, fun c u => ?_⟩
    constructor
    · rintro ⟨hc, -⟩
      cases hc
    · rintro ⟨w, ⟨a, w₁, w₂, ha, -, rfl⟩, rfl⟩
      have hok := ((hiff a (w₂ ++ u)).mpr ⟨w₁, ha, by rw [List.append_assoc]⟩).1
      cases hok
  | .ok a, hr, hiff =>
    obtain ⟨w₁, ha, rfl⟩ := (hiff a left).mp ⟨rfl, rfl⟩
    obtain ⟨r', i', o', left', said'', hr', hi', ho', hiff'⟩ := hf a w₁ ha ⟨i, o⟩ left said' hi ho
    refine ⟨r', i', o', left', said'', (run_bind f hr).trans hr', hi', ho', fun c u => ?_⟩
    rw [hiff']
    constructor
    · rintro ⟨w₂, hc, rfl⟩
      exact ⟨_, ⟨a, w₁, w₂, ha, hc, rfl⟩, (List.append_assoc _ _ _).symm⟩
    · rintro ⟨w, ⟨a', w₁', w₂, ha', hc, rfl⟩, hv⟩
      obtain ⟨hok, rfl⟩ := (hiff a' (w₂ ++ u)).mpr ⟨w₁', ha', by rw [hv, List.append_assoc]⟩
      cases hok
      exact ⟨w₂, hc, rfl⟩

/-- Nothing is read where something is sent. -/
theorem send_bind (b : Bytes) {f : Unit → Exchange α} (h : Recognizes (f ()) L) :
    Recognizes (Exchange.send b >>= f) L := by
  intro l v said hin hout
  obtain ⟨o, hr, ho⟩ := run_send_bind carrying_carries b f hout
  rw [hr]
  exact h ⟨l.inlet, o⟩ v (said ++ b) hin ho

/-- Where every word begins with so many bytes, these may be read first. -/
theorem readExact_bind {n : Nat} {f : Bytes → Exchange α} (hL : ∀ a w, L a w → n ≤ w.length)
    (h : ∀ b, b.length = n → Recognizes (f b) fun a w => L a (b ++ w)) :
    Recognizes (Exchange.readExact n >>= f) L := by
  refine (bind (readExact n) fun b _ hb => h b hb.2).congr fun a w => ?_
  constructor
  · rintro ⟨b, _, w', ⟨rfl, -⟩, ha, rfl⟩
    exact ha
  · intro ha
    have hsplit := List.take_append_drop n w
    exact ⟨w.take n, w.take n, w.drop n, ⟨rfl, List.length_take_of_le (hL a w ha)⟩,
      hsplit.symm ▸ ha, hsplit.symm⟩

end Recognizes

end SocksChain.Channel.Exchange
