import Mathlib.Logic.Relation
import SocksChain.Channel.Dialogue

/-!
Two dialogues at the two ends of a duplex that loses nothing and keeps the order. They act in any
order; a write takes any part of what it is given, a read brings any part of what is on its way, and
the end of input is found behind all that a finished end has written. A finished end is still sent
what it will not read. Where the two take turns, one message at a time, none of this makes a
difference.
-/

namespace SocksChain.Channel

variable {α β : Type}

namespace Dialogue

instance : LawfulMonad Dialogue := LawfulMonad.mk' Dialogue
  (fun d => by
    show d.bind (fun a => done a) = d
    induction d with
    | done a => rfl
    | read limit next ih => exact congrArg (Dialogue.read limit) (funext ih)
    | write b next ih => exact congrArg (Dialogue.write b) (funext ih)
    | flush next ih => exact congrArg Dialogue.flush (funext ih))
  (fun a f => rfl)
  (fun d f g => by
    show (d.bind f).bind g = d.bind fun a => (f a).bind g
    induction d with
    | done a => rfl
    | read limit next ih => exact congrArg (Dialogue.read limit) (funext ih)
    | write b next ih => exact congrArg (Dialogue.write b) (funext ih)
    | flush next ih => exact congrArg Dialogue.flush (funext ih))

def IsDone : Dialogue α → Prop
  | done _ => True
  | _ => False

/-- One thing that an end of a duplex does. `ended` says whether the other end is done; what is on
its way to this end is given before and after, and what it puts on its way to the other end. -/
inductive Acts (ended : Prop) : Dialogue α → Bytes → Dialogue α → Bytes → Bytes → Prop
  | read {limit n : Nat} {next : Except IoError Bytes → Dialogue α} {coming : Bytes} :
      0 < n → n ≤ limit → n ≤ coming.length →
      Acts ended (.read limit next) coming (next (.ok (coming.take n))) (coming.drop n) []
  | readEnd {limit : Nat} {next : Except IoError Bytes → Dialogue α} :
      ended → Acts ended (.read limit next) [] (next (.ok [])) [] []
  | write {b : Bytes} {n : Nat} {next : Except IoError Nat → Dialogue α} {coming : Bytes} :
      n ≤ b.length → (0 < n ∨ b = []) →
      Acts ended (.write b next) coming (next (.ok n)) coming (b.take n)
  | flush {next : Except IoError Unit → Dialogue α} {coming : Bytes} :
      Acts ended (.flush next) coming (next (.ok ())) coming []

end Dialogue

open Dialogue

/-- Two dialogues, and what is on its way to each of them. -/
structure Encounter (α β : Type) where
  left : Dialogue α
  right : Dialogue β
  toLeft : Bytes
  toRight : Bytes

namespace Encounter

inductive Step : Encounter α β → Encounter α β → Prop
  | left {a a' : Dialogue α} {b : Dialogue β} {x x' y sent : Bytes} :
      Acts b.IsDone a x a' x' sent → Step ⟨a, b, x, y⟩ ⟨a', b, x', y ++ sent⟩
  | right {a : Dialogue α} {b b' : Dialogue β} {x y y' sent : Bytes} :
      Acts a.IsDone b y b' y' sent → Step ⟨a, b, x, y⟩ ⟨a, b', x ++ sent, y'⟩

/-- However the ends act, they come to be done, with `P` of their results. -/
inductive Comes (P : α → β → Prop) : Encounter α β → Prop
  | finished {a : α} {b : β} {x y : Bytes} : P a b → Comes P ⟨.done a, .done b, x, y⟩
  | step {s : Encounter α β} : (∃ s', Step s s') → (∀ s', Step s s' → Comes P s') → Comes P s

theorem not_acts_done {ended : Prop} {a : α} {d : Dialogue α} {x x' sent : Bytes} :
    ¬ Acts ended (.done a) x d x' sent := nofun

theorem not_step_over {a : α} {b : β} {x y : Bytes} {s : Encounter α β} :
    ¬ Step ⟨.done a, .done b, x, y⟩ s := by
  intro h
  cases h with
  | left h => cases h
  | right h => cases h

namespace Comes

variable {P : α → β → Prop} {s t : Encounter α β}

/-- No run goes on for ever. -/
theorem acc (h : Comes P s) : Acc (fun t s => Step s t) s := by
  induction h with
  | finished _ => exact ⟨_, fun t ht => absurd ht not_step_over⟩
  | step _ _ ih => exact ⟨_, ih⟩

/-- No run gets stuck: where it can go on no further, both ends are done, with `P`. -/
theorem of_stuck (h : Comes P s) (ht : Relation.ReflTransGen Step s t)
    (hs : ∀ t', ¬ Step t t') : ∃ a b, t.left = .done a ∧ t.right = .done b ∧ P a b := by
  induction h with
  | @finished a b x y hp =>
    rcases Relation.ReflTransGen.cases_head ht with rfl | ⟨u, hu, -⟩
    · exact ⟨a, b, rfl, rfl, hp⟩
    · exact absurd hu not_step_over
  | step he _ ih =>
    rcases Relation.ReflTransGen.cases_head ht with rfl | ⟨u, hu, hut⟩
    · obtain ⟨s', hs'⟩ := he
      exact absurd hs' (hs s')
    · exact ih u hu hut

end Comes

/-- However the ends act, they come to an end, and are then done with these results. -/
structure Ends (s : Encounter α β) (a : α) (b : β) : Prop where
  finite : Acc (fun t s => Step s t) s
  results : ∀ t, Relation.ReflTransGen Step s t → (∀ t', ¬ Step t t') →
    t.left = .done a ∧ t.right = .done b

theorem Comes.ends {s : Encounter α β} {a : α} {b : β}
    (h : Comes (fun a' b' => a' = a ∧ b' = b) s) : s.Ends a b := by
  refine ⟨h.acc, fun t ht hs => ?_⟩
  obtain ⟨_, _, hl, hr, rfl, rfl⟩ := h.of_stuck ht hs
  exact ⟨hl, hr⟩

section Swap

def swap (s : Encounter α β) : Encounter β α := ⟨s.right, s.left, s.toRight, s.toLeft⟩

theorem Step.swap {s t : Encounter α β} (h : Step s t) : Step s.swap t.swap := by
  cases h with
  | left h => exact .right h
  | right h => exact .left h

theorem Comes.swap {P : α → β → Prop} {s : Encounter α β} (h : Comes P s) :
    Comes (fun b a => P a b) s.swap := by
  induction h with
  | finished hp => exact .finished hp
  | step he _ ih =>
    obtain ⟨s', hs'⟩ := he
    exact .step ⟨s'.swap, hs'.swap⟩ fun t ht => ih t.swap ht.swap

end Swap

end Encounter

/-- Sends `m`, in whatever pieces it is taken, and is then done or waits to read. -/
inductive Dialogue.Sends : Dialogue α → Bytes → Dialogue α → Prop
  | done {a : α} : Sends (.done a) [] (.done a)
  | read {limit : Nat} {next : Except IoError Bytes → Dialogue α} :
      Sends (.read limit next) [] (.read limit next)
  | flush {next : Except IoError Unit → Dialogue α} {m : Bytes} {d : Dialogue α} :
      Sends (next (.ok ())) m d → Sends (.flush next) m d
  | write {b m : Bytes} {next : Except IoError Nat → Dialogue α} {d : Dialogue α} :
      b ≠ [] → b <+: m →
      (∀ n, 0 < n → n ≤ b.length → Sends (next (.ok n)) (m.drop n) d) → Sends (.write b next) m d

/-- Reads `m`, in whatever pieces it comes; `left` of it is never read. -/
inductive Dialogue.Hears : Dialogue α → Bytes → Dialogue α → Bytes → Prop
  | all {d : Dialogue α} : Hears d [] d []
  | deaf {a : α} {m : Bytes} : Hears (.done a) m (.done a) m
  | read {limit : Nat} {next : Except IoError Bytes → Dialogue α} {m left : Bytes}
      {d : Dialogue α} : 0 < limit → m ≠ [] →
      (∀ n, 0 < n → n ≤ limit → n ≤ m.length →
        Hears (next (.ok (m.take n))) (m.drop n) d left) → Hears (.read limit next) m d left

namespace Encounter

variable {P : α → β → Prop}

/-- A flush may as well be made at once. -/
theorem Comes.flush {next : Except IoError Unit → Dialogue α} {b : Dialogue β} {x y : Bytes}
    (h : Comes P ⟨next (.ok ()), b, x, y⟩) : Comes P ⟨.flush next, b, x, y⟩ := by
  generalize hs : (⟨next (.ok ()), b, x, y⟩ : Encounter α β) = s at h
  induction h generalizing b x y with
  | @finished a b' x' y' hp =>
    refine .step ⟨_, .left .flush⟩ fun t ht => ?_
    cases ht with
    | left ha =>
      cases ha
      rw [List.append_nil, hs]
      exact .finished hp
    | right hb =>
      obtain ⟨-, rfl, -, -⟩ := Encounter.mk.inj hs
      exact absurd hb not_acts_done
  | step he hall ih =>
    subst hs
    refine .step ⟨_, .left .flush⟩ fun t ht => ?_
    cases ht with
    | left ha =>
      cases ha
      rw [List.append_nil]
      exact .step he hall
    | @right _ _ b' _ _ y' sent hb =>
      -- The other end has not seen the end of input, so it could have done the same later.
      have hb' : ∀ ended, Acts ended b y b' y' sent := by
        intro ended
        cases hb with
        | read h₁ h₂ h₃ => exact .read h₁ h₂ h₃
        | readEnd h => exact h.elim
        | write h₁ h₂ => exact .write h₁ h₂
        | flush => exact .flush
      exact ih _ (.right (hb' _)) rfl

/-- What is on its way to an end is heard, if the other end has nothing to do meanwhile. -/
theorem Comes.hear {a : Dialogue α} {b b' : Dialogue β} {y left : Bytes}
    (ha : ∀ a' x' sent, ¬ Acts False a [] a' x' sent) (hb : Hears b y b' left)
    (h : Comes P ⟨a, b', [], left⟩) : Comes P ⟨a, b, [], y⟩ := by
  induction hb with
  | all => exact h
  | deaf => exact h
  | @read limit next y left b' hl hy _ ih =>
    have hpos := List.length_pos_iff.mpr hy
    refine .step ⟨_, .right (.read Nat.one_pos hl hpos)⟩ fun t ht => ?_
    cases ht with
    | left hacts => exact absurd hacts (ha _ _ _)
    | right hacts =>
      cases hacts with
      | read h₁ h₂ h₃ => exact ih _ h₁ h₂ h₃ h
      | readEnd => exact absurd rfl hy

/-- **A message goes over, however it is cut** and whatever of it is heard before the rest is sent.
What is not heard stays on its way. -/
theorem Comes.send {a a' : Dialogue α} {b b' : Dialogue β} {m y left : Bytes} (ha : Sends a m a')
    (hb : Hears b (y ++ m) b' left) (h : Comes P ⟨a', b', [], left⟩) : Comes P ⟨a, b, [], y⟩ := by
  induction ha generalizing b y with
  | done =>
    rw [List.append_nil] at hb
    exact h.hear nofun hb
  | read =>
    rw [List.append_nil] at hb
    refine h.hear (fun a' x' sent hacts => ?_) hb
    cases hacts with
    | read h₁ _ h₃ => exact absurd h₃ (Nat.not_le.mpr h₁)
    | readEnd hf => exact hf
  | flush _ ih => exact (ih hb h).flush
  | @write c m next a' hc hp _ ih =>
    have hpos := List.length_pos_iff.mpr hc
    have hsplit : ∀ n, n ≤ c.length → (y : Bytes) → y ++ c.take n ++ m.drop n = y ++ m := by
      obtain ⟨rest, rfl⟩ := hp
      intro n hn y
      rw [List.drop_append_of_le_length hn, List.append_assoc, ← List.append_assoc (c.take n),
        List.take_append_drop]
    generalize hz : y ++ m = z at hb
    induction hb generalizing y with
    | all =>
      obtain ⟨-, rfl⟩ := List.append_eq_nil_iff.mp hz
      exact absurd (List.prefix_nil.mp hp) hc
    | @deaf b z =>
      refine .step ⟨_, .left (.write hpos (.inl Nat.one_pos))⟩ fun t ht => ?_
      cases ht with
      | right hacts => exact absurd hacts not_acts_done
      | left hacts =>
        cases hacts with
        | @write _ n _ _ hn hn' =>
          refine ih n (hn'.resolve_right hc) hn ?_ h
          rw [hsplit n hn, hz]
          exact .deaf
    | @read limit next' z left b' hl hne hhear ih' =>
      refine .step ⟨_, .left (.write hpos (.inl Nat.one_pos))⟩ fun t ht => ?_
      cases ht with
      | left hacts =>
        cases hacts with
        | @write _ n _ _ hn hn' =>
          refine ih n (hn'.resolve_right hc) hn ?_ h
          rw [hsplit n hn, hz]
          exact .read hl hne hhear
      | right hacts =>
        cases hacts with
        | readEnd hf => exact hf.elim
        | @read _ k _ _ h₁ h₂ h₃ =>
          have hk : k ≤ z.length := by
            rw [← hz, List.length_append]
            exact Nat.le_add_right_of_le h₃
          have ht : z.take k = y.take k := by rw [← hz, List.take_append_of_le_length h₃]
          have hd : y.drop k ++ m = z.drop k := by rw [← hz, List.drop_append_of_le_length h₃]
          rw [← ht, List.append_nil]
          exact ih' k h₁ h₂ hk ih h hd

/-- The end of input is found once the other end is done and all it has sent has been read. -/
theorem Comes.atEnd {a : α} {limit : Nat} {next : Except IoError Bytes → Dialogue β} {x : Bytes}
    (h : Comes P ⟨.done a, next (.ok []), x, []⟩) :
    Comes P ⟨.done a, .read limit next, x, []⟩ := by
  refine .step ⟨_, .right (.readEnd trivial)⟩ fun t ht => ?_
  cases ht with
  | left hacts => exact absurd hacts not_acts_done
  | right hacts =>
    cases hacts with
    | read h₁ _ h₃ => exact absurd h₃ (Nat.not_le.mpr h₁)
    | readEnd =>
      rw [List.append_nil]
      exact h

/-- A message that goes the other way. -/
theorem Comes.answer {a a' : Dialogue α} {b b' : Dialogue β} {m left : Bytes} (hb : Sends b m b')
    (ha : Hears a m a' left) (h : Comes P ⟨a', b', left, []⟩) : Comes P ⟨a, b, [], []⟩ :=
  (h.swap.send hb (y := []) ha).swap

end Encounter

namespace Exchange

theorem sends_writeAll {m m' : Bytes} {f : Unit → Exchange α} {d : Dialogue (Except Failure α)}
    (h : Sends (f ()) m' d) : Sends (writeAll m >>= f : Exchange α) (m ++ m') d := by
  induction hk : m.length using Nat.strongRecOn generalizing m with
  | ind k ih =>
    subst hk
    rw [writeAll]
    by_cases hm : m = []
    · rw [dif_pos hm, hm]
      exact h
    · rw [dif_neg hm]
      refine .write hm (List.prefix_append _ _) fun n hn hle => ?_
      obtain ⟨n, rfl⟩ := Nat.exists_eq_add_of_lt hn
      rw [Nat.zero_add] at hle ⊢
      rw [List.drop_append_of_le_length hle]
      exact ih _ (length_drop_succ_lt hm n) rfl

theorem sends_send (m : Bytes) {f : Unit → Exchange α} {d : Dialogue (Except Failure α)}
    (h : Sends (f ()) [] d) : Sends (send m >>= f : Exchange α) m d := by
  have hs : (send m >>= f : Exchange α) = writeAll m >>= fun _ => flush >>= f := by
    unfold send
    rw [bind_assoc]
  have hf : Sends (flush >>= f : Exchange α) [] d := by
    refine .flush ?_
    exact h
  have hw := sends_writeAll (m := m) (f := fun _ => flush >>= f) hf
  rw [List.append_nil] at hw
  rw [hs]
  exact hw

theorem hears_readOn {got m m' left : Bytes} {n : Nat} {f : Bytes → Exchange α}
    {d : Dialogue (Except Failure α)} (hm : m.length = n) (h : Hears (f (got ++ m)) m' d left) :
    Hears (readOn got n >>= f : Exchange α) (m ++ m') d left := by
  induction hk : n using Nat.strongRecOn generalizing got m n with
  | ind k ih =>
    subst hk hm
    rw [readOn]
    by_cases h0 : m.length = 0
    · rw [if_pos h0]
      rw [List.length_eq_zero_iff] at h0
      subst h0
      rw [List.append_nil] at h
      exact h
    · rw [if_neg h0]
      have hne : m ≠ [] := fun he => h0 (by rw [he]; rfl)
      refine .read (Nat.pos_of_ne_zero h0) (by simp [hne]) fun j hj hle _ => ?_
      rw [List.take_append_of_le_length hle, List.drop_append_of_le_length hle]
      have hlen : (m.take j).length = j := by
        rw [List.length_take]
        omega
      have hjoin := List.take_append_drop j m
      match ht : m.take j with
      | [] =>
        rw [ht, List.length_nil] at hlen
        omega
      | x :: t =>
        rw [ht] at hlen hjoin
        rw [List.length_cons] at hlen
        have hdrop : (m.drop j).length = m.length - (t.length + 1) := by
          rw [List.length_drop, hlen]
        refine ih _ (by omega) hdrop ?_ rfl
        rw [List.append_assoc, hjoin]
        exact h

theorem hears_readExact {m m' left : Bytes} {n : Nat} {f : Bytes → Exchange α}
    {d : Dialogue (Except Failure α)} (hm : m.length = n) (h : Hears (f m) m' d left) :
    Hears (readExact n >>= f : Exchange α) (m ++ m') d left :=
  hears_readOn hm h

theorem hears_answer {m : Bytes} {n : Nat} {f : Bytes → Exchange α} (hm : m.length = n) :
    Hears (readExact n >>= f : Exchange α) m (f m) [] := by
  have h := hears_readExact hm (.all : Hears (f m) [] (f m) [])
  rw [List.append_nil] at h
  exact h

theorem hears_readByte {x : UInt8} {m left : Bytes} {f : UInt8 → Exchange α}
    {d : Dialogue (Except Failure α)} (h : Hears (f x) m d left) :
    Hears (readByte >>= f : Exchange α) (x :: m) d left := by
  refine .read Nat.one_pos (List.cons_ne_nil _ _) fun n hn hle _ => ?_
  obtain rfl : n = 1 := by omega
  exact h

/-- Whoever is about to read exactly so many bytes sends nothing before. -/
theorem sends_readExact {n : Nat} (hn : n ≠ 0) (f : Bytes → Exchange α) :
    Sends (readExact n >>= f : Exchange α) [] (readExact n >>= f : Exchange α) := by
  unfold readExact
  rw [readOn, if_neg hn]
  exact .read

end Exchange

end SocksChain.Channel
