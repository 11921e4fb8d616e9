import SocksChain.Proofs.Channel.Saying

/-!
What an exchange can fail with. `Blames P x` says that `P` holds of whatever `x` fails with, however
the channel answers. Sending and reading fail with errors of the channel only.
-/

namespace SocksChain.Channel.Exchange

open Dialogue

variable {α β : Type} {P : Failure → Prop}

def Blames (P : Failure → Prop) (x : Exchange α) : Prop :=
  ∀ ⦃heard said f⦄, Talks x heard said (.done (.error f)) → P f

theorem blames_pure (a : α) : Blames P (pure a : Exchange α) := by
  intro heard said f h
  cases h

theorem blames_fail {f : Failure} (hf : P f) : Blames P (fail f : Exchange α) := by
  intro heard said f' h
  cases h
  exact hf

theorem Blames.bind {x : Exchange α} {f : α → Exchange β} (hx : Blames P x)
    (hf : ∀ a, Blames P (f a)) : Blames P (x >>= f) := by
  intro heard said e h
  rcases Dialogue.talks_bind h with ⟨rest, hr, hd⟩ | ⟨r, h₁, h₂, s₁, s₂, hr, hn, rfl, rfl⟩
  · match rest with
    | .done (.ok a) =>
      have hn : Talks (f a) [] [] (.done (.error e)) := by
        rw [hd]
        exact .here
      exact hf a hn
    | .done (.error e') =>
      cases hd
      exact hx hr
    | .read limit next => cases hd
    | .write b next => cases hd
    | .flush next => cases hd
  · match r with
    | .ok a => exact hf a hn
    | .error e' =>
      cases hn
      exact hx hr

section

variable (hio : ∀ e, P (.io e))

include hio

theorem blames_writeAll (b : Bytes) : Blames P (writeAll b) := by
  intro heard said f h
  induction hn : b.length using Nat.strongRecOn generalizing b said with
  | ind k ih =>
    subst hn
    rw [writeAll] at h
    by_cases hb : b = []
    · rw [dif_pos hb] at h
      cases h
    · rw [dif_neg hb] at h
      cases h with
      | writeFails h => exact blames_fail (hio _) h
      | @write _ _ n _ _ _ h =>
        cases n with
        | zero => exact blames_fail (hio _) h
        | succ n => exact ih _ (length_drop_succ_lt hb n) _ h rfl

theorem blames_flush : Blames P flush := by
  intro heard said f h
  cases h with
  | @flush _ r _ _ _ h =>
    cases r with
    | ok _ => cases h
    | error e =>
      cases h
      exact hio e

theorem blames_send (b : Bytes) : Blames P (send b) :=
  (blames_writeAll hio b).bind fun _ => blames_flush hio

theorem blames_readOn (got : Bytes) (n : Nat) : Blames P (readOn got n) := by
  intro heard said f h
  induction hn : n using Nat.strongRecOn generalizing got n heard with
  | ind k ih =>
    subst hn
    rw [readOn] at h
    by_cases h0 : n = 0
    · rw [if_pos h0] at h
      cases h
    · rw [if_neg h0] at h
      cases h with
      | readFails h => exact blames_fail (hio _) h
      | @read _ _ b _ _ _ h =>
        cases b with
        | nil => exact blames_fail (hio _) h
        | cons x b => exact ih _ (by omega) _ _ h rfl

theorem blames_readExact (n : Nat) : Blames P (readExact n) := blames_readOn hio [] n

end

end SocksChain.Channel.Exchange
