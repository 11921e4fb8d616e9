import SocksChain.Channel.Dialogue

/-!
What a dialogue reads while it runs. `Follows d b d'` says that `d'` can be left of `d` once `b` has
been read, whatever the channel answers otherwise; so what holds of everything that follows a
dialogue holds on every channel, ciphered or not, and however often it is left and taken up again.
-/

namespace SocksChain.Channel

/-- What an attempt to read gives. -/
def Attempt.bytes : Attempt Bytes → Bytes
  | ready b => b
  | _ => []

theorem Source.read_append_unread (s : Source) (limit : Nat) :
    (s.read limit).1.bytes ++ (s.read limit).2.unread = s.unread := by
  unfold read unread
  split <;> rename_i h
  · rw [h]
    split <;> rfl
  · rw [h]
    rfl
  · rw [h]
    rfl
  · rw [h]
    split
    · rfl
    · simp only [Attempt.bytes, List.flatMap_cons, Arrival.bytes]
      rw [← List.append_assoc, List.take_append_drop]

namespace Dialogue

variable {α β : Type}

/-- What a dialogue reads when it is run on a link. -/
def hears (d : Dialogue α) (l : Link) : Bytes :=
  match d with
  | done _ => []
  | read limit next =>
    match retry Inlet.toCome (fun i => i.read limit) l.inlet with
    | (some (.ok b), i) => b ++ (next (.ok b)).hears { l with inlet := i }
    | (some (.error e), i) => (next (.error e)).hears { l with inlet := i }
    | (none, _) => []
  | write b next =>
    match retry Outlet.toCome (fun o => o.write b) l.outlet with
    | (some r, o) => (next r).hears { l with outlet := o }
    | (none, _) => []
  | flush next =>
    match retry Outlet.toCome Outlet.flush l.outlet with
    | (some r, o) => (next r).hears { l with outlet := o }
    | (none, _) => []

inductive Follows : Dialogue α → Bytes → Dialogue α → Prop
  | here {d : Dialogue α} : Follows d [] d
  | read {limit : Nat} {next : Except IoError Bytes → Dialogue α} {b b' : Bytes}
      {d : Dialogue α} : Follows (next (.ok b)) b' d → Follows (.read limit next) (b ++ b') d
  | readFails {limit : Nat} {next : Except IoError Bytes → Dialogue α} {e : IoError} {b : Bytes}
      {d : Dialogue α} : Follows (next (.error e)) b d → Follows (.read limit next) b d
  | write {x : Bytes} {next : Except IoError Nat → Dialogue α} {r : Except IoError Nat} {b : Bytes}
      {d : Dialogue α} : Follows (next r) b d → Follows (.write x next) b d
  | flush {next : Except IoError Unit → Dialogue α} {r : Except IoError Unit} {b : Bytes}
      {d : Dialogue α} : Follows (next r) b d → Follows (.flush next) b d

/-- A run goes only where a dialogue can go, and hears what is read on the way. -/
theorem follows_run (d : Dialogue α) (l : Link) : Follows d (d.hears l) (d.run l).1 := by
  induction d generalizing l with
  | done a => exact .here
  | read limit next ih =>
    simp only [hears, run]
    match retry Inlet.toCome (fun i => i.read limit) l.inlet with
    | (some (.ok b), i) => exact .read (ih _ _)
    | (some (.error e), i) => exact .readFails (ih _ _)
    | (none, i) => exact .here
  | write b next ih =>
    simp only [hears, run]
    match retry Outlet.toCome (fun o => o.write b) l.outlet with
    | (some r, o) => exact .write (ih _ _)
    | (none, o) => exact .here
  | flush next ih =>
    simp only [hears, run]
    match retry Outlet.toCome Outlet.flush l.outlet with
    | (some r, o) => exact .flush (ih _ _)
    | (none, o) => exact .here

theorem Follows.trans {d d' d'' : Dialogue α} {b b' : Bytes} (h : Follows d b d')
    (h' : Follows d' b' d'') : Follows d (b ++ b') d'' := by
  induction h with
  | here => exact h'
  | read _ ih =>
    rw [List.append_assoc]
    exact .read (ih h')
  | readFails _ ih => exact .readFails (ih h')
  | write _ ih => exact .write (ih h')
  | flush _ ih => exact .flush (ih h')

theorem follows_done_iff {a : α} {b : Bytes} {d : Dialogue α} :
    Follows (.done a) b d ↔ b = [] ∧ d = .done a := by
  constructor
  · intro h
    cases h
    exact ⟨rfl, rfl⟩
  · intro h
    obtain ⟨rfl, rfl⟩ := h
    exact .here

/-- What follows two dialogues one after the other parts where the first one is done. -/
theorem exists_of_follows_bind {d : Dialogue α} {f : α → Dialogue β} {b : Bytes} {x : β}
    (h : Follows (d.bind f) b (.done x)) :
    ∃ a b₁ b₂, Follows d b₁ (.done a) ∧ Follows (f a) b₂ (.done x) ∧ b = b₁ ++ b₂ := by
  induction d generalizing b with
  | done a => exact ⟨a, [], b, .here, h, rfl⟩
  | read limit next ih =>
    cases h with
    | read h =>
      obtain ⟨a, b₁, b₂, h₁, h₂, rfl⟩ := ih _ h
      exact ⟨a, _, b₂, .read h₁, h₂, (List.append_assoc _ _ _).symm⟩
    | readFails h =>
      obtain ⟨a, b₁, b₂, h₁, h₂, rfl⟩ := ih _ h
      exact ⟨a, b₁, b₂, .readFails h₁, h₂, rfl⟩
  | write y next ih =>
    cases h with
    | write h =>
      obtain ⟨a, b₁, b₂, h₁, h₂, rfl⟩ := ih _ h
      exact ⟨a, b₁, b₂, .write h₁, h₂, rfl⟩
  | flush next ih =>
    cases h with
    | flush h =>
      obtain ⟨a, b₁, b₂, h₁, h₂, rfl⟩ := ih _ h
      exact ⟨a, b₁, b₂, .flush h₁, h₂, rfl⟩

end Dialogue

namespace Exchange

open Dialogue

variable {α β : Type} {b : Bytes}

theorem exists_of_follows_bind {x : Exchange α} {f : α → Exchange β} {y : β}
    (h : Follows (x >>= f : Exchange β) b (.done (.ok y))) :
    ∃ a b₁ b₂, Follows x b₁ (.done (.ok a)) ∧ Follows (f a) b₂ (.done (.ok y)) ∧ b = b₁ ++ b₂ := by
  obtain ⟨r, b₁, b₂, h₁, h₂, hb⟩ := Dialogue.exists_of_follows_bind h
  cases r with
  | error e =>
    obtain ⟨_, hd⟩ := follows_done_iff.mp h₂
    cases hd
  | ok a => exact ⟨a, b₁, b₂, h₁, h₂, hb⟩

theorem not_follows_fail {f : Failure} {y : β} :
    ¬ Follows (fail f : Exchange β) b (.done (.ok y)) := by
  intro h
  obtain ⟨_, hd⟩ := follows_done_iff.mp h
  cases hd

theorem eq_of_follows_pure {x y : β} (h : Follows (pure x : Exchange β) b (.done (.ok y))) :
    b = [] ∧ y = x := by
  obtain ⟨hb, hd⟩ := follows_done_iff.mp h
  cases hd
  exact ⟨hb, rfl⟩

theorem eq_of_follows_read {limit : Nat} {y : Bytes}
    (h : Follows (read limit) b (.done (.ok y))) : b = y := by
  cases h with
  | read h =>
    obtain ⟨rfl, hd⟩ := follows_done_iff.mp h
    cases hd
    exact List.append_nil _
  | readFails h =>
    obtain ⟨_, hd⟩ := follows_done_iff.mp h
    cases hd

theorem eq_nil_of_follows_writeAll {x : Bytes} {d : Dialogue (Except Failure Unit)}
    (h : Follows (writeAll x) b d) : b = [] := by
  induction hn : x.length using Nat.strongRecOn generalizing x with
  | ind n ih =>
    subst hn
    rw [writeAll] at h
    by_cases hx : x = []
    · rw [dif_pos hx] at h
      exact (follows_done_iff.mp h).1
    · rw [dif_neg hx] at h
      cases h with
      | here => rfl
      | @write _ _ r _ _ h =>
        rcases r with e | _ | n
        · exact (follows_done_iff.mp h).1
        · exact (follows_done_iff.mp h).1
        · exact ih _ (length_drop_succ_lt hx n) h rfl

/-- Whoever sends reads nothing. -/
theorem follows_of_follows_send {x : Bytes} {f : Unit → Exchange β} {y : β}
    (h : Follows (send x >>= f : Exchange β) b (.done (.ok y))) :
    Follows (f ()) b (.done (.ok y)) := by
  obtain ⟨_, b₁, b₂, hs, hf, rfl⟩ := exists_of_follows_bind h
  obtain ⟨_, b₃, b₄, hw, hflush, rfl⟩ := exists_of_follows_bind hs
  have h₃ : b₃ = [] := eq_nil_of_follows_writeAll hw
  have h₄ : b₄ = [] := by
    cases hflush with
    | @flush _ r _ _ h => cases r <;> exact (follows_done_iff.mp h).1
  rw [h₃, h₄]
  exact hf

end Exchange

end SocksChain.Channel
