import SocksChain.Proofs.Channel.Hearing
import SocksChain.Proofs.Channel.Sending

/-!
What a dialogue reads and writes while it runs. `Talks d heard said d'` says that `d'` can be left
of `d` once `heard` has been read and `said` has been taken, whatever the channel answers otherwise.
A dialogue may be left and taken up again as often as its channel is not ready.
-/

namespace SocksChain.Channel

namespace Dialogue

variable {α β : Type}

/-- What is taken of a dialogue when it is run on a link. -/
def tells (d : Dialogue α) (l : Link) : Bytes :=
  match d with
  | done _ => []
  | read limit next =>
    match retry Inlet.toCome (fun i => i.read limit) l.inlet with
    | (some r, i) => (next r).tells { l with inlet := i }
    | (none, _) => []
  | write b next =>
    match retry Outlet.toCome (fun o => o.write b) l.outlet with
    | (some (.ok n), o) => b.take n ++ (next (.ok n)).tells { l with outlet := o }
    | (some (.error e), o) => (next (.error e)).tells { l with outlet := o }
    | (none, _) => []
  | flush next =>
    match retry Outlet.toCome Outlet.flush l.outlet with
    | (some r, o) => (next r).tells { l with outlet := o }
    | (none, _) => []

inductive Talks : Dialogue α → Bytes → Bytes → Dialogue α → Prop
  | here {d : Dialogue α} : Talks d [] [] d
  | read {limit : Nat} {next : Except IoError Bytes → Dialogue α} {b heard said : Bytes}
      {d : Dialogue α} : Talks (next (.ok b)) heard said d →
      Talks (.read limit next) (b ++ heard) said d
  | readFails {limit : Nat} {next : Except IoError Bytes → Dialogue α} {e : IoError}
      {heard said : Bytes} {d : Dialogue α} : Talks (next (.error e)) heard said d →
      Talks (.read limit next) heard said d
  | write {x : Bytes} {next : Except IoError Nat → Dialogue α} {n : Nat} {heard said : Bytes}
      {d : Dialogue α} : Talks (next (.ok n)) heard said d →
      Talks (.write x next) heard (x.take n ++ said) d
  | writeFails {x : Bytes} {next : Except IoError Nat → Dialogue α} {e : IoError}
      {heard said : Bytes} {d : Dialogue α} : Talks (next (.error e)) heard said d →
      Talks (.write x next) heard said d
  | flush {next : Except IoError Unit → Dialogue α} {r : Except IoError Unit}
      {heard said : Bytes} {d : Dialogue α} : Talks (next r) heard said d →
      Talks (.flush next) heard said d

/-- A run goes only where a dialogue can go; it hears what is read and says what is taken. -/
theorem talks_run (d : Dialogue α) (l : Link) : Talks d (d.hears l) (d.tells l) (d.run l).1 := by
  induction d generalizing l with
  | done a => exact .here
  | read limit next ih =>
    simp only [hears, tells, run]
    rcases retry Inlet.toCome (fun i => i.read limit) l.inlet with ⟨_ | e | b, i⟩
    · exact .here
    · exact .readFails (ih _ _)
    · exact .read (ih _ _)
  | write b next ih =>
    simp only [hears, tells, run]
    rcases retry Outlet.toCome (fun o => o.write b) l.outlet with ⟨_ | e | n, o⟩
    · exact .here
    · exact .writeFails (ih _ _)
    · exact .write (ih _ _)
  | flush next ih =>
    simp only [hears, tells, run]
    rcases retry Outlet.toCome Outlet.flush l.outlet with ⟨_ | r, o⟩
    · exact .here
    · exact .flush (ih _ _)

theorem Talks.follows {d d' : Dialogue α} {heard said : Bytes} (h : Talks d heard said d') :
    Follows d heard d' := by
  induction h with
  | here => exact .here
  | read _ ih => exact .read ih
  | readFails _ ih => exact .readFails ih
  | write _ ih => exact .write ih
  | writeFails _ ih => exact .write ih
  | flush _ ih => exact .flush ih

theorem Talks.trans {d d' d'' : Dialogue α} {heard heard' said said' : Bytes}
    (h : Talks d heard said d') (h' : Talks d' heard' said' d'') :
    Talks d (heard ++ heard') (said ++ said') d'' := by
  induction h with
  | here => exact h'
  | read _ ih =>
    rw [List.append_assoc]
    exact .read (ih h')
  | readFails _ ih => exact .readFails (ih h')
  | write _ ih =>
    rw [List.append_assoc]
    exact .write (ih h')
  | writeFails _ ih => exact .writeFails (ih h')
  | flush _ ih => exact .flush (ih h')

theorem talks_done_iff {a : α} {heard said : Bytes} {d : Dialogue α} :
    Talks (.done a) heard said d ↔ heard = [] ∧ said = [] ∧ d = .done a := by
  constructor
  · intro h
    cases h
    exact ⟨rfl, rfl, rfl⟩
  · intro h
    obtain ⟨rfl, rfl, rfl⟩ := h
    exact .here

/-- Two dialogues one after the other have come no further than the first one, or to the second. -/
theorem talks_bind {d : Dialogue α} {f : α → Dialogue β} {heard said : Bytes} {d' : Dialogue β}
    (h : Talks (d.bind f) heard said d') :
    (∃ rest, Talks d heard said rest ∧ d' = rest.bind f) ∨
      ∃ a heard₁ heard₂ said₁ said₂, Talks d heard₁ said₁ (.done a) ∧
        Talks (f a) heard₂ said₂ d' ∧ heard = heard₁ ++ heard₂ ∧ said = said₁ ++ said₂ := by
  induction d generalizing heard said with
  | done a => exact .inr ⟨a, [], heard, [], said, .here, h, rfl, rfl⟩
  | read limit next ih =>
    cases h with
    | here => exact .inl ⟨_, .here, rfl⟩
    | read h =>
      rcases ih _ h with ⟨rest, hr, rfl⟩ | ⟨a, h₁, h₂, s₁, s₂, hd, hf, rfl, rfl⟩
      · exact .inl ⟨rest, .read hr, rfl⟩
      · exact .inr ⟨a, _, h₂, s₁, s₂, .read hd, hf, (List.append_assoc _ _ _).symm, rfl⟩
    | readFails h =>
      rcases ih _ h with ⟨rest, hr, rfl⟩ | ⟨a, h₁, h₂, s₁, s₂, hd, hf, rfl, rfl⟩
      · exact .inl ⟨rest, .readFails hr, rfl⟩
      · exact .inr ⟨a, h₁, h₂, s₁, s₂, .readFails hd, hf, rfl, rfl⟩
  | write x next ih =>
    cases h with
    | here => exact .inl ⟨_, .here, rfl⟩
    | write h =>
      rcases ih _ h with ⟨rest, hr, rfl⟩ | ⟨a, h₁, h₂, s₁, s₂, hd, hf, rfl, rfl⟩
      · exact .inl ⟨rest, .write hr, rfl⟩
      · exact .inr ⟨a, h₁, h₂, _, s₂, .write hd, hf, rfl, (List.append_assoc _ _ _).symm⟩
    | writeFails h =>
      rcases ih _ h with ⟨rest, hr, rfl⟩ | ⟨a, h₁, h₂, s₁, s₂, hd, hf, rfl, rfl⟩
      · exact .inl ⟨rest, .writeFails hr, rfl⟩
      · exact .inr ⟨a, h₁, h₂, s₁, s₂, .writeFails hd, hf, rfl, rfl⟩
  | flush next ih =>
    cases h with
    | here => exact .inl ⟨_, .here, rfl⟩
    | flush h =>
      rcases ih _ h with ⟨rest, hr, rfl⟩ | ⟨a, h₁, h₂, s₁, s₂, hd, hf, rfl, rfl⟩
      · exact .inl ⟨rest, .flush hr, rfl⟩
      · exact .inr ⟨a, h₁, h₂, s₁, s₂, .flush hd, hf, rfl, rfl⟩

/-- Until a dialogue that never reads is done and the next one has begun, nothing waits to be
read. -/
theorem Mute.talks_bind {x : Dialogue α} (hx : x.Mute) {f : α → Dialogue β}
    {heard said : Bytes} {d : Dialogue β} (h : Talks (x.bind f) heard said d) :
    (∀ limit next, d ≠ .read limit next) ∨ ∃ a said', Talks (f a) heard said' d := by
  induction hx generalizing said with
  | done => exact .inr ⟨_, said, h⟩
  | write _ ih =>
    cases h with
    | here => exact .inl nofun
    | write h => exact ih _ h
    | writeFails h => exact ih _ h
  | flush _ ih =>
    cases h with
    | here => exact .inl nofun
    | flush h => exact ih _ h

theorem Mute.of_talks {x d : Dialogue α} (hx : x.Mute) {heard said : Bytes}
    (h : Talks x heard said d) : d.Mute := by
  induction h with
  | here => exact hx
  | read | readFails => cases hx
  | write _ ih | writeFails _ ih =>
    cases hx with
    | write hn => exact ih (hn _)
  | flush _ ih =>
    cases hx with
    | flush hn => exact ih (hn _)

end Dialogue

/-- A dialogue that is left and taken up again, with what it has heard and said so far. -/
structure Conversation (α : Type) where
  talk : Dialogue α
  heard : Bytes := []
  said : Bytes := []

namespace Conversation

variable {α : Type}

/-- Goes on as far as its link lets it, with whatever the link has come to. -/
def resume (c : Conversation α) (l : Link) : Conversation α :=
  ⟨(c.talk.run l).1, c.heard ++ c.talk.hears l, c.said ++ c.talk.tells l⟩

def run (c : Conversation α) (links : List Link) : Conversation α := links.foldl resume c

theorem talks_run {d : Dialogue α} {c : Conversation α} (h : d.Talks c.heard c.said c.talk)
    (links : List Link) : d.Talks (c.run links).heard (c.run links).said (c.run links).talk := by
  induction links generalizing c with
  | nil => exact h
  | cons l links ih => exact ih (h.trans (c.talk.talks_run l))

end Conversation

namespace Exchange

open Dialogue

variable {α β : Type} {heard said : Bytes}

/-- Two exchanges one after the other have said no more than the first one, or they have come to
the second. -/
theorem talks_bind {x : Exchange α} {f : α → Exchange β} {d : Dialogue (Except Failure β)}
    (h : Talks (x >>= f : Exchange β) heard said d) :
    (∃ rest, Talks x heard said rest ∧ ∀ y, d ≠ .done (.ok y)) ∨
      ∃ a heard₁ heard₂ said₁ said₂, Talks x heard₁ said₁ (.done (.ok a)) ∧
        Talks (f a) heard₂ said₂ d ∧ heard = heard₁ ++ heard₂ ∧ said = said₁ ++ said₂ := by
  rcases Dialogue.talks_bind h with ⟨rest, hx, rfl⟩ | ⟨r, h₁, h₂, s₁, s₂, hx, hf, rfl, rfl⟩
  · match rest with
    | .done (.ok a) =>
      exact .inr ⟨a, heard, [], said, [], hx, .here, (List.append_nil _).symm,
        (List.append_nil _).symm⟩
    | .done (.error e) => exact .inl ⟨_, hx, nofun⟩
    | .read limit next => exact .inl ⟨_, hx, nofun⟩
    | .write b next => exact .inl ⟨_, hx, nofun⟩
    | .flush next => exact .inl ⟨_, hx, nofun⟩
  · match r with
    | .ok a => exact .inr ⟨a, h₁, h₂, s₁, s₂, hx, hf, rfl, rfl⟩
    | .error e =>
      obtain ⟨rfl, rfl, rfl⟩ := talks_done_iff.mp hf
      rw [List.append_nil, List.append_nil]
      exact .inl ⟨_, hx, nofun⟩

theorem exists_of_talks_bind {x : Exchange α} {f : α → Exchange β} {y : β}
    (h : Talks (x >>= f : Exchange β) heard said (.done (.ok y))) :
    ∃ a heard₁ heard₂ said₁ said₂, Talks x heard₁ said₁ (.done (.ok a)) ∧
      Talks (f a) heard₂ said₂ (.done (.ok y)) ∧ heard = heard₁ ++ heard₂ ∧
      said = said₁ ++ said₂ := by
  rcases talks_bind h with ⟨_, _, hn⟩ | h
  · exact absurd rfl (hn y)
  · exact h

theorem talks_fail {f : Failure} {d : Dialogue (Except Failure β)}
    (h : Talks (fail f : Exchange β) heard said d) : said = [] :=
  (talks_done_iff.mp h).2.1

theorem talks_pure {x : β} {d : Dialogue (Except Failure β)}
    (h : Talks (pure x : Exchange β) heard said d) : said = [] :=
  (talks_done_iff.mp h).2.1

theorem not_talks_fail {f : Failure} {y : β} :
    ¬ Talks (fail f : Exchange β) heard said (.done (.ok y)) :=
  fun h => not_follows_fail h.follows

/-- Whoever writes reads nothing, and what is taken stands in front of the message. -/
theorem talks_writeAll {x : Bytes} {d : Dialogue (Except Failure Unit)}
    (h : Talks (writeAll x) heard said d) :
    heard = [] ∧ said <+: x ∧ (d = .done (.ok ()) → said = x) := by
  refine ⟨eq_nil_of_follows_writeAll h.follows, ?_⟩
  induction hn : x.length using Nat.strongRecOn generalizing x said with
  | ind n ih =>
    subst hn
    rw [writeAll] at h
    by_cases hx : x = []
    · rw [dif_pos hx] at h
      obtain ⟨-, rfl, -⟩ := talks_done_iff.mp h
      exact ⟨List.nil_prefix, fun _ => hx.symm⟩
    · rw [dif_neg hx] at h
      cases h with
      | here => exact ⟨List.nil_prefix, fun he => by cases he⟩
      | writeFails h =>
        obtain ⟨-, rfl, rfl⟩ := talks_done_iff.mp h
        exact ⟨List.nil_prefix, fun he => by cases he⟩
      | @write _ _ n _ _ _ h =>
        cases n with
        | zero =>
          obtain ⟨-, rfl, rfl⟩ := talks_done_iff.mp h
          exact ⟨List.nil_prefix, fun he => by cases he⟩
        | succ n =>
          obtain ⟨hp, hd⟩ := ih _ (length_drop_succ_lt hx n) h rfl
          refine ⟨?_, fun he => ?_⟩
          · have ht := (List.prefix_append_right_inj (x.take (n + 1))).2 hp
            rwa [List.take_append_drop] at ht
          · rw [hd he, List.take_append_drop]

theorem talks_send {x : Bytes} {d : Dialogue (Except Failure Unit)}
    (h : Talks (send x) heard said d) :
    heard = [] ∧ said <+: x ∧ (d = .done (.ok ()) → said = x) := by
  rcases talks_bind h with ⟨rest, hw, hn⟩ | ⟨_, h₁, h₂, s₁, s₂, hw, hf, rfl, rfl⟩
  · obtain ⟨rfl, hp, -⟩ := talks_writeAll hw
    exact ⟨rfl, hp, fun he => absurd he (hn ())⟩
  · obtain ⟨rfl, -, hd⟩ := talks_writeAll hw
    obtain rfl := hd rfl
    have hq : h₂ = [] ∧ s₂ = [] := by
      cases hf with
      | here => exact ⟨rfl, rfl⟩
      | @flush _ r _ _ _ h =>
        cases r <;>
        · obtain ⟨rfl, rfl, -⟩ := talks_done_iff.mp h
          exact ⟨rfl, rfl⟩
    obtain ⟨rfl, rfl⟩ := hq
    rw [List.append_nil s₁]
    exact ⟨rfl, List.prefix_rfl, fun _ => rfl⟩

/-- While a message is sent nothing waits to be read. -/
theorem talks_send_bind {x : Bytes} {f : Unit → Exchange β} {d : Dialogue (Except Failure β)}
    (h : Talks (send x >>= f : Exchange β) heard said d) :
    (∀ limit next, d ≠ .read limit next) ∨ ∃ said', Talks (f ()) heard said' d := by
  rcases (mute_send x).talks_bind h with h | ⟨e | _, said', hf⟩
  · exact .inl h
  · obtain ⟨-, -, rfl⟩ := talks_done_iff.mp hf
    exact .inl nofun
  · exact .inr ⟨said', hf⟩

/-- A message with nothing said after it. -/
theorem prefix_of_talks_send {x : Bytes} {f : Unit → Exchange β} {d : Dialogue (Except Failure β)}
    (hf : ∀ heard said, Talks (f ()) heard said d → said = [])
    (h : Talks (send x >>= f : Exchange β) heard said d) : said <+: x := by
  rcases talks_bind h with ⟨_, hs, -⟩ | ⟨_, h₁, h₂, s₁, s₂, hs, hn, rfl, rfl⟩
  · exact (talks_send hs).2.1
  · rw [hf _ _ hn, List.append_nil]
    exact (talks_send hs).2.1

/-- A message that has been sent, and what is said after it. -/
theorem exists_of_talks_send {x : Bytes} {f : Unit → Exchange β} {y : β}
    (h : Talks (send x >>= f : Exchange β) heard said (.done (.ok y))) :
    ∃ said', Talks (f ()) heard said' (.done (.ok y)) ∧ said = x ++ said' := by
  obtain ⟨_, h₁, h₂, s₁, s₂, hs, hf, rfl, rfl⟩ := exists_of_talks_bind h
  obtain ⟨rfl, -, hd⟩ := talks_send hs
  exact ⟨s₂, hf, by rw [hd rfl]⟩

theorem talks_read {limit : Nat} {d : Dialogue (Except Failure Bytes)}
    (h : Talks (read limit) heard said d) : said = [] := by
  cases h with
  | here => rfl
  | read h => exact (talks_done_iff.mp h).2.1
  | readFails h => exact (talks_done_iff.mp h).2.1

theorem talks_readOn {got : Bytes} {n : Nat} {y : Bytes}
    (h : Talks (readOn got n) heard said (.done (.ok y))) : y = got ++ heard ∧ said = [] := by
  induction hn : n using Nat.strongRecOn generalizing got n heard with
  | ind k ih =>
    subst hn
    rw [readOn] at h
    by_cases h0 : n = 0
    · rw [if_pos h0] at h
      obtain ⟨rfl, rfl, hd⟩ := talks_done_iff.mp h
      cases hd
      exact ⟨(List.append_nil _).symm, rfl⟩
    · rw [if_neg h0] at h
      cases h with
      | readFails h => exact absurd h not_talks_fail
      | @read _ _ b _ _ _ h =>
        match b with
        | [] => exact absurd h not_talks_fail
        | x :: b =>
          obtain ⟨hy, hs⟩ := ih _ (by omega) h rfl
          exact ⟨by rw [hy, List.append_assoc], hs⟩

theorem eq_of_talks_readExact {n : Nat} {y : Bytes}
    (h : Talks (readExact n) heard said (.done (.ok y))) : y = heard ∧ said = [] :=
  talks_readOn h

/-- An exchange that says nothing, however far it comes. -/
def Silent (x : Exchange α) : Prop :=
  ∀ ⦃heard said : Bytes⦄ ⦃d⦄, Talks x heard said d → said = []

theorem silent_pure (x : α) : Silent (pure x) := fun _ _ _ => talks_pure

theorem silent_fail (f : Failure) : Silent (fail f : Exchange α) := fun _ _ _ => talks_fail

theorem Silent.bind {x : Exchange α} {f : α → Exchange β} (hx : Silent x)
    (hf : ∀ a, Silent (f a)) : Silent (x >>= f) := by
  intro heard said d h
  rcases talks_bind h with ⟨_, hr, -⟩ | ⟨a, h₁, h₂, s₁, s₂, hr, hn, rfl, rfl⟩
  · exact hx hr
  · rw [hx hr, hf a hn, List.append_nil]

theorem silent_read (limit : Nat) : Silent (read limit) := fun _ _ _ => talks_read

theorem silent_readByte : Silent readByte :=
  (silent_read 1).bind fun b => by
    split
    · exact silent_pure _
    · exact silent_fail _

theorem silent_readOn (got : Bytes) (n : Nat) : Silent (readOn got n) := by
  intro heard said d h
  induction hn : n using Nat.strongRecOn generalizing got n heard with
  | ind k ih =>
    subst hn
    rw [readOn] at h
    by_cases h0 : n = 0
    · rw [if_pos h0] at h
      exact (talks_done_iff.mp h).2.1
    · rw [if_neg h0] at h
      cases h with
      | here => rfl
      | readFails h => exact talks_fail h
      | @read _ _ b _ _ _ h =>
        match b with
        | [] => exact talks_fail h
        | x :: b => exact ih _ (by omega) _ _ h rfl

theorem silent_readExact (n : Nat) : Silent (readExact n) := silent_readOn [] n

/-- A message, its answer, and what is talked about after both, as far as it has come to that. -/
theorem talks_ask {x : Bytes} {n : Nat} {f : Bytes → Exchange β} {d : Dialogue (Except Failure β)}
    (h : Talks (send x >>= fun _ => readExact n >>= f : Exchange β) heard said d) :
    said <+: x ∨ ∃ answer heard' said', Talks (f answer) heard' said' d ∧
      heard = answer ++ heard' ∧ said = x ++ said' := by
  rcases talks_bind h with ⟨_, hs, -⟩ | ⟨_, h₁, h₂, s₁, s₂, hs, hn, rfl, rfl⟩
  · exact .inl (talks_send hs).2.1
  · obtain ⟨rfl, -, hd⟩ := talks_send hs
    obtain rfl := hd rfl
    rcases talks_bind hn with ⟨_, hr, -⟩ | ⟨answer, h₃, h₄, s₃, s₄, hr, hf, rfl, rfl⟩
    · obtain rfl := silent_readExact n hr
      rw [List.append_nil]
      exact .inl List.prefix_rfl
    · obtain ⟨rfl, rfl⟩ := eq_of_talks_readExact hr
      exact .inr ⟨answer, h₄, s₄, hf, rfl, rfl⟩

/-- A message that has been sent, the answer to it, and what is talked about after both. -/
theorem exists_of_talks_ask {x : Bytes} {n : Nat} {f : Bytes → Exchange β} {y : β}
    (h : Talks (send x >>= fun _ => readExact n >>= f : Exchange β) heard said (.done (.ok y))) :
    ∃ answer heard' said', Talks (f answer) heard' said' (.done (.ok y)) ∧
      heard = answer ++ heard' ∧ said = x ++ said' := by
  obtain ⟨said', hr, rfl⟩ := exists_of_talks_send h
  obtain ⟨answer, h₁, h₂, s₁, s₂, ha, hf, rfl, rfl⟩ := exists_of_talks_bind hr
  obtain ⟨rfl, rfl⟩ := eq_of_talks_readExact ha
  exact ⟨answer, h₂, s₂, hf, rfl, rfl⟩

end Exchange

end SocksChain.Channel
