import SocksChain.Proofs.Socks.Grammar

/-!
How a negotiation ends. A machine accepts at most one request, and refuses whatever comes after it.
A turn that fails closes the machine, and a closed machine refuses everything, with one exception: a
name or a password that is not UTF-8 fails, but leaves the machine waiting for another one.
-/

namespace SocksChain.Socks

/-- Whether a turn refuses its client, with a reply or without one. -/
def Outcome.fails : Outcome → Bool
  | reject _ _ | abort _ => true
  | _ => false

/-- Whether a turn grants a request. -/
def Outcome.accepts : Outcome → Bool
  | connect _ _ | associate _ | register _ => true
  | _ => false

theorem Outcome.not_accepts_of_fails {x : Outcome} (h : x.fails = true) : ¬ x.accepts = true := by
  cases x with
  | reject => exact Bool.false_ne_true
  | abort => exact Bool.false_ne_true
  | _ => cases h

namespace Negotiation

/-- The turns of a machine on buffers that it is given one after another. -/
def turns (m : Negotiation) : List Bytes → List Turn
  | [] => []
  | b :: later => m.advance b :: (m.advance b).machine.turns later

/-- What a machine has become after turns on these buffers. -/
def after (m : Negotiation) (buffers : List Bytes) : Negotiation :=
  buffers.foldl (fun m b => (m.advance b).machine) m

/-- The machine is given a whole name and password, and one of them is not UTF-8. -/
def Garbled (m : Negotiation) (b : Bytes) : Prop :=
  m.stage = .password ∧ ∃ name secret rest, readPassword b = .ok (some ((name, secret), rest)) ∧
    (Bytes.toText? name = none ∨ Bytes.toText? secret = none)

/-- The answer of a machine that takes no more messages, if it stays what it is. -/
def refusal (m : Negotiation) (b : Bytes) : Turn := ⟨.abort (.outOfStage m.stage.name), m, b⟩

/-- What a turn can come to, and what then becomes of the machine. -/
inductive Decides (m : Negotiation) (b : Bytes) : Turn → Prop
  | waits : Decides m b ⟨.needMore, m, b⟩
  | replies {message rest : Bytes} {m' : Negotiation} :
      m'.stage.remaining < m.stage.remaining → Decides m b ⟨.reply message, m', rest⟩
  | grants {x : Outcome} {rest : Bytes} :
      x.accepts = true → Decides m b ⟨x, { m with stage := .established }, rest⟩
  | garbles {field : String} {rest : Bytes} :
      m.Garbled b → Decides m b ⟨.abort (.notUtf8 field), m, rest⟩
  | refuses {x : Outcome} {rest : Bytes} : x.fails = true → Decides m b ⟨x, m.close, rest⟩

section Turns

variable {m : Negotiation} {b : Bytes}

/-- A message that is not UTF-8 is taken off the buffer, and nothing else comes of it. -/
theorem advance_of_garbled (h : m.Garbled b) : ∃ field message rest,
    m.advance b = ⟨.abort (.notUtf8 field), m, rest⟩ ∧ b = message ++ rest ∧ message ≠ [] := by
  obtain ⟨hs, name, secret, rest, hr, hn⟩ := h
  obtain ⟨n, k, hb, -, -⟩ := readPassword_eq_some_iff.mp hr
  have hadv : m.advance b = m.onPassword b := by simp only [advance, hs]
  rw [hadv]
  unfold onPassword
  rw [hr]
  dsimp only
  match hname : Bytes.toText? name, hsecret : Bytes.toText? secret with
  | none, _ => exact ⟨_, _, rest, rfl, hb, List.cons_ne_nil _ _⟩
  | some _, none => exact ⟨_, _, rest, rfl, hb, List.cons_ne_nil _ _⟩
  | some _, some _ =>
    rw [hname, hsecret] at hn
    rcases hn with hn | hn <;> cases hn

theorem onGreeting_decides (hs : m.stage = .greeting) : m.Decides b (m.onGreeting b) := by
  unfold onGreeting
  split
  · exact .waits
  · exact .refuses rfl
  · split
    · refine .replies ?_
      rw [hs]
      unfold stageAfterGreeting
      split <;> simp [Stage.remaining]
    · exact .refuses rfl

theorem onPassword_decides (hs : m.stage = .password) : m.Decides b (m.onPassword b) := by
  unfold onPassword
  split
  · exact .waits
  · exact .refuses rfl
  · rename_i name secret rest hr
    split
    · rename_i hn
      exact .garbles ⟨hs, name, secret, rest, hr, .inl hn⟩
    · rename_i hn
      exact .garbles ⟨hs, name, secret, rest, hr, .inr hn⟩
    · split
      · refine .replies ?_
        simp [hs, Stage.remaining]
      · exact .refuses rfl

theorem onRequest_decides : m.Decides b (m.onRequest b) := by
  unfold onRequest
  split
  · exact .waits
  · exact .refuses rfl
  · exact .refuses rfl
  · dsimp only
    split
    · exact .grants rfl
    · split
      · exact .grants rfl
      · split
        · exact .grants rfl
        · exact .refuses rfl

theorem advance_decides (m : Negotiation) (b : Bytes) : m.Decides b (m.advance b) := by
  unfold advance
  cases hs : m.stage with
  | greeting => exact onGreeting_decides hs
  | password => exact onPassword_decides hs
  | request => exact onRequest_decides
  | established => exact .refuses rfl
  | closed => exact .refuses rfl

/-- A turn that waits leaves everything as it was. -/
theorem advance_of_needMore (h : (m.advance b).outcome = .needMore) :
    m.advance b = ⟨.needMore, m, b⟩ := by
  have hd := m.advance_decides b
  generalize m.advance b = t at h hd ⊢
  cases hd with
  | waits => rfl
  | replies => cases h
  | garbles => cases h
  | grants ha =>
    subst h
    cases ha
  | refuses hf =>
    subst h
    cases hf

/-- Every other failure closes the machine. -/
theorem advance_of_fails (h : (m.advance b).outcome.fails = true) (hg : ¬ m.Garbled b) :
    (m.advance b).machine = m.close := by
  have hd := m.advance_decides b
  generalize m.advance b = t at h hd ⊢
  cases hd with
  | waits => cases h
  | replies => cases h
  | garbles hg' => exact absurd hg' hg
  | refuses => rfl
  | grants ha => exact absurd ha (Outcome.not_accepts_of_fails h)

/-- Only a request is ever granted, and then the machine takes no more of them. -/
theorem advance_of_accepts (h : (m.advance b).outcome.accepts = true) :
    (m.advance b).machine.stage = .established := by
  have hd := m.advance_decides b
  generalize m.advance b = t at h hd ⊢
  cases hd with
  | waits => cases h
  | replies => cases h
  | garbles => cases h
  | grants => rfl
  | refuses hf => exact absurd h (Outcome.not_accepts_of_fails hf)

theorem close_of_closed (h : m.stage = .closed) : m.close = m := by
  unfold close
  rw [← h]

theorem advance_of_closed (h : m.stage = .closed) : m.advance b = m.refusal b := by
  simp only [advance, refusal, h, close_of_closed h]

theorem advance_of_established (h : m.stage = .established) :
    m.advance b = ⟨.abort (.outOfStage Stage.established.name), m.close, b⟩ := by
  simp only [advance, h]

end Turns

section Runs

variable {m : Negotiation}

/-- A closed machine refuses all that comes, and takes none of it. -/
theorem turns_of_closed (h : m.stage = .closed) (buffers : List Bytes) :
    m.turns buffers = buffers.map m.refusal := by
  induction buffers with
  | nil => rfl
  | cons b later ih =>
    simp only [turns, List.map_cons, advance_of_closed h]
    exact congrArg _ ih

theorem countP_turns_of_closed (h : m.stage = .closed) (buffers : List Bytes) :
    (m.turns buffers).countP (·.outcome.accepts) = 0 := by
  rw [turns_of_closed h, List.countP_eq_zero]
  intro t ht
  obtain ⟨b, -, rfl⟩ := List.mem_map.mp ht
  exact Bool.false_ne_true

theorem countP_turns_of_established (h : m.stage = .established) (buffers : List Bytes) :
    (m.turns buffers).countP (·.outcome.accepts) = 0 := by
  cases buffers with
  | nil => rfl
  | cons b later =>
    rw [turns, advance_of_established h]
    exact (List.countP_cons_of_neg Bool.false_ne_true).trans (countP_turns_of_closed rfl later)

/-- One machine grants one request at the most. -/
theorem countP_turns_le (m : Negotiation) (buffers : List Bytes) :
    (m.turns buffers).countP (·.outcome.accepts) ≤ 1 := by
  induction buffers generalizing m with
  | nil => exact Nat.zero_le 1
  | cons b later ih =>
    rw [turns]
    cases ha : (m.advance b).outcome.accepts with
    | true =>
      have hlater := countP_turns_of_established (advance_of_accepts ha) later
      exact Nat.le_of_eq ((List.countP_cons_of_pos (p := fun t : Turn => t.outcome.accepts)
        ha).trans (congrArg (· + 1) hlater))
    | false =>
      rw [List.countP_cons_of_neg (p := fun t : Turn => t.outcome.accepts)
        (by rw [ha]; exact nofun)]
      exact ih _

/-- **A failure is final, unless it is that a name or a password is not UTF-8.** Whatever a machine
has been given before, a turn that fails closes it, and a closed machine refuses all that follows,
exactly if the turn does not fail for that reason. If it does, the message is taken and the machine
is what it was. A granted request is the only one: the next turn fails, and closes the machine. -/
theorem failure_is_final_iff (credentials : Option Credentials) (trusted registrations : Bool)
    (earlier : List Bytes) (b : Bytes) (later : List Bytes) :
    let start : Negotiation :=
      { credentials := credentials, trusted := trusted, registrations := registrations }
    let m := start.after earlier
    let t := m.advance b
    (t.outcome.fails = true →
      (t.machine.stage = .closed ∧ t.machine.turns later = later.map t.machine.refusal ↔
        ¬ m.Garbled b)) ∧
    (m.Garbled b → ∃ field message rest, t = ⟨.abort (.notUtf8 field), m, rest⟩ ∧
      b = message ++ rest ∧ message ≠ []) ∧
    (t.outcome.accepts = true → t.machine.stage = .established ∧ ∀ next,
      t.machine.advance next =
        ⟨.abort (.outOfStage Stage.established.name), t.machine.close, next⟩) ∧
    (start.turns (earlier ++ b :: later)).countP (·.outcome.accepts) ≤ 1 := by
  intro start m t
  refine ⟨fun hf => ⟨?_, ?_⟩, advance_of_garbled, ?_, countP_turns_le _ _⟩
  · intro h hg
    obtain ⟨field, message, rest, ht, -, -⟩ := advance_of_garbled hg
    have hm : t.machine = m := congrArg Turn.machine ht
    have hs := h.1
    rw [hm, hg.1] at hs
    cases hs
  · intro hg
    have hm : t.machine = m.close := advance_of_fails hf hg
    have hs : t.machine.stage = .closed := by
      rw [hm]
      rfl
    exact ⟨hs, turns_of_closed hs later⟩
  · intro ha
    have hs := advance_of_accepts ha
    exact ⟨hs, fun next => advance_of_established hs⟩

/-- A wrong password ends the negotiation, although the right one is sent after it. -/
theorem wrong_password_is_final :
    let start : Negotiation := { credentials := some ⟨"u", "p"⟩ }
    let t := (start.after [[5, 1, 2]]).advance [1, 1, 117, 1, 113]
    t.machine.stage = .closed ∧
      t.machine.turns [[1, 1, 117, 1, 112]] = [t.machine.refusal [1, 1, 117, 1, 112]] := by
  intro start t
  have hf : t.outcome.fails = true := by decide
  refine ((failure_is_final_iff (some ⟨"u", "p"⟩) false false [[5, 1, 2]] [1, 1, 117, 1, 113]
    [[1, 1, 117, 1, 112]]).1 hf).mpr ?_
  rintro ⟨-, name, secret, rest, hr, hn⟩
  cases hr
  rcases hn with hn | hn <;> exact absurd hn (by decide)

/-- After a name that is not UTF-8 the machine waits for another one, and takes it. -/
theorem garbled_name_is_not_final :
    let start : Negotiation := { credentials := some ⟨"u", "p"⟩ }
    let t := (start.after [[5, 1, 2]]).advance [1, 1, 255, 1, 112]
    t.outcome = .abort (.notUtf8 "username") ∧ t.machine.stage = .password ∧
      (t.machine.advance [1, 1, 117, 1, 112]).outcome = .reply [1, 0] := by
  decide

end Runs

end Negotiation

end SocksChain.Socks
