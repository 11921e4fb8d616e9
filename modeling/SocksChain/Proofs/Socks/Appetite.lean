import SocksChain.Proofs.Channel.Saying
import SocksChain.Proofs.Socks.Acceptance
import SocksChain.Proofs.Socks.Feeding
import SocksChain.Proofs.Socks.Wire

/-!
How much of its client's bytes the front end takes and holds. Each message of the handshake has a
longest form, and a machine takes one message of each kind at the most; so what it takes off a byte
string is bounded, however the string is cut. It waits only while a message may be incomplete, so
what it holds while it waits is bounded too.
-/

namespace SocksChain.Socks

open Channel

/-- At most `n` bytes have been taken off the front of `b`, and `rest` is what is left. -/
def Takes (n : Nat) (b rest : Bytes) : Prop := ∃ taken, b = taken ++ rest ∧ taken.length ≤ n

namespace Takes

variable {n k : Nat} {b c rest : Bytes}

theorem refl (n : Nat) (b : Bytes) : Takes n b b := ⟨[], rfl, Nat.zero_le n⟩

theorem mono (h : Takes n b rest) (hn : n ≤ k) : Takes k b rest := by
  obtain ⟨taken, hb, hl⟩ := h
  exact ⟨taken, hb, Nat.le_trans hl hn⟩

theorem append (h : Takes n b rest) (t : Bytes) : Takes n (b ++ t) (rest ++ t) := by
  obtain ⟨taken, rfl, hl⟩ := h
  exact ⟨taken, List.append_assoc _ _ _, hl⟩

theorem trans (h : Takes n b c) (h' : Takes k c rest) : Takes (n + k) b rest := by
  obtain ⟨first, rfl, hf⟩ := h
  obtain ⟨second, rfl, hs⟩ := h'
  refine ⟨first ++ second, (List.append_assoc _ _ _).symm, ?_⟩
  rw [List.length_append]
  exact Nat.add_le_add hf hs

end Takes

/-- The longest message that a machine accepts at a stage: a greeting with 255 methods, a name and a
password of 255 bytes each, a request whose address has a name of 255 bytes. -/
def Stage.longest : Stage → Nat
  | greeting => 257
  | password => 513
  | request => 262
  | established => 0
  | closed => 0

/-- The longest messages from a stage on. -/
def Stage.budget : Stage → Nat
  | greeting => 257 + 513 + 262
  | password => 513 + 262
  | request => 262
  | established => 0
  | closed => 0

theorem Stage.longest_le_budget (s : Stage) : s.longest ≤ s.budget := by
  cases s <;> simp [longest, budget]

theorem Address.length_le_of_encode {a : Address} {w : Bytes} (h : a.encode = .ok w) :
    w.length ≤ 259 := by
  rw [length_of_encode h]
  unfold encode at h
  split at h
  · simp [encodedLength]
  · simp [encodedLength]
  · rename_i name p
    dsimp only at h
    split at h
    · cases h
    · rename_i hle
      simp only [encodedLength]
      omega

theorem takes_of_readGreeting {b methods rest : Bytes}
    (h : readGreeting b = .ok (some (methods, rest))) : Takes Stage.greeting.longest b rest := by
  obtain ⟨n, rfl, -, hn⟩ := readGreeting_eq_some_iff.mp h
  have hlt := n.toNat_lt
  refine ⟨_, rfl, ?_⟩
  simp only [List.length_cons, Stage.longest]
  omega

theorem takes_of_readPassword {b name secret rest : Bytes}
    (h : readPassword b = .ok (some ((name, secret), rest))) :
    Takes Stage.password.longest b rest := by
  obtain ⟨n, k, rfl, hn, hk⟩ := readPassword_eq_some_iff.mp h
  have hnlt := n.toNat_lt
  have hklt := k.toNat_lt
  refine ⟨_, rfl, ?_⟩
  simp only [List.length_cons, List.length_append, Stage.longest]
  omega

theorem takes_of_readRequest {b rest : Bytes} {r : Request}
    (h : readRequest b = .ok (some (r, rest))) : Takes Stage.request.longest b rest := by
  obtain ⟨reserved, front, rfl, hp⟩ := readRequest_eq_some_iff.mp h
  obtain ⟨w, he, hw⟩ := Address.exists_encode_of_parse hp
  have hle := Address.length_le_of_encode he
  rw [List.append_nil] at hw
  rw [← hw, List.length_cons] at hle
  refine ⟨_, rfl, ?_⟩
  simp only [List.length_cons, Stage.longest]
  omega

/-- Whether the conversation is over with this outcome. -/
def Outcome.ends (x : Outcome) : Bool := x.fails || x.accepts

namespace Negotiation

section Turns

variable {m : Negotiation} {b : Bytes}

/-- A turn takes one message at the most. -/
theorem takes_advance (m : Negotiation) (b : Bytes) :
    Takes m.stage.longest b (m.advance b).rest := by
  unfold advance
  cases hs : m.stage with
  | greeting =>
    unfold onGreeting
    dsimp only
    split
    · exact .refl _ b
    · exact .refl _ b
    · rename_i hr
      split <;> exact takes_of_readGreeting hr
  | password =>
    unfold onPassword
    dsimp only
    split
    · exact .refl _ b
    · exact .refl _ b
    · rename_i hr
      split
      · exact takes_of_readPassword hr
      · exact takes_of_readPassword hr
      · split <;> exact takes_of_readPassword hr
  | request =>
    unfold onRequest
    dsimp only
    split
    · exact .refl _ b
    · exact .refl _ b
    · exact .refl _ b
    · rename_i hr
      have ht := takes_of_readRequest hr
      split
      · exact ht
      · split
        · exact ht
        · split <;> exact ht
  | established => exact .refl _ b
  | closed => exact .refl _ b

/-- Only a greeting and a password are replied to, and then another message is awaited. -/
theorem stage_of_reply {message : Bytes} (h : (m.advance b).outcome = .reply message) :
    m.stage = .greeting ∧ (m.advance b).machine.stage = m.stageAfterGreeting ∨
      m.stage = .password ∧ (m.advance b).machine.stage = .request := by
  match hs : m.stage with
  | .greeting =>
    have hadv : m.advance b = m.onGreeting b := by simp only [advance, hs]
    rw [hadv] at h ⊢
    obtain ⟨hm, -⟩ := onGreeting_eq_reply_iff.mp ⟨message, by rw [← h]⟩
    exact .inl ⟨rfl, congrArg stage hm⟩
  | .password =>
    have hadv : m.advance b = m.onPassword b := by simp only [advance, hs]
    rw [hadv] at h ⊢
    obtain ⟨hm, -⟩ := onPassword_eq_reply_iff.mp ⟨message, by rw [← h]⟩
    exact .inr ⟨rfl, congrArg stage hm⟩
  | .request =>
    have hadv : m.advance b = m.onRequest b := by simp only [advance, hs]
    rw [hadv] at h
    exact absurd h (m.onRequest_ne_reply b message)
  | .established | .closed =>
    simp only [advance, hs] at h
    cases h

theorem remaining_pos_of_reply {message : Bytes} (h : (m.advance b).outcome = .reply message) :
    0 < (m.advance b).machine.stage.remaining := by
  rcases stage_of_reply h with ⟨-, hs⟩ | ⟨-, hs⟩
  · rw [hs]
    unfold stageAfterGreeting
    split <;> decide
  · rw [hs]
    decide

/-- A reply leaves room for the messages that may still follow. -/
theorem budget_of_reply {message : Bytes} (h : (m.advance b).outcome = .reply message) :
    m.stage.longest + (m.advance b).machine.stage.budget ≤ m.stage.budget := by
  rcases stage_of_reply h with ⟨hm, hs⟩ | ⟨hm, hs⟩
  · rw [hm, hs]
    unfold stageAfterGreeting
    split <;> decide
  · rw [hm, hs]
    decide

/-- Whatever is not an error and does not wait takes the machine on. -/
theorem remaining_lt_of_decided (hw : (m.advance b).outcome ≠ .needMore)
    (he : ∀ f, (m.advance b).outcome ≠ .abort f) :
    (m.advance b).machine.stage.remaining < m.stage.remaining := by
  have hpos : 0 < m.stage.remaining := by
    match hs : m.stage with
    | .greeting | .password | .request => decide
    | .established => exact absurd (congrArg Turn.outcome (advance_of_established hs)) (he _)
    | .closed => exact absurd (congrArg Turn.outcome (advance_of_closed hs)) (he _)
  have hd := m.advance_decides b
  generalize m.advance b = t at hw he hd ⊢
  cases hd with
  | waits => exact absurd rfl hw
  | replies hlt => exact hlt
  | garbles => exact absurd rfl (he _)
  | grants => exact hpos
  | refuses => exact hpos

end Turns

/-- The turns of a machine that is given a byte string in pieces, up to the turn that ends it. Each
piece goes behind what the turn before has left. -/
def course (m : Negotiation) (held : Bytes) : List Bytes → List Turn
  | [] => []
  | piece :: later =>
    let t := m.advance (held ++ piece)
    t :: if t.outcome.ends then [] else t.machine.course t.rest later

section Course

variable {m : Negotiation} {b : Bytes}

/-- A turn that does not end the machine waits or replies. -/
theorem waits_or_replies (h : (m.advance b).outcome.ends = false) :
    m.advance b = ⟨.needMore, m, b⟩ ∨ ∃ message, (m.advance b).outcome = .reply message := by
  match ho : (m.advance b).outcome with
  | .needMore => exact .inl (advance_of_needMore ho)
  | .reply message => exact .inr ⟨message, rfl⟩
  | .connect _ _ | .associate _ | .register _ | .reject _ _ | .abort _ =>
    rw [ho] at h
    cases h

/-- Whatever a machine has done after some pieces, it has taken no more than its budget of them. -/
theorem takes_course (m : Negotiation) (held : Bytes) (pieces : List Bytes) {k : Nat} {t : Turn}
    (h : (m.course held pieces)[k]? = some t) :
    Takes m.stage.budget (held ++ (pieces.take (k + 1)).flatten) t.rest := by
  induction pieces generalizing m held k with
  | nil => cases h
  | cons piece later ih =>
    rw [course] at h
    have htake := m.takes_advance (held ++ piece)
    rw [List.take_succ_cons, List.flatten_cons, ← List.append_assoc]
    cases k with
    | zero =>
      cases h
      rw [List.take_zero, List.flatten_nil, List.append_nil]
      exact htake.mono m.stage.longest_le_budget
    | succ k =>
      rw [List.getElem?_cons_succ] at h
      by_cases he : (m.advance (held ++ piece)).outcome.ends = true
      · rw [if_pos he] at h
        cases h
      · rw [if_neg he] at h
        have hlater := ih _ _ h
        rcases waits_or_replies (Bool.eq_false_iff.mpr he) with hw | ⟨message, hr⟩
        · rw [hw] at hlater
          exact hlater
        · exact ((htake.append _).trans hlater).mono (budget_of_reply hr)

/-- A machine says no more than it may still accept. -/
theorem countP_course_le (m : Negotiation) (held : Bytes) (pieces : List Bytes)
    (hm : 0 < m.stage.remaining) :
    (m.course held pieces).countP (·.outcome ≠ .needMore) ≤ m.stage.remaining := by
  induction pieces generalizing m held with
  | nil => exact Nat.zero_le _
  | cons piece later ih =>
    rw [course]
    by_cases he : (m.advance (held ++ piece)).outcome.ends = true
    · rw [if_pos he]
      exact Nat.le_trans List.countP_le_length hm
    · rw [if_neg he]
      rcases waits_or_replies (Bool.eq_false_iff.mpr he) with hw | ⟨message, hr⟩
      · rw [hw, List.countP_cons_of_neg (by simp)]
        exact ih m _ hm
      · rw [List.countP_cons_of_pos (by simp [hr])]
        exact Nat.lt_of_le_of_lt (ih _ _ (remaining_pos_of_reply hr)) (remaining_lt_of_reply hr)

end Course

section Conversation

variable {relay : Except IoError Ip.Socket} {m : Negotiation} {buf heard said : Bytes}

/-- A machine that waits reads, and then looks at what it held with what it has read behind it. If
it has read nothing, the conversation fails. -/
theorem exists_converse_of_needMore (relay : Except IoError Ip.Socket)
    (h : (m.advance buf).outcome = .needMore) : ∃ next : Except IoError Bytes → Exchange Admission,
      m.converse relay buf = Dialogue.read longestIncomplete next ∧
        (∀ more, more ≠ [] → next (.ok more) = m.converse relay (buf ++ more)) ∧
        ∀ r, (∀ more, r = .ok more → more = []) → ∃ f, next r = Dialogue.done (.error f) := by
  rw [converse_eq, h]
  refine ⟨_, rfl, fun more hm => if_neg hm, fun r hr => ?_⟩
  cases r with
  | error e => exact ⟨_, rfl⟩
  | ok more => exact ⟨_, if_pos (hr more rfl)⟩

/-- Whenever a conversation reads, it is that of a machine that waits, and all that has been taken
is within the budget. -/
theorem exists_of_talks_converse {limit : Nat} {next : Except IoError Bytes → Exchange Admission}
    (h : Dialogue.Talks (m.converse relay buf) heard said (.read limit next)) :
    ∃ (m' : Negotiation) (held : Bytes), Dialogue.read limit next = m'.converse relay held ∧
      (m'.advance held).outcome = .needMore ∧ Takes m.stage.budget (buf ++ heard) held := by
  induction m, buf using converse.induct relay generalizing heard said with
  | case2 m buf hm ih =>
    obtain ⟨next', hc, hmore, hnone⟩ := exists_converse_of_needMore relay hm
    have hfails : ∀ r, (∀ more, r = .ok more → more = []) → ∀ {heard said},
        ¬ Dialogue.Talks (next' r) heard said (.read limit next) := by
      intro r hr heard said h
      obtain ⟨f, hf⟩ := hnone r hr
      rw [hf] at h
      cases h
    have hd := hc
    rw [hc] at h
    cases h with
    | here => exact ⟨m, buf, hd.symm, hm, by rw [List.append_nil]; exact .refl _ buf⟩
    | readFails h => exact absurd h (hfails _ fun _ hr => by cases hr)
    | @read _ _ more heard _ _ h =>
      by_cases he : more = []
      · exact absurd h (hfails (.ok more) fun _ hr => by cases hr; exact he)
      · rw [hmore more he] at h
        rw [← List.append_assoc]
        exact ih more he h
  | case3 m buf message hm hlt ih =>
    rw [converse_eq, hm] at h
    rcases Exchange.talks_send_bind h with hn | ⟨said', hf⟩
    · exact absurd rfl (hn _ _)
    · obtain ⟨m', held, hd, hw, ht⟩ := ih hf
      exact ⟨m', held, hd, hw,
        (((m.takes_advance buf).append heard).trans ht).mono (budget_of_reply hm)⟩
  | case1 m buf _ hm | case4 m buf _ _ hm | case5 m buf _ hm | case6 m buf _ hm | case7 m buf _ hm
  | case8 m buf _ _ hm =>
    have hw : (m.advance buf).outcome ≠ .needMore := by simp [hm]
    have hr : ∀ message, (m.advance buf).outcome ≠ .reply message := by simp [hm]
    have hmute := (mute_converse_of_last relay hw hr).of_talks h
    cases hmute

/-- What a verdict leaves is all but what the messages up to it can have taken. -/
theorem takes_judge (relay : Except IoError Ip.Socket) (m : Negotiation) (s : Bytes) :
    Takes m.stage.budget s (m.judge relay s).rest := by
  induction m, s using judge.induct relay with
  | case3 m s message h hlt ih =>
    rw [judge_eq, h]
    exact ((m.takes_advance s).trans ih).mono (budget_of_reply h)
  | case5 m s _ h | case6 m s _ h =>
    rw [judge_eq, h]
    cases relay <;> exact (m.takes_advance s).mono m.stage.longest_le_budget
  | case1 m s _ h | case2 m s h | case4 m s _ _ h | case7 m s _ h | case8 m s _ _ h =>
    rw [judge_eq, h]
    exact (m.takes_advance s).mono m.stage.longest_le_budget

end Conversation

/-- **The front end takes and holds a bounded number of bytes.** No machine waits with 513 bytes or
more, and every outcome but an error and waiting takes a machine on. However the bytes of a client
are cut, the turns of a fresh machine, up to the one that ends it, have at most three outcomes
other than waiting, and take at most a longest greeting, a longest password and a longest request.
So a conversation ends on every channel on which no more will arrive than has arrived. Whenever it
reads it holds at most 512 bytes, and it goes on with these and what it has read. A client that is
admitted has all else that it has sent still pending. -/
theorem appetite_is_bounded (credentials : Option Credentials) (trusted registrations : Bool) :
    let start : Negotiation :=
      { credentials := credentials, trusted := trusted, registrations := registrations }
    (∀ (m : Negotiation) (b : Bytes), 513 ≤ b.length → (m.advance b).outcome ≠ .needMore) ∧
    (∀ (m : Negotiation) (b : Bytes), (m.advance b).outcome ≠ .needMore →
      (∀ f, (m.advance b).outcome ≠ .abort f) →
      (m.advance b).machine.stage.remaining < m.stage.remaining) ∧
    (∀ pieces : List Bytes,
      (start.course [] pieces).countP (·.outcome ≠ .needMore) ≤ 3 ∧
      ∀ k t, (start.course [] pieces)[k]? = some t →
        Takes (257 + 513 + 262) (pieces.take (k + 1)).flatten t.rest) ∧
    ∀ relay : Except IoError Ip.Socket,
      (∀ l : Link, l.inlet.source.closed = true →
        ∃ r l', Dialogue.run (start.converse relay []) l = (.done r, l')) ∧
      (∀ heard said limit next,
        Dialogue.Talks (start.converse relay []) heard said (.read limit next) →
        ∃ (m : Negotiation) (held : Bytes), Takes (257 + 513 + 262) heard held ∧
          held.length ≤ 512 ∧ Dialogue.read limit next = m.converse relay held ∧
          ∀ more, more ≠ [] → next (.ok more) = m.converse relay (held ++ more)) ∧
      ∀ heard said a, Dialogue.Talks (start.converse relay []) heard said (.done (.ok a)) →
        Takes (257 + 513 + 262) heard a.pending := by
  intro start
  have hbudget : start.stage.budget = 257 + 513 + 262 := rfl
  refine ⟨fun m b hb hw => ?_, fun m b hw he => remaining_lt_of_decided hw he,
    fun pieces => ⟨start.countP_course_le [] pieces (Nat.succ_pos 2), fun k t ht => ?_⟩,
    fun relay => ⟨fun l hl => (start.converse relay []).exists_run hl,
      fun heard said limit next h => ?_, fun heard said a h => ?_⟩⟩
  · exact absurd (le_of_needMore hw) (Nat.not_le.mpr hb)
  · have htake := start.takes_course [] pieces ht
    rwa [hbudget, List.nil_append] at htake
  · obtain ⟨m, held, hd, hw, htake⟩ := exists_of_talks_converse h
    obtain ⟨next', hc, hmore, -⟩ := exists_converse_of_needMore relay hw
    obtain ⟨-, rfl⟩ := Dialogue.read.inj (hd.trans hc)
    rw [hbudget, List.nil_append] at htake
    exact ⟨m, held, htake, le_of_needMore hw, hd, hmore⟩
  · obtain ⟨-, hp⟩ := judge_admits_of_follows h.follows
    have htake := start.takes_judge relay ([] ++ heard)
    rwa [hp, hbudget, List.nil_append] at htake

/-- A byte of a greeting is held while more is awaited, and what a client sends behind its request
is pending. -/
theorem first_byte_is_held :
    let start : Negotiation := {}
    let relay : Except IoError Ip.Socket := .ok ⟨.v4 .unspecified, 0⟩
    (start.advance (List.replicate 513 5)).outcome ≠ .needMore ∧
    (start.advance [5, 1, 0, 5]).machine.stage.remaining < start.stage.remaining ∧
    Takes (257 + 513 + 262) [5, 1, 0, 5] [5] ∧
    (∃ r l', Dialogue.run (start.converse relay [])
      { inlet := { source := { arrivals := [.chunk [5]], closed := true } } } = (.done r, l')) ∧
    (∃ (m : Negotiation) (held : Bytes), Takes (257 + 513 + 262) [5] held ∧ held.length ≤ 512 ∧
      start.converse relay [5] = m.converse relay held) ∧
    ∃ (heard said pending : Bytes) (destination : Endpoint),
      Dialogue.Talks (start.converse relay []) heard said
        (.done (.ok ⟨.connect destination, pending, false⟩)) ∧
      Takes (257 + 513 + 262) heard pending := by
  intro start relay
  obtain ⟨hlong, hon, hcourse, hrun⟩ := appetite_is_bounded none false false
  obtain ⟨hends, hreads, hadmits⟩ := hrun relay
  refine ⟨hlong start _ (Nat.le_of_eq List.length_replicate.symm),
    hon start _ (by decide) (fun f h => by cases h), (hcourse [[5], [1, 0, 5]]).2 1 _ rfl,
    hends _ rfl, ?_, ?_⟩
  · have hnil : (start.advance []).outcome = .needMore := by decide
    have hone : (start.advance [5]).outcome = .needMore := by decide
    obtain ⟨next, hc, hmore, -⟩ := exists_converse_of_needMore relay hnil
    obtain ⟨next', hc', -, -⟩ := exists_converse_of_needMore relay hone
    have htalks : Dialogue.Talks (start.converse relay []) [5] [] (start.converse relay [5]) := by
      rw [hc, ← List.append_nil [5]]
      refine .read ?_
      rw [List.append_nil, hmore [5] (List.cons_ne_nil _ _)]
      exact .here
    rw [hc'] at htalks ⊢
    obtain ⟨m, held, htake, hl, hd, -⟩ := hreads _ _ _ _ htalks
    exact ⟨m, held, htake, hl, hd⟩
  · let s : Bytes := [5, 1, 0, 5, 1, 0, 1, 10, 0, 0, 1, 0, 80, 7]
    let l : Link := { inlet := { source := { arrivals := [.chunk s], closed := true } } }
    have hi : l.inlet.Delivers s := by
      refine ⟨rfl, rfl, ?_, rfl⟩
      simp [l, s, Arrival.Delivers]
    have ho : l.outlet.Takes := by
      refine ⟨rfl, ?_, ?_⟩ <;> simp [l]
    have hreply : start.advance s =
        ⟨.reply [5, 0], { start with stage := .request }, s.drop 3⟩ := by decide
    obtain ⟨pending, s', l', hr, -⟩ := run_converse relay start [] hi ho
    rw [List.nil_append, judge_of_reply hreply, judge_eq] at hr
    have htalks := Dialogue.talks_run (start.converse relay []) l
    rw [hr] at htalks
    exact ⟨_, _, pending, _, htalks, hadmits _ _ _ htalks⟩

end Negotiation

end SocksChain.Socks
