import SocksChain.Proofs.Channel.Encounter
import SocksChain.Proofs.Channel.Waiting
import SocksChain.Proofs.Socks.Finality
import SocksChain.Proofs.Socks.Reception

/-!
A machine that is fed a byte string in pieces. It comes to the same as if it had been given all of
it at once, so how the bytes were cut cannot be seen from what it does. The same is true of a
conversation over a channel, which sends the same bytes, however its client's bytes arrive and
however its own are taken.
-/

namespace SocksChain.Socks

open Channel

namespace Negotiation

/-- What a machine has done with its buffer: the outcomes of its turns but for those that wait, the
machine, the bytes that are left, and whether the last turn has ended it. -/
structure Feeding where
  outcomes : List Outcome
  machine : Negotiation
  rest : Bytes
  ended : Bool

/-- One outcome before those of a feeding. -/
def Feeding.preceded (x : Outcome) (f : Feeding) : Feeding := { f with outcomes := x :: f.outcomes }

/-- The outcomes of one feeding and then those of the next. -/
def Feeding.followed (f g : Feeding) : Feeding := { g with outcomes := f.outcomes ++ g.outcomes }

/-- Turns on one buffer, up to the first that waits or ends the machine. -/
def exhaust (m : Negotiation) (buf : Bytes) : Feeding :=
  match h : (m.advance buf).outcome with
  | .needMore => ⟨[], (m.advance buf).machine, (m.advance buf).rest, false⟩
  | .reply message =>
    have := remaining_lt_of_reply h
    (exhaust (m.advance buf).machine (m.advance buf).rest).preceded (.reply message)
  | outcome => ⟨[outcome], (m.advance buf).machine, (m.advance buf).rest, true⟩
termination_by m.stage.remaining

/-- Adds each piece to the buffer and exhausts it; once the machine has ended, no further piece is
looked at. -/
def feed (m : Negotiation) (buf : Bytes) : List Bytes → Feeding
  | [] => ⟨[], m, buf, false⟩
  | piece :: later =>
    let f := m.exhaust (buf ++ piece)
    if f.ended then { f with rest := f.rest ++ later.flatten }
    else f.followed (f.machine.feed f.rest later)

section Feeding

variable {m : Negotiation} {buf : Bytes}

theorem exhaust_of_needMore (h : (m.advance buf).outcome = .needMore) :
    m.exhaust buf = ⟨[], m, buf, false⟩ := by
  rw [exhaust.eq_def]
  split
  · rw [advance_of_needMore h]
  · rename_i message h'
    cases h.symm.trans h'
  · rename_i hw _
    exact absurd h hw

theorem exhaust_of_reply {message : Bytes} (h : (m.advance buf).outcome = .reply message) :
    m.exhaust buf =
      ((m.advance buf).machine.exhaust (m.advance buf).rest).preceded (.reply message) := by
  rw [exhaust.eq_def]
  split
  · rename_i h'
    cases h.symm.trans h'
  · rename_i message' h'
    cases h.symm.trans h'
    rfl
  · rename_i hr
    exact absurd h (hr message)

theorem exhaust_of_last (hw : (m.advance buf).outcome ≠ .needMore)
    (hr : ∀ message, (m.advance buf).outcome ≠ .reply message) :
    m.exhaust buf =
      ⟨[(m.advance buf).outcome], (m.advance buf).machine, (m.advance buf).rest, true⟩ := by
  rw [exhaust.eq_def]
  split
  · rename_i h
    exact absurd h hw
  · rename_i message h
    exact absurd h (hr message)
  · rfl

/-- A reply is the same with more behind it, which is left with the rest. -/
theorem advance_append_of_reply {message : Bytes} (h : (m.advance buf).outcome = .reply message)
    (t : Bytes) : m.advance (buf ++ t) =
      ⟨.reply message, (m.advance buf).machine, (m.advance buf).rest ++ t⟩ := by
  rw [m.advance_append t (by rw [h]; nofun), Turn.extend, h]

/-- What is behind the bytes on which a machine ends is left with the rest. -/
theorem exhaust_append_of_ended (t : Bytes) (h : (m.exhaust buf).ended = true) :
    m.exhaust (buf ++ t) = { m.exhaust buf with rest := (m.exhaust buf).rest ++ t } := by
  induction m, buf using exhaust.induct with
  | case1 m buf hw =>
    rw [exhaust_of_needMore hw] at h
    cases h
  | case2 m buf message hm hlt ih =>
    have ha := advance_append_of_reply hm t
    rw [exhaust_of_reply hm] at h ⊢
    rw [exhaust_of_reply (congrArg Turn.outcome ha), ha]
    exact congrArg _ (ih h)
  | case3 m buf hw hr =>
    have ha := m.advance_append t hw
    rw [exhaust_of_last hw hr, exhaust_of_last (by rw [ha]; exact hw) (by rw [ha]; exact hr), ha]
    rfl

/-- A machine that waits for more goes on from where it is. -/
theorem exhaust_append_of_not_ended (t : Bytes) (h : (m.exhaust buf).ended = false) :
    m.exhaust (buf ++ t) =
      (m.exhaust buf).followed ((m.exhaust buf).machine.exhaust ((m.exhaust buf).rest ++ t)) := by
  induction m, buf using exhaust.induct with
  | case1 m buf hw =>
    rw [exhaust_of_needMore hw]
    rfl
  | case2 m buf message hm hlt ih =>
    have ha := advance_append_of_reply hm t
    rw [exhaust_of_reply hm] at h ⊢
    rw [exhaust_of_reply (congrArg Turn.outcome ha), ha]
    exact congrArg _ (ih h)
  | case3 m buf hw hr =>
    rw [exhaust_of_last hw hr] at h
    cases h

theorem needMore_of_not_ended (h : (m.exhaust buf).ended = false) :
    ((m.exhaust buf).machine.advance (m.exhaust buf).rest).outcome = .needMore := by
  induction m, buf using exhaust.induct with
  | case1 m buf hw =>
    rw [exhaust_of_needMore hw]
    exact hw
  | case2 m buf message hm hlt ih =>
    rw [exhaust_of_reply hm] at h ⊢
    exact ih h
  | case3 m buf hw hr =>
    rw [exhaust_of_last hw hr] at h
    cases h

end Feeding

/-- A machine that waits does with pieces what it does with all of them at once. -/
theorem feed_eq_exhaust {m : Negotiation} {buf : Bytes}
    (h : (m.advance buf).outcome = .needMore) (pieces : List Bytes) :
    m.feed buf pieces = m.exhaust (buf ++ pieces.flatten) := by
  induction pieces generalizing m buf with
  | nil =>
    rw [List.flatten_nil, List.append_nil, exhaust_of_needMore h]
    rfl
  | cons piece later ih =>
    rw [feed, List.flatten_cons, ← List.append_assoc]
    by_cases he : (m.exhaust (buf ++ piece)).ended = true
    · rw [exhaust_append_of_ended later.flatten he]
      exact if_pos he
    · have hn := Bool.eq_false_iff.mpr he
      rw [exhaust_append_of_not_ended later.flatten hn, ← ih (needMore_of_not_ended hn)]
      exact if_neg he

section Conversation

variable {relay : Except IoError Ip.Socket} {m : Negotiation} {buf s : Bytes}

/-- Goes on with what an exchange gives; if it fails, gives what is kept along with the failure. -/
def keeping {α β : Type} (kept : Bytes) (x : Exchange α)
    (f : α → Dialogue (Except (Failure × Bytes) β)) : Dialogue (Except (Failure × Bytes) β) :=
  Dialogue.bind x fun
    | .ok a => f a
    | .error e => .done (.error (e, kept))

/-- A machine that waits has less room for more with every byte. -/
theorem room_lt_of_needMore {more : Bytes} (h : (m.advance buf).outcome = .needMore)
    (he : more ≠ []) : longestIncomplete + 1 - (buf ++ more).length <
      longestIncomplete + 1 - buf.length := by
  have hb := le_of_needMore h
  have hm := List.length_pos_iff.mpr he
  rw [List.length_append]
  omega

/-- The same conversation, which also gives what its buffer holds when it fails. -/
def converseKeeping (relay : Except IoError Ip.Socket) (m : Negotiation) (buf : Bytes) :
    Dialogue (Except (Failure × Bytes) Admission) :=
  match h : (m.advance buf).outcome with
  | .needMore =>
    keeping buf (Exchange.read longestIncomplete) fun more =>
      if he : more = [] then .done (.error (.protocol (.closedDuring m.stage.name), buf))
      else
        have := room_lt_of_needMore h he
        converseKeeping relay m (buf ++ more)
  | .reply message =>
    have := remaining_lt_of_reply h
    keeping (m.advance buf).rest (Exchange.send message) fun _ =>
      converseKeeping relay (m.advance buf).machine (m.advance buf).rest
  | _ => keeping (m.advance buf).rest (m.converse relay buf) fun a => .done (.ok a)
termination_by (m.stage.remaining, longestIncomplete + 1 - buf.length)
decreasing_by
  · exact Prod.Lex.right _ this
  · exact Prod.Lex.left _ _ this

theorem converseKeeping_of_needMore (h : (m.advance buf).outcome = .needMore) :
    m.converseKeeping relay buf =
      keeping buf (Exchange.read longestIncomplete) fun more =>
        if more = [] then .done (.error (.protocol (.closedDuring m.stage.name), buf))
        else m.converseKeeping relay (buf ++ more) := by
  rw [converseKeeping.eq_def]
  split
  · rfl
  · rename_i message h'
    cases h.symm.trans h'
  · rename_i hw _
    exact absurd h hw

theorem converseKeeping_of_reply {message : Bytes}
    (h : (m.advance buf).outcome = .reply message) :
    m.converseKeeping relay buf =
      keeping (m.advance buf).rest (Exchange.send message) fun _ =>
        (m.advance buf).machine.converseKeeping relay (m.advance buf).rest := by
  rw [converseKeeping.eq_def]
  split
  · rename_i h'
    cases h.symm.trans h'
  · rename_i message' h'
    cases h.symm.trans h'
    rfl
  · rename_i hr
    exact absurd h (hr message)

theorem converseKeeping_of_last (hw : (m.advance buf).outcome ≠ .needMore)
    (hr : ∀ message, (m.advance buf).outcome ≠ .reply message) :
    m.converseKeeping relay buf =
      keeping (m.advance buf).rest (m.converse relay buf) fun a => .done (.ok a) := by
  rw [converseKeeping.eq_def]
  split
  · rename_i h
    exact absurd h hw
  · rename_i message h
    exact absurd h (hr message)
  · rfl

theorem map_keeping {α β : Type} (kept : Bytes) (x : Exchange α)
    {f : α → Dialogue (Except (Failure × Bytes) β)} {g : α → Exchange β}
    (h : ∀ a, Except.mapError Prod.fst <$> f a = g a) :
    Except.mapError Prod.fst <$> keeping kept x f = (x >>= g : Exchange β) := by
  refine (bind_assoc (m := Dialogue) x _ _).trans ?_
  refine congrArg (Dialogue.bind x) (funext fun r => ?_)
  cases r with
  | error e => rfl
  | ok a => exact h a

/-- But for what it gives in addition, it is the conversation. -/
theorem map_converseKeeping (relay : Except IoError Ip.Socket) (m : Negotiation) (buf : Bytes) :
    Except.mapError Prod.fst <$> m.converseKeeping relay buf = m.converse relay buf := by
  induction m, buf using converse.induct relay with
  | case2 m buf h ih =>
    rw [converseKeeping_of_needMore h, converse_eq, h]
    refine map_keeping buf _ fun more => ?_
    split
    · rfl
    · rename_i hm
      exact ih more hm
  | case3 m buf message h hlt ih =>
    rw [converseKeeping_of_reply h, converse_eq, h]
    exact map_keeping _ _ fun _ => ih
  | case1 m buf _ h | case4 m buf _ _ h | case5 m buf _ h | case6 m buf _ h | case7 m buf _ h
  | case8 m buf _ _ h =>
    have hw : (m.advance buf).outcome ≠ .needMore := by simp [h]
    have hr : ∀ message, (m.advance buf).outcome ≠ .reply message := by simp [h]
    rw [converseKeeping_of_last hw hr]
    exact (map_keeping _ _ fun a => rfl).trans (bind_pure _)

/-- The last turn sends what it sends whatever comes behind it, and leaves that with the rest. -/
theorem converse_append_of_last (relay : Except IoError Ip.Socket) (t : Bytes)
    (hw : (m.advance buf).outcome ≠ .needMore)
    (hr : ∀ message, (m.advance buf).outcome ≠ .reply message) :
    m.converse relay (buf ++ t) =
      (fun a => { a with pending := a.pending ++ t }) <$> m.converse relay buf := by
  rw [converse_eq relay m (buf ++ t), converse_eq relay m buf, m.advance_append t hw]
  simp only [Turn.extend]
  match h : (m.advance buf).outcome with
  | .needMore => exact absurd h hw
  | .reply message => exact absurd h (hr message)
  | .abort f => rfl
  | .register real => rfl
  | .connect message destination => simp only [map_bind, map_pure]
  | .reject message f =>
    rw [map_bind]
    rfl
  | .associate hint =>
    cases relay with
    | error e => rfl
    | ok bound => simp only [map_bind, map_pure]

theorem mute_converse_of_last (relay : Except IoError Ip.Socket)
    (hw : (m.advance buf).outcome ≠ .needMore)
    (hr : ∀ message, (m.advance buf).outcome ≠ .reply message) :
    Dialogue.Mute (m.converse relay buf) := by
  rw [converse_eq]
  match h : (m.advance buf).outcome with
  | .needMore => exact absurd h hw
  | .reply message => exact absurd h (hr message)
  | .abort f => exact .done
  | .register real => exact .done
  | .connect message destination => exact Exchange.mute_bind (Exchange.mute_send _) fun _ => .done
  | .reject message f => exact Exchange.mute_bind (Exchange.mute_send _) fun _ => .done
  | .associate hint =>
    cases relay with
    | error e => exact .done
    | ok bound => exact Exchange.mute_bind (Exchange.mute_send _) fun _ => .done

/-- What can be told of a conversation that has come to an end: what it has come to, and the bytes
of its client that it has left unconsumed, in its buffer or on the channel. -/
def ending (i : Inlet) : Except (Failure × Bytes) Admission → Except Failure (Intent × Bool) × Bytes
  | .ok a => (.ok (a.intent, a.authenticated), a.pending ++ i.source.unread)
  | .error (e, kept) => (.error e, kept ++ i.source.unread)

/-- The same of one that has been run, and what has become of the outlet. -/
def seen (x : Dialogue (Except (Failure × Bytes) Admission) × Link) :
    Option (Except Failure (Intent × Bool) × Bytes) × Outlet :=
  (x.1.value?.map (ending x.2.inlet), x.2.outlet)

/-- **Bytes that arrive in pieces make no difference to having them all from the start.** -/
theorem seen_converseKeeping (relay : Except IoError Ip.Socket) (m : Negotiation) (buf : Bytes)
    {arrivals : List Arrival} {s : Bytes} (h : Pieces arrivals s) (after : List Arrival)
    (closed : Bool) (o : Outlet) :
    seen ((m.converseKeeping relay buf).run ⟨⟨⟨arrivals ++ after, closed⟩, none⟩, o⟩) =
      seen ((m.converseKeeping relay (buf ++ s)).run ⟨⟨⟨after, closed⟩, none⟩, o⟩) := by
  have hunread := h.unread_append after closed
  induction m, buf using converse.induct relay generalizing arrivals s o with
  | case2 m buf hm ih =>
    rcases h.retry_read after closed (by decide : 0 < longestIncomplete) with
      ⟨rfl, hr⟩ | ⟨b, left, s', hr, hleft, rfl, hb⟩
    · rw [List.append_nil, converseKeeping_of_needMore hm]
      simp only [keeping, Exchange.read, ExceptT.mk, Dialogue.bind, Dialogue.run, hr]
    · rw [← List.append_assoc, ← ih b hb hleft o (hleft.unread_append after closed),
        converseKeeping_of_needMore hm]
      simp only [keeping, Exchange.read, ExceptT.mk, Dialogue.bind, Dialogue.run, hr, if_neg hb]
  | case3 m buf message hm hlt ih =>
    have ha := advance_append_of_reply hm s
    obtain ⟨v, o', hrun⟩ := (Exchange.mute_send message).exists_run o
    rw [converseKeeping_of_reply hm, converseKeeping_of_reply (congrArg Turn.outcome ha), ha,
      keeping, keeping, Dialogue.run_bind _ _ _ (hrun _), Dialogue.run_bind _ _ _ (hrun _)]
    cases v with
    | error e =>
      simp only [Dialogue.run, seen, Dialogue.value?, ending, Option.map_some, hunread,
        List.append_assoc]
    | ok _ => exact ih h o' hunread
  | case1 m buf _ hm | case4 m buf _ _ hm | case5 m buf _ hm | case6 m buf _ hm | case7 m buf _ hm
  | case8 m buf _ _ hm =>
    have hw : (m.advance buf).outcome ≠ .needMore := by simp [hm]
    have hr : ∀ message, (m.advance buf).outcome ≠ .reply message := by simp [hm]
    have ha := m.advance_append s hw
    have hw' : (m.advance (buf ++ s)).outcome ≠ .needMore := by
      rw [ha]
      exact hw
    have hr' : ∀ message, (m.advance (buf ++ s)).outcome ≠ .reply message := by
      rw [ha]
      exact hr
    obtain ⟨v, o', hrun⟩ := (mute_converse_of_last relay hw hr).exists_run o
    rw [converseKeeping_of_last hw hr, converseKeeping_of_last hw' hr',
      converse_append_of_last relay s hw hr, ha, keeping, keeping,
      Dialogue.run_bind _ _ _ (hrun _), Dialogue.run_bind _ _ _ (Exchange.run_map _ (hrun _))]
    cases v <;> simp only [Dialogue.run, Except.map, seen, Dialogue.value?, ending, Option.map_some,
      hunread, Turn.extend, List.append_assoc]

/-- What a conversation has come to, but for the bytes that are left. -/
def result? (d : Dialogue (Except Failure Admission)) : Option (Except Failure (Intent × Bool)) :=
  d.value?.map fun v => v.map fun a => (a.intent, a.authenticated)

/-- The bytes of its client that a conversation leaves unconsumed when it ends. -/
def unconsumed? (relay : Except IoError Ip.Socket) (m : Negotiation) (l : Link) : Option Bytes :=
  (seen ((m.converseKeeping relay []).run l)).1.map Prod.snd

theorem run_converse_eq (relay : Except IoError Ip.Socket) (m : Negotiation) (l : Link) :
    Dialogue.run (m.converse relay []) l =
      (Except.mapError Prod.fst <$> ((m.converseKeeping relay []).run l).1,
        ((m.converseKeeping relay []).run l).2) := by
  rw [← map_converseKeeping]
  exact Dialogue.run_map _ _ l

theorem seen_eq (x : Dialogue (Except (Failure × Bytes) Admission) × Link) :
    ((seen x).1.map Prod.fst, (seen x).2) =
      (result? (Except.mapError Prod.fst <$> x.1), x.2.outlet) := by
  obtain ⟨d, l⟩ := x
  match d with
  | .done (.ok a) => rfl
  | .done (.error (e, kept)) => rfl
  | .read _ _ => rfl
  | .write _ _ => rfl
  | .flush _ => rfl

end Conversation

/-- **How the bytes of a client are cut makes no difference.** Fed in any pieces, a machine has the
same outcomes, and it is the same machine with the same bytes left in the end. A conversation comes
to the same, has sent the same bytes and leaves the same bytes unconsumed, whatever becomes of its
writes and whatever comes behind the pieces; and it comes to an end if the channel does. -/
theorem cutting_makes_no_difference (credentials : Option Credentials)
    (trusted registrations : Bool) (s : Bytes) :
    let start : Negotiation :=
      { credentials := credentials, trusted := trusted, registrations := registrations }
    (∀ pieces pieces' : List Bytes, pieces.flatten = s → pieces'.flatten = s →
      start.feed [] pieces = start.feed [] pieces') ∧
    ∀ (relay : Except IoError Ip.Socket) (outlet : Outlet) (arrivals arrivals' after : List Arrival)
      (closed : Bool), Pieces arrivals s → Pieces arrivals' s →
      let l : Link := ⟨⟨⟨arrivals ++ after, closed⟩, none⟩, outlet⟩
      let l' : Link := ⟨⟨⟨arrivals' ++ after, closed⟩, none⟩, outlet⟩
      let x := Dialogue.run (start.converse relay []) l
      let x' := Dialogue.run (start.converse relay []) l'
      result? x.1 = result? x'.1 ∧ x.2.outlet = x'.2.outlet ∧
        start.unconsumed? relay l = start.unconsumed? relay l' ∧
        (∀ a, x.1 = .done (.ok a) →
          start.unconsumed? relay l = some (a.pending ++ x.2.inlet.source.unread)) ∧
        (closed = true → ∃ v, x.1 = .done v) := by
  intro start
  refine ⟨?_, ?_⟩
  · intro pieces pieces' h h'
    have hw : (start.advance []).outcome = .needMore := rfl
    rw [feed_eq_exhaust hw, feed_eq_exhaust hw, h, h']
  · intro relay outlet arrivals arrivals' after closed h h' l l' x x'
    have hseen : seen ((start.converseKeeping relay []).run l) =
        seen ((start.converseKeeping relay []).run l') :=
      (seen_converseKeeping relay start [] h after closed outlet).trans
        (seen_converseKeeping relay start [] h' after closed outlet).symm
    have hx := seen_eq ((start.converseKeeping relay []).run l)
    have hx' := seen_eq ((start.converseKeeping relay []).run l')
    have hrun : x = _ := run_converse_eq relay start l
    have hrun' : x' = _ := run_converse_eq relay start l'
    rw [hseen, hx'] at hx
    obtain ⟨hresult, houtlet⟩ := Prod.mk.inj hx
    refine ⟨?_, ?_, ?_, ?_, ?_⟩
    · rw [hrun, hrun', ← hresult]
    · rw [hrun, hrun', ← houtlet]
    · rw [unconsumed?, unconsumed?, hseen]
    · intro a ha
      rw [hrun] at ha ⊢
      rw [unconsumed?, seen]
      match hd : ((start.converseKeeping relay []).run l).1 with
      | .done (.ok a') =>
        rw [hd] at ha
        cases ha
        rfl
      | .done (.error _) | .read _ _ | .write _ _ | .flush _ =>
        rw [hd] at ha
        cases ha
    · intro hc
      obtain ⟨v, l'', hdone⟩ := Dialogue.exists_run_of_closed (start.converse relay []) (l := l)
        ⟨rfl, hc⟩
      exact ⟨v, congrArg Prod.fst hdone⟩

/-- A write that fails inside the second answer, and a client that came in one piece or in three. -/
theorem cutting_makes_no_difference_to_failure :
    let m : Negotiation := { credentials := some ⟨"u", "p"⟩ }
    let outlet : Outlet :=
      { sink := { writes := [.takes 2, .notReady, .takes 1, .fails ⟨.brokenPipe, none⟩] } }
    let s : Bytes := [5, 2, 0, 2, 1, 1, 117, 1, 112, 5, 1]
    let x := Dialogue.run (m.converse (.error ⟨.other, none⟩) [])
      ⟨⟨⟨[.chunk s], true⟩, none⟩, outlet⟩
    let x' := Dialogue.run (m.converse (.error ⟨.other, none⟩) [])
      ⟨⟨⟨[.chunk [5], .notReady, .chunk [2, 0, 2, 1, 1], .chunk [117, 1, 112, 5, 1]], true⟩, none⟩,
        outlet⟩
    result? x.1 = result? x'.1 ∧ x.2.outlet = x'.2.outlet := by
  intro m outlet s x x'
  have h := (cutting_makes_no_difference (some ⟨"u", "p"⟩) false false s).2 (.error ⟨.other, none⟩)
    outlet [.chunk s] [.chunk [5], .notReady, .chunk [2, 0, 2, 1, 1], .chunk [117, 1, 112, 5, 1]] []
    true ⟨by simp [s, Arrival.Delivers], rfl⟩ ⟨by simp [Arrival.Delivers], rfl⟩
  exact ⟨h.1, h.2.1⟩

end Negotiation

end SocksChain.Socks
