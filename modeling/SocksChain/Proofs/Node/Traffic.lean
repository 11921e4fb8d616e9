import Mathlib
import SocksChain.Proofs.Channel.Saying
import SocksChain.Proofs.Node.Passage
import SocksChain.Proofs.Relay.Flushing

/-!
What a node counts of the traffic in its tunnels. A tunnel is run again and again, on links to which
anything may have happened in the meantime; the early bytes go first, then each flow makes its calls
in turn. When a tunnel comes to its good end, the totals are what was delivered each way. When it
breaks off, its totals are lost with it, and what it had delivered by then is not counted at all.
-/

namespace SocksChain

open Channel Relay

/-- What has been said with a message, once it has gone out and been flushed. -/
def Channel.Conversation.sent (c : Conversation (Except Failure Unit)) : Bytes :=
  match c.talk with
  | .done (.ok ()) => c.said
  | _ => []

namespace Tunnel

/-- Runs on one pair of links after the other, that to the client and that to the other side. -/
def after (t : Tunnel) (links : List (Link × Link)) : Tunnel :=
  links.foldl (fun t l => (t.run l.1 l.2).1) t

@[simp] theorem after_concat (t : Tunnel) (links : List (Link × Link)) (l : Link × Link) :
    t.after (links ++ [l]) = ((t.after links).run l.1 l.2).1 := by
  simp [after]

/-- The early bytes that have been delivered by running on these links. -/
def sent (t : Tunnel) (links : List (Link × Link)) : Bytes :=
  (Conversation.run ⟨t.early, [], []⟩ (links.map Prod.snd)).sent

/-- What each flow works on between two links. -/
def lane (t : Tunnel) (client remote : Link) : Direction → Lane
  | .forth => (t.forth, client.inlet, remote.outlet)
  | .back => (t.back, remote.inlet, client.outlet)

/-- The calls that the flows make in one run, after what is left of the early bytes. -/
def CallsAt (t : Tunnel) (client remote : Link) (acts : Direction → List Act) : Prop :=
  let r := t.run client remote
  ∀ x, (t.lane client (t.early.run remote).2 x).Course (acts x) (r.1.lane r.2.1 r.2.2 x)

/-- The calls that the flows make while a tunnel runs on one pair of links after the other. -/
inductive Calls (t : Tunnel) : List (Link × Link) → (Direction → List Act) → Prop
  | start : Calls t [] fun _ => []
  | next {links : List (Link × Link)} {l : Link × Link} {acts more : Direction → List Act} :
      Calls t links acts → (t.after links).CallsAt l.1 l.2 more →
      Calls t (links ++ [l]) fun x => acts x ++ more x

section Running

variable (t : Tunnel)

theorem early_run (client remote : Link) :
    (t.run client remote).1.early = (t.early.run remote).1 := by
  unfold run
  split
  · rename_i hrun
    rw [hrun]
  · rename_i hrun
    rw [hrun]

theorem earlyLength_run (client remote : Link) :
    (t.run client remote).1.earlyLength = t.earlyLength := by
  unfold run
  split <;> rfl

/-- Each flow follows a course of its own, or none while the early bytes are still going out. -/
theorem exists_callsAt (client remote : Link) : ∃ acts, t.CallsAt client remote acts := by
  unfold CallsAt run
  split
  · rename_i remote' hrun
    rw [hrun]
    let d : Duplex := { forth := t.forth, back := t.back, a := client, b := remote' }
    choose acts hacts using d.exists_course_run
    refine ⟨acts, fun x => ?_⟩
    have hcourse := hacts x
    cases x <;> exact hcourse
  · rename_i hrun
    rw [hrun]
    refine ⟨fun _ => [], fun x => ?_⟩
    cases x <;> exact .start

theorem earlyLength_after (links : List (Link × Link)) :
    (t.after links).earlyLength = t.earlyLength := by
  induction links generalizing t with
  | nil => rfl
  | cons l links ih => exact (ih _).trans (t.earlyLength_run l.1 l.2)

theorem early_after (links : List (Link × Link)) : (t.after links).early =
    (Conversation.run ⟨t.early, [], []⟩ (links.map Prod.snd)).talk := by
  suffices h : ∀ heard said, (t.after links).early =
      (Conversation.run ⟨t.early, heard, said⟩ (links.map Prod.snd)).talk from h [] []
  induction links generalizing t with
  | nil => exact fun _ _ => rfl
  | cons l links ih =>
    intro heard said
    show ((t.run l.1 l.2).1.after links).early = _
    rw [ih _ (heard ++ t.early.hears l.2) (said ++ t.early.tells l.2), early_run]
    rfl

theorem exists_calls (links : List (Link × Link)) : ∃ acts, t.Calls links acts := by
  induction links using List.reverseRecOn with
  | nil => exact ⟨_, .start⟩
  | append_singleton links l ih =>
    obtain ⟨acts, hacts⟩ := ih
    obtain ⟨more, hmore⟩ := (t.after links).exists_callsAt l.1 l.2
    exact ⟨_, hacts.next hmore⟩

end Running

variable {t : Tunnel} {pending : Bytes} {links : List (Link × Link)}
  {acts : Direction → List Act}

/-- Each flow has come by its own calls to where it is. -/
theorem Calls.past (h : t.Calls links acts) (hforth : t.forth = {}) (hback : t.back = {}) :
    Past (acts .forth) (t.after links).forth ∧ Past (acts .back) (t.after links).back := by
  induction h with
  | start => exact ⟨hforth ▸ .start, hback ▸ .start⟩
  | next _ hmore ih =>
    rw [after_concat]
    exact ⟨ih.1.course (hmore .forth), ih.2.course (hmore .back)⟩

/-- The early bytes have been delivered as a whole once they have gone out. -/
theorem sent_ofEarly (h : ((ofEarly pending).after links).early = .done (.ok ())) :
    (ofEarly pending).sent links = pending := by
  rw [early_after] at h
  have htalks := Conversation.talks_run (c := ⟨(ofEarly pending).early, [], []⟩) .here
    (links.map Prod.snd)
  rw [sent, Conversation.sent]
  generalize Conversation.run ⟨(ofEarly pending).early, [], []⟩ (links.map Prod.snd) = c
    at h htalks ⊢
  rw [h] at htalks ⊢
  unfold ofEarly at htalks
  dsimp only at htalks ⊢
  by_cases hp : pending = []
  · rw [hp] at htalks ⊢
    exact (Dialogue.talks_done_iff.mp htalks).2.1
  · rw [List.isEmpty_eq_false_iff.mpr hp] at htalks
    exact (Exchange.talks_send htalks).2.2 rfl

/-- A tunnel that has come to its good end knows what it has delivered. -/
theorem Calls.totals_of_result (h : (ofEarly pending).Calls links acts) {totals : Totals}
    (hr : ((ofEarly pending).after links).result? = some (.ok totals)) :
    (ofEarly pending).sent links = pending ∧
      totals.forth = ((ofEarly pending).sent links ++ flushed (acts .forth)).length ∧
      totals.back = (flushed (acts .back)).length := by
  obtain ⟨hforth, hback⟩ := h.past rfl rfl
  unfold result? at hr
  split at hr
  · cases hr
  · rename_i hearly
    have hsent := sent_ofEarly hearly
    obtain ⟨r, hrelay, htotals⟩ := Option.map_eq_some_iff.mp hr
    cases r with
    | error e => cases htotals
    | ok flows =>
      obtain rfl := Except.ok.inj htotals
      rw [← Duplex.result?_joint] at hrelay
      obtain ⟨-, rfl⟩ := Joint.result?_eq_ok_iff.mp hrelay
      rw [List.length_append, hsent, ← hforth.delivered_eq, ← hback.delivered_eq,
        earlyLength_after, Nat.add_comm]
      exact ⟨rfl, rfl, rfl⟩
  · cases hr

end Tunnel

/-- A counter is moved by all numbers but the multiples of its size. -/
theorem Tally.eq_add_ofNat_iff {x : UInt64} {k : Nat} :
    x = x + UInt64.ofNat k ↔ UInt64.size ∣ k := by
  rw [UInt64.left_eq_add, ← UInt64.toNat_inj, UInt64.toNat_ofNat']
  exact (Nat.dvd_iff_mod_eq_zero ..).symm

theorem Node.bytes_tunnelEnded_error (n : Node) (f : Failure) :
    (n.tunnelEnded (.error f)).tally.bytes = n.tally.bytes :=
  Tally.bytes_failed _ f

namespace Connection

/-- A connection with a tunnel goes on until the tunnel has a result, and ends with it. -/
theorem carry_eq (c : Connection) (n : Node) (t : Tunnel) :
    let result := (t.run c.client c.remote).1.result?
    (c.carry n t).1.result? = result.map (·.map fun _ => ()) ∧
      (c.carry n t).2 = result.elim n n.tunnelEnded := by
  unfold carry
  dsimp only
  split <;> rename_i hr <;> rw [hr] <;> exact ⟨rfl, rfl⟩

end Connection

end SocksChain
