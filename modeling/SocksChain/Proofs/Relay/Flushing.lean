import Mathlib.Data.List.DropRight
import SocksChain.Proofs.Relay.Conservation
import SocksChain.Proofs.Relay.Independence

/-!
What has been written and flushed, and what is counted of it. A flow may be left and taken up again
on channels that something has happened to in between; whatever it has met with by then, it counts
as delivered exactly what its receiver had taken at the last flush that succeeded.
-/

namespace SocksChain.Relay

open Channel

/-- A flush that has succeeded. -/
def Act.settles : Act → Bool
  | flush (.ready _) => true
  | _ => false

theorem Act.eq_of_settles {a : Act} (h : a.settles = true) : a = .flush (.ready ()) := by
  unfold settles at h
  split at h
  · rfl
  · cases h

/-- What a receiver had taken when it was flushed for the last time. -/
def flushed (acts : List Act) : Bytes := taken (acts.rdropWhile fun a => !a.settles)

theorem flushed_concat_of_settles (acts : List Act) {a : Act} (h : a.settles = true) :
    flushed (acts ++ [a]) = taken (acts ++ [a]) := by
  rw [flushed, List.rdropWhile_concat_neg _ _ _ (by simp [h])]

theorem flushed_concat_of_not_settles (acts : List Act) {a : Act} (h : a.settles = false) :
    flushed (acts ++ [a]) = flushed acts := by
  rw [flushed, List.rdropWhile_concat_pos _ _ _ (by simp [h]), flushed]

section Turning

variable {f f' : Flow} {a : Act}

/-- Only a flush that succeeds adds to what is delivered. -/
theorem Turns.delivered_eq (h : Turns f a f') (ha : a.settles = false) :
    f'.delivered = f.delivered := by
  cases h with
  | delivers => cases ha
  | settles => cases ha
  | _ => rfl

/-- A flush that succeeds finds nothing in hand and delivers what is to be counted. -/
theorem Turns.of_settles (h : Turns f a f') (ha : a.settles = true) :
    f.phase ≠ .reading ∧ f.phase.isOver = false ∧ f.phase.inHand = [] ∧
      f'.delivered = f.delivered + f.phase.uncounted := by
  obtain rfl := Act.eq_of_settles ha
  cases h with
  | waits _ hw => rcases hw with h | ⟨b, h⟩ | h | h <;> cases h
  | delivers hp =>
    rw [hp]
    exact ⟨nofun, rfl, rfl, rfl⟩
  | settles hp =>
    rw [hp]
    exact ⟨nofun, rfl, rfl, rfl⟩
  | loses _ _ he => cases he
  | fails _ _ he => cases he

end Turning

/-- With a receiver everything that was read is counted, or is still to be counted. -/
theorem Keeps.delivered_add_uncounted {n : Nat} {read given : Bytes} {f : Flow}
    (h : Keeps n read given f) (ha : f.active = true) (hf : ∀ e, f.phase ≠ .failed e) :
    f.delivered + f.phase.uncounted = read.length := by
  cases h with
  | running _ _ hsum _ => exact hsum
  | draining => cases ha
  | broken => exact absurd rfl (hf _)

/-- A flow that was begun afresh, with the calls it has made since, on whatever channels. -/
inductive Past : List Act → Flow → Prop
  | start : Past [] {}
  | turn {acts : List Act} {f f' : Flow} {a : Act} : Past acts f → Turns f a f' →
      Past (acts ++ [a]) f'

namespace Past

variable {acts : List Act} {f : Flow}

theorem keeps (h : Past acts f) : Keeps 0 (gotten acts) (taken acts) f := by
  induction h with
  | start => exact .start true 0
  | turn _ ht ih =>
    rw [gotten_concat, taken_concat]
    exact ih.turn ht

/-- A course takes a flow on, whatever has become of its channels. -/
theorem course {more : List Act} {l m : Lane} (h : Past acts l.1) (hc : l.Course more m) :
    Past (acts ++ more) m.1 := by
  refine hc.induct (P := fun more f => Past (acts ++ more) f) ?_ ?_
  · rwa [List.append_nil]
  · intro more f a f' hf ht
    rw [← List.append_assoc]
    exact hf.turn ht

/-- What a flow counts as delivered has been flushed, and what has been flushed is counted. -/
theorem delivered_eq (h : Past acts f) : f.delivered = (flushed acts).length := by
  induction h with
  | start => rfl
  | @turn acts f f' a hp ht ih =>
    cases ha : a.settles with
    | false => rw [flushed_concat_of_not_settles acts ha, ← ih, ht.delivered_eq ha]
    | true =>
      obtain ⟨hreading, hover, hhand, hcount⟩ := ht.of_settles ha
      have hactive := hp.keeps.active rfl hreading hover
      have hrunning : ∀ e, f.phase ≠ .failed e := fun e he => by
        rw [he] at hover
        cases hover
      -- Nothing is in hand at a flush, so all that has been read has been taken.
      have hall := hp.keeps.given_append_inHand hactive hrunning
      rw [hhand, List.append_nil] at hall
      have hgiven : a.given = [] := by rw [Act.eq_of_settles ha]; rfl
      rw [flushed_concat_of_settles acts ha, taken_concat, hgiven, List.append_nil, hall, hcount,
        hp.keeps.delivered_add_uncounted hactive hrunning]

end Past

namespace Duplex

variable (d : Duplex)

theorem exists_course_pollAt (x y : Direction) :
    ∃ acts, (d.lane y).Course acts ((d.pollAt x).lane y) := by
  rw [lane_pollAt]
  obtain rfl | rfl := x.eq_or_eq_other y
  · rw [Function.update_self]
    exact Lane.course_poll _
  · rw [Function.update_of_ne x.other_ne]
    exact ⟨[], .start⟩

theorem exists_course_poll (y : Direction) : ∃ acts, (d.lane y).Course acts (d.poll.lane y) := by
  obtain ⟨x, next, -, hlane, hpoll⟩ := d.exists_poll_eq
  obtain ⟨front, hfront⟩ := next.exists_course_pollAt x y
  obtain ⟨rest, hrest⟩ := (next.pollAt x).exists_course_pollAt x.other y
  rw [hpoll, ← hlane]
  split
  · exact ⟨front, hfront⟩
  · exact ⟨front ++ rest, hfront.trans hrest⟩

/-- In a relay, too, each flow follows a course of its own. -/
theorem exists_course_run (y : Direction) : ∃ acts, (d.lane y).Course acts (d.run.lane y) := by
  induction d using run.induct with
  | case1 d hr =>
    rw [run, if_pos hr]
    exact d.exists_course_poll y
  | case2 d hr hlt ih =>
    rw [run, if_neg hr, if_pos hlt]
    obtain ⟨front, hfront⟩ := d.exists_course_poll y
    obtain ⟨rest, hrest⟩ := ih
    exact ⟨front ++ rest, hfront.trans hrest⟩
  | case3 d hr hlt =>
    rw [run, if_neg hr, if_neg hlt]
    exact d.exists_course_poll y

end Duplex

end SocksChain.Relay
