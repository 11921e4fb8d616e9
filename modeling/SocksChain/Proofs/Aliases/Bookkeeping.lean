import Mathlib.Data.List.Induction
import Mathlib.Data.Set.Function
import SocksChain.Proofs.Aliases.Forwarding
import SocksChain.Proofs.Aliases.Told

/-!
The books that are kept on propagation. A hash is marked when a call for it is reported to have
failed, however late, and only a substitution that starts a new call takes the mark off. So a
failure of the last call is not forgotten, and each call is paid for by a mapping that was created
or by a call that has failed.
-/

namespace SocksChain

namespace Ledger

variable {S : Type}

/-- The texts of the destinations that events are about. -/
def texts (events : List (Event S)) : Set String :=
  {t | ∃ e ∈ events, ∃ d : Endpoint, e.names? = some d ∧ d.toText = t}

/-- The call that was started last for a hash, and its number. -/
structure LastCall (calls : List (Call S)) (h : UInt64) (i : Nat) (c : Call S) : Prop where
  call : calls[i]? = some c
  hash : c.hash = h
  last : ∀ j c', i < j → calls[j]? = some c' → c'.hash ≠ h

/-- What was said in the calls for a hash. -/
def told (L : Ledger S) (h : UInt64) : List (UInt64 × String × S) :=
  (L.calls.map Call.said).filter (·.1 = h)

/-- How many of the calls for a hash have failed. -/
def failures (L : Ledger S) (h : UInt64) : Nat :=
  L.calls.countP fun c => c.hash = h ∧ c.standing = .failed

/-- What is to be said of the mapping of a hash that an event creates. -/
def created (L : Ledger S) (h : UInt64) (e : Event S) : List (UInt64 × String × S) :=
  match L.use? e with
  | some (d, s) => if d.hash = h ∧ L.known? h = none then [(h, d.toText, s)] else []
  | none => []

def creations (L : Ledger S) (h : UInt64) : List (Event S) → List (UInt64 × String × S)
  | [] => []
  | e :: events => L.created h e ++ (L.step e).creations h events

/-- The mapping of a hash is neither used nor pushed in any of these events. -/
def Rests (L : Ledger S) (h : UInt64) : List (Event S) → Prop
  | [] => True
  | e :: events =>
    (∀ d s, L.use? e = some (d, s) → d.hash ≠ h) ∧
      (∀ real, e = .register real → real.hash ≠ h) ∧ (L.step e).Rests h events

section LastCall

variable {calls : List (Call S)} {h : UInt64} {i k : Nat} {c x : Call S}

theorem lastCall_concat_of_eq (hx : x.hash = h) :
    LastCall (calls ++ [x]) h i c ↔ i = calls.length ∧ c = x := by
  constructor
  · intro hl
    have hi : ¬ i < calls.length := fun hi =>
      hl.last calls.length x hi List.getElem?_concat_length hx
    obtain ⟨hlt, hc⟩ := List.getElem?_eq_some_iff.mp hl.call
    rw [List.length_append, List.length_singleton] at hlt
    have he : i = calls.length := by omega
    subst he
    exact ⟨rfl, by simpa using hc.symm⟩
  · rintro ⟨rfl, rfl⟩
    refine ⟨List.getElem?_concat_length, hx, fun j c' hj hc' => ?_⟩
    obtain ⟨hlt, -⟩ := List.getElem?_eq_some_iff.mp hc'
    rw [List.length_append, List.length_singleton] at hlt
    omega

theorem lastCall_concat_of_ne (hx : x.hash ≠ h) :
    LastCall (calls ++ [x]) h i c ↔ LastCall calls h i c := by
  have hget : ∀ (j : Nat) (c' : Call S), c'.hash = h →
      ((calls ++ [x])[j]? = some c' ↔ calls[j]? = some c') := by
    intro j c' hc'
    rw [List.getElem?_append]
    split
    · exact Iff.rfl
    · rename_i hj
      rw [List.getElem?_eq_none (Nat.le_of_not_lt hj), List.getElem?_singleton]
      split
      · exact iff_of_false (fun he => hx (Option.some.inj he ▸ hc')) nofun
      · exact Iff.rfl
  constructor
  · exact fun hl => ⟨(hget i c hl.hash).mp hl.call, hl.hash,
      fun j c' hj hc' he => hl.last j c' hj ((hget j c' he).mpr hc') he⟩
  · exact fun hl => ⟨(hget i c hl.hash).mpr hl.call, hl.hash,
      fun j c' hj hc' he => hl.last j c' hj ((hget j c' he).mp hc') he⟩

/-- How a call goes does not matter for which one is the last. -/
theorem LastCall.of_set {s : Standing} (hk : calls[k]? = some x)
    (hl : LastCall (calls.set k { x with standing := s }) h i c) :
    c = { x with standing := s } ∨ LastCall calls h i c := by
  obtain ⟨hlt, -⟩ := List.getElem?_eq_some_iff.mp hk
  by_cases hi : k = i
  · subst hi
    exact .inl (Option.some.inj ((List.getElem?_set_self hlt).symm.trans hl.call)).symm
  · refine .inr ⟨(List.getElem?_set_ne hi).symm.trans hl.call, hl.hash, fun j c' hj hc' => ?_⟩
    by_cases hkj : k = j
    · subst hkj
      cases hk.symm.trans hc'
      exact hl.last k { x with standing := s } hj (List.getElem?_set_self hlt)
    · exact hl.last j c' hj ((List.getElem?_set_ne hkj).trans hc')

theorem exists_lastCall (hc : c ∈ calls) (hh : c.hash = h) : ∃ i c', LastCall calls h i c' := by
  induction calls using List.reverseRecOn with
  | nil => cases hc
  | append_singleton calls x ih =>
    by_cases hx : x.hash = h
    · exact ⟨_, _, (lastCall_concat_of_eq hx).mpr ⟨rfl, rfl⟩⟩
    · rcases List.mem_append.mp hc with hc | hc
      · obtain ⟨i, c', hl⟩ := ih hc
        exact ⟨i, c', (lastCall_concat_of_ne hx).mpr hl⟩
      · rw [List.mem_singleton.mp hc] at hh
        exact absurd hh hx

end LastCall

section Told

variable {L : Ledger S} {h : UInt64} {draw : Nat} {d : Endpoint} {s : S}

theorem mem_told {y : UInt64 × String × S} :
    y ∈ L.told h ↔ ∃ c ∈ L.calls, c.hash = h ∧ c.said = y := by
  unfold told
  rw [List.mem_filter, List.mem_map, decide_eq_true_eq]
  constructor
  · rintro ⟨⟨c, hc, rfl⟩, hh⟩
    exact ⟨c, hc, hh, rfl⟩
  · rintro ⟨c, hc, hh, rfl⟩
    exact ⟨⟨c, hc, rfl⟩, hh⟩

theorem told_use (hp : L.aliases.Propagates L.now d) (draw : Nat) (s : S) :
    (L.use draw d s).told d.hash = L.told d.hash ++ [(d.hash, d.toText, s)] := by
  unfold told
  rw [use_calls_of_propagates hp, List.map_append, List.filter_append]
  simp [Call.said]

theorem told_use_of_not (hp : ¬ (L.aliases.Propagates L.now d ∧ d.hash = h)) (draw : Nat) (s : S) :
    (L.use draw d s).told h = L.told h := by
  by_cases hq : L.aliases.Propagates L.now d
  · have hh : d.hash ≠ h := fun hh => hp ⟨hq, hh⟩
    unfold told
    rw [use_calls_of_propagates hq, List.map_append, List.filter_append]
    simp [Call.said, hh]
  · unfold told
    rw [use_calls_of_not_propagates hq]

/-- A call that is started has not failed. -/
theorem failures_use (L : Ledger S) (h : UInt64) (draw : Nat) (d : Endpoint) (s : S) :
    (L.use draw d s).failures h = L.failures h := by
  unfold failures
  by_cases hq : L.aliases.Propagates L.now d
  · rw [use_calls_of_propagates hq, List.countP_append]
    simp
  · rw [use_calls_of_not_propagates hq]

theorem lastCall_use_of_not (hp : ¬ (L.aliases.Propagates L.now d ∧ d.hash = h)) {i : Nat}
    {c : Call S} : LastCall (L.use draw d s).calls h i c ↔ LastCall L.calls h i c := by
  by_cases hq : L.aliases.Propagates L.now d
  · rw [use_calls_of_propagates hq]
    exact lastCall_concat_of_ne fun hh => hp ⟨hq, hh⟩
  · rw [use_calls_of_not_propagates hq]

theorem failures_set {calls : List (Call S)} {k : Nat} {c : Call S} (hk : calls[k]? = some c)
    (hc : c.standing = .inFlight) (x : Standing) :
    (calls.set k { c with standing := x }).countP (fun c => c.hash = h ∧ c.standing = .failed) =
      calls.countP (fun c => c.hash = h ∧ c.standing = .failed) +
        if c.hash = h ∧ x = .failed then 1 else 0 := by
  obtain ⟨hlt, he⟩ := List.getElem?_eq_some_iff.mp hk
  rw [List.countP_set hlt, he]
  simp [hc]

end Told

/-- The books on a hash, under which only `v` is ever stored, after mappings of it were created on
behalf of what `t` says. -/
structure Booked (h : UInt64) (v : String) (t : List (UInt64 × String × S)) (L : Ledger S) :
    Prop where
  stored : L.aliases.Says h v
  started : L.told h = [] → ∀ w, L.aliases.Says h w
  real : ∀ y ∈ L.told h, y.2.1 = v ∧ Endpoint.hashText v = h
  marked : ∀ i c, LastCall L.calls h i c → c.standing = .failed → h ∈ L.aliases.unpropagated
  created : t.Sublist (L.told h)
  paid : (L.told h).length + (if h ∈ L.aliases.unpropagated then 1 else 0) ≤
    t.length + L.failures h

namespace Booked

variable {h : UInt64} {v : String} {t : List (UInt64 × String × S)} {L L' : Ledger S}

/-- What does not touch the books. -/
theorem of_same (hb : Booked h v t L) (hs : ∀ w, L.aliases.Says h w → L'.aliases.Says h w)
    (ht : L'.told h = L.told h) (hf : L'.failures h = L.failures h)
    (hl : ∀ i c, LastCall L'.calls h i c → c.standing = .failed → LastCall L.calls h i c)
    (hu : h ∈ L'.aliases.unpropagated ↔ h ∈ L.aliases.unpropagated) : Booked h v t L' := by
  refine ⟨hs v hb.stored, ?_, ?_, ?_, ?_, ?_⟩
  · rw [ht]
    exact fun hn w => hs w (hb.started hn w)
  · rw [ht]
    exact hb.real
  · exact fun i c hi hc => hu.mpr (hb.marked i c (hl i c hi hc) hc)
  · rw [ht]
    exact hb.created
  · rw [ht, hf]
    simp only [hu]
    exact hb.paid

theorem use (hb : Booked h v t L) {d : Endpoint} (hd : d.hash = h → d.toText = v) (draw : Nat)
    (s : S) :
    Booked h v (t ++ if d.hash = h ∧ L.known? h = none then [(h, d.toText, s)] else [])
      (L.use draw d s) := by
  by_cases hp : L.aliases.Propagates L.now d ∧ d.hash = h
  · obtain ⟨hp, rfl⟩ := hp
    obtain rfl := hd rfl
    have ht := told_use hp draw s
    have hm : d.hash ∉ (L.use draw d s).aliases.unpropagated := by
      rw [mem_use_unpropagated]
      exact fun hm => hm.2 ⟨hp, rfl⟩
    have hc := use_calls_of_propagates hp draw s
    refine ⟨hb.stored.substitute draw fun _ _ => rfl, ?_, ?_, ?_, ?_, ?_⟩
    · rw [ht]
      exact fun hn => by simp at hn
    · rw [ht]
      intro y hy
      rcases List.mem_append.mp hy with hy | hy
      · exact hb.real y hy
      · rw [List.mem_singleton.mp hy]
        exact ⟨rfl, rfl⟩
    · intro i c hl hf
      rw [hc, lastCall_concat_of_eq rfl] at hl
      rw [hl.2] at hf
      cases hf
    · rw [ht]
      refine hb.created.append ?_
      split
      · exact List.Sublist.refl _
      · exact List.nil_sublist _
    · have hpaid := hb.paid
      rw [ht, failures_use, if_neg hm, List.length_append, List.length_append]
      rcases hp with hn | ⟨hk, hu⟩
      · rw [if_pos ⟨rfl, hn⟩]
        simp only [List.length_singleton]
        omega
      · -- The mark that is taken off pays for the call.
        rw [if_pos hu] at hpaid
        rw [List.length_singleton]
        omega
  · have hno : ¬ (d.hash = h ∧ L.known? h = none) := fun hn =>
      hp ⟨.inl (hn.1 ▸ hn.2), hn.1⟩
    rw [if_neg hno, List.append_nil]
    refine hb.of_same (fun w hw => hw.substitute draw fun hh hn => ?_) (told_use_of_not hp draw s)
      (failures_use L h draw d s) (fun i c hl _ => (lastCall_use_of_not hp).mp hl) ?_
    · exact absurd ⟨hh, hh ▸ hn⟩ hno
    · rw [mem_use_unpropagated]
      exact and_iff_left fun hq => hp ⟨hq.1, hq.2.symm⟩

/-- A failure marks the hash, whether the call is the last one or not. -/
theorem fail (hb : Booked h v t L) {k : Nat} {c : Call S} (hk : L.calls[k]? = some c)
    (hc : c.standing = .inFlight) :
    Booked h v t { L with
      aliases := L.aliases.propagationFailed c.hash
      calls := L.calls.set k { c with standing := .failed } } := by
  have ht : ∀ a : Aliases, Ledger.told { L with
      aliases := a, calls := L.calls.set k { c with standing := .failed } } h = L.told h := by
    intro a
    unfold told
    rw [map_said_set hk]
  have hf := failures_set (h := h) hk hc .failed
  by_cases hh : c.hash = h
  · have hm : h ∈ (L.aliases.propagationFailed c.hash).unpropagated :=
      Aliases.mem_propagationFailed_unpropagated.mpr (.inl hh.symm)
    refine ⟨hb.stored, ?_, ?_, fun i c _ _ => hm, ?_, ?_⟩
    · rw [ht]
      exact hb.started
    · rw [ht]
      exact hb.real
    · rw [ht]
      exact hb.created
    · have hpaid := hb.paid
      have hle : (L.told h).length ≤ t.length + L.failures h := by omega
      rw [if_pos ⟨hh, rfl⟩] at hf
      rw [ht, if_pos hm, failures, hf]
      exact Nat.succ_le_succ hle
  · rw [if_neg fun hn => hh hn.1, Nat.add_zero] at hf
    refine hb.of_same (fun w hw => hw) (ht _) hf (fun i c' hl _ => ?_) ?_
    · rcases hl.of_set hk with rfl | hl'
      · exact absurd hl.hash hh
      · exact hl'
    · rw [Aliases.mem_propagationFailed_unpropagated]
      exact or_iff_right fun he => hh he.symm

theorem succeed (hb : Booked h v t L) {k : Nat} {c : Call S} (hk : L.calls[k]? = some c)
    (hc : c.standing = .inFlight) :
    Booked h v t { L with calls := L.calls.set k { c with standing := .succeeded } } := by
  have hf := failures_set (h := h) hk hc .succeeded
  rw [if_neg fun hn => nomatch hn.2, Nat.add_zero] at hf
  refine hb.of_same (fun w hw => hw) ?_ hf (fun i c' hl hn => ?_) Iff.rfl
  · unfold told
    rw [map_said_set hk]
  · rcases hl.of_set hk with rfl | hl'
    · cases hn
    · exact hl'

theorem step (hb : Booked h v t L) {e : Event S}
    (he : ∀ d, e.names? = some d → d.hash = h → d.toText = v)
    (hr : ∀ real, e ≠ .register real) : Booked h v (t ++ L.created h e) (L.step e) := by
  rcases L.step_cases e with ⟨draw, d, s, hu, hstep⟩ | ⟨k, c, hu, -, hk, hc, hstep⟩ |
    ⟨k, c, hu, -, hk, hc, hstep⟩ | ⟨hu, -, hc, hun⟩
  · have hcr : L.created h e =
        if d.hash = h ∧ L.known? h = none then [(h, d.toText, s)] else [] := by
      simp only [Ledger.created, hu]
    rw [hcr, hstep]
    exact hb.use (he d (names?_of_use? hu).1) draw s
  all_goals
    have hcr : L.created h e = [] := by simp only [Ledger.created, hu]
    rw [hcr, List.append_nil]
  · rw [hstep]
    exact hb.fail hk hc
  · rw [hstep]
    exact hb.succeed hk hc
  · have hs : ∀ w, L.aliases.Says h w → (L.step e).aliases.Says h w := by
      intro w hw
      refine stored_step hw e (fun d s hd => ?_) fun real hreal => absurd hreal (hr real)
      cases hu.symm.trans hd
    refine hb.of_same hs ?_ ?_ (fun i c hl _ => hc ▸ hl) (by rw [hun])
    · rw [told, hc, told]
    · rw [failures, hc, failures]

theorem run (hb : Booked h v t L) {events : List (Event S)}
    (he : ∀ e ∈ events, ∀ d, e.names? = some d → d.hash = h → d.toText = v)
    (hr : ∀ real, .register real ∉ events) :
    Booked h v (t ++ L.creations h events) (L.run events) := by
  induction events generalizing L t with
  | nil =>
    rw [creations, List.append_nil]
    exact hb
  | cons e events ih =>
    rw [creations, ← List.append_assoc]
    refine ih (hb.step (he e List.mem_cons_self) fun real hq => ?_)
      (fun e' hm => he e' (List.mem_cons_of_mem _ hm))
      fun real hm => hr real (List.mem_cons_of_mem _ hm)
    exact hr real (hq ▸ List.mem_cons_self)

theorem ofPolicies (a : AliasPolicy) (p : Store.Policy) (h : UInt64) (v : String) :
    Booked h v [] (Ledger.ofPolicies a p : Ledger S) :=
  ⟨Store.Registry.All.ofPolicy p, fun _ _ => Store.Registry.All.ofPolicy p, nofun,
    fun _ _ hl => (nomatch hl.call), List.nil_sublist _, Nat.le_refl _⟩

end Booked

section Rests

variable {L : Ledger S} {h : UInt64} {v : String}

/-- A mark stays, and so does what is stored, until the mapping is used. -/
theorem rests_run (hs : L.aliases.Says h v) (hm : h ∈ L.aliases.unpropagated)
    {events : List (Event S)} (hr : L.Rests h events) :
    (L.run events).aliases.Says h v ∧ h ∈ (L.run events).aliases.unpropagated := by
  induction events generalizing L with
  | nil => exact ⟨hs, hm⟩
  | cons e events ih =>
    obtain ⟨huse, hreg, hrest⟩ := hr
    refine ih ?_ ?_ hrest
    · exact stored_step hs e (fun d s hd hh => absurd hh (huse d s hd))
        fun real hq hh => absurd hh (hreg real hq)
    · rcases L.step_cases e with ⟨draw, d, s, hu, hstep⟩ | ⟨k, c, -, -, -, -, hstep⟩ |
        ⟨k, c, -, -, -, -, hstep⟩ | ⟨-, -, -, hun⟩
      · rw [hstep, mem_use_unpropagated]
        exact ⟨hm, fun hp => huse d s hu hp.2.symm⟩
      · rw [hstep, Aliases.mem_propagationFailed_unpropagated]
        exact .inr hm
      · rw [hstep]
        exact hm
      · rw [hun]
        exact hm

/-- The next use of a marked mapping starts a call. -/
theorem calls_use_of_marked (hs : L.aliases.Says h v) (hm : h ∈ L.aliases.unpropagated)
    {d : Endpoint} (hh : d.hash = h) (hd : d.toText = v) (draw : Nat) (s : S) :
    (L.use draw d s).calls = L.calls ++ [⟨h, v, s, .inFlight⟩] := by
  subst hh hd
  refine use_calls_of_propagates ?_ draw s
  match hk : L.aliases.known? L.now d.hash with
  | none => exact .inl hk
  | some w => exact .inr ⟨hs.of_known? hk ▸ hk, hm⟩

end Rests

/-- All that events store under a hash is one text. -/
theorem exists_text {events : List (Event S)} (hi : Set.InjOn Endpoint.hashText (texts events))
    (h : UInt64) :
    ∃ v, ∀ e ∈ events, ∀ d, e.names? = some d → d.hash = h → d.toText = v := by
  by_cases hx : ∃ e ∈ events, ∃ d : Endpoint, e.names? = some d ∧ d.hash = h
  · obtain ⟨e, he, d, hd, rfl⟩ := hx
    exact ⟨d.toText, fun e' he' d' hd' hh => hi ⟨e', he', d', hd', rfl⟩ ⟨e, he, d, hd, rfl⟩ hh⟩
  · exact ⟨"", fun e he d hd hh => absurd ⟨e, he, d, hd, hh⟩ hx⟩

/-- **No failure is lost and no success is repeated.** As long as nothing is pushed and the texts in
use have different hashes, the last call for a live mapping is in flight, has succeeded, or has left
a mark that makes the next use of the mapping call again. Each creation of a mapping has a call, and
all the other calls follow failures. -/
theorem propagation_booked (a : AliasPolicy) (p : Store.Policy) {events : List (Event S)}
    (hr : ∀ real, .register real ∉ events) (hi : Set.InjOn Endpoint.hashText (texts events))
    (h : UInt64) :
    let L := (Ledger.ofPolicies a p).run events
    let created := (Ledger.ofPolicies a p).creations h events
    (∀ text, L.known? h = some text →
      (∃ i c, LastCall L.calls h i c ∧ c.real = text ∧
        (c.standing = .inFlight ∨ c.standing = .succeeded ∨ h ∈ L.aliases.unpropagated)) ∧
      (h ∈ L.aliases.unpropagated → ∀ later, L.Rests h later →
        ∀ (d : Endpoint) (draw : Nat) (s : S), d.toText = text →
          ((L.run later).step (.substitute draw d s)).calls =
            (L.run later).calls ++ [⟨h, text, s, .inFlight⟩])) ∧
    created.Sublist (L.told h) ∧ (L.told h).length ≤ created.length + L.failures h ∧
      (L.failures h = 0 → L.told h = created) := by
  intro L made
  obtain ⟨v, hv⟩ := exists_text hi h
  have hb : Booked h v made L := (Booked.ofPolicies a p h v).run hv hr
  have hpaid : (L.told h).length ≤ made.length + L.failures h :=
    Nat.le_trans (Nat.le_add_right _ _) hb.paid
  refine ⟨?_, hb.created, hpaid, ?_⟩
  · intro text hk
    obtain rfl := hb.stored.of_known? hk
    have hne : L.told h ≠ [] := by
      intro hn
      -- Without a call every text would be the one that is stored.
      have h₁ := (hb.started hn "").of_known? hk
      have h₂ := (hb.started hn "x").of_known? hk
      exact absurd (h₁.symm.trans h₂) (by decide)
    obtain ⟨y, hy⟩ := List.exists_mem_of_ne_nil _ hne
    obtain ⟨c₀, hc₀, hh₀, -⟩ := mem_told.mp hy
    constructor
    · obtain ⟨i, c, hl⟩ := exists_lastCall hc₀ hh₀
      have hc : c ∈ L.calls := List.mem_of_getElem? hl.call
      refine ⟨i, c, hl, (hb.real _ (mem_told.mpr ⟨c, hc, hl.hash, rfl⟩)).1, ?_⟩
      match hst : c.standing with
      | .inFlight => exact .inl rfl
      | .succeeded => exact .inr (.inl rfl)
      | .failed => exact .inr (.inr (hb.marked i c hl hst))
    · intro hm later hrest d draw s hd
      have hh : d.hash = h := by
        rw [Endpoint.hash, hd]
        exact (hb.real y hy).2
      obtain ⟨hs, hm'⟩ := rests_run hb.stored hm hrest
      exact calls_use_of_marked hs hm' hh hd draw s
  · intro hf
    rw [hf, Nat.add_zero] at hpaid
    exact (hb.created.eq_of_length_le hpaid).symm

/-- A call that has failed is made again when its destination is next asked for. -/
theorem failed_call_is_made_again :
    let d : Endpoint := ⟨"db.example.org", 5432⟩
    let events : List (Event Nat) := [.substitute 0 d 1, .settled 0 false]
    let L := (Ledger.ofPolicies {} {}).run events
    (∀ real, .register real ∉ events) ∧ Set.InjOn Endpoint.hashText (texts events) ∧
      L.known? d.hash = some d.toText ∧ d.hash ∈ L.aliases.unpropagated ∧
      (L.step (.substitute 0 d 2)).calls = L.calls ++ [⟨d.hash, d.toText, 2, .inFlight⟩] := by
  intro d
  -- The digest of a text is never to be computed.
  clear_value d
  intro events L
  have hr : ∀ real, .register real ∉ events := by simp [events]
  have hi : Set.InjOn Endpoint.hashText (texts events) := by
    have ht : ∀ t ∈ texts events, t = d.toText := by
      rintro t ⟨e, he, x, hx, rfl⟩
      simp only [events, List.mem_cons, List.not_mem_nil, or_false] at he
      rcases he with rfl | rfl <;> cases hx
      rfl
    exact fun t₁ h₁ t₂ h₂ _ => (ht t₁ h₁).trans (ht t₂ h₂).symm
  have hn : (Ledger.ofPolicies {} {} : Ledger Nat).known? d.hash = none := known?_ofPolicies _ _ _
  have hu := known?_use_of_none hn (by decide : 0 < ({} : AliasPolicy).ttl) 0 1
  have hc := use_calls_of_propagates (.inl hn) 0 (1 : Nat)
  have hL : L = ((Ledger.ofPolicies {} {}).use 0 d 1).step (.settled 0 false) := rfl
  have hk : L.known? d.hash = some d.toText ∧ d.hash ∈ L.aliases.unpropagated := by
    rw [hL]
    simp only [step, hc]
    exact ⟨hu, Aliases.mem_propagationFailed_unpropagated.mpr (.inl rfl)⟩
  obtain ⟨-, hagain⟩ := (propagation_booked {} {} hr hi d.hash).1 d.toText hk.1
  exact ⟨hr, hi, hk.1, hk.2, hagain hk.2 [] trivial d 0 2 rfl⟩

end Ledger

end SocksChain
