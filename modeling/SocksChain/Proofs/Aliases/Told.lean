import SocksChain.Proofs.Aliases.Ledger

/-!
Who has been told of a mapping while it lives. The substitution that creates it calls its own
collaborator, and after that only the first substitution after a reported failure calls anybody. So
a collaborator that is not the first one learns of a mapping only by the failure of another.
-/

namespace SocksChain

/-- What is said in a call, and to whom. -/
def Call.said {S : Type} (c : Call S) : UInt64 × String × S := (c.hash, c.real, c.support)

namespace Ledger

variable {S : Type}

/-- What an event means for the mapping of a text: a substitution on somebody's behalf, or the
report that a call has failed. -/
def mark (L : Ledger S) (real : String) (e : Event S) : List (Option S) :=
  match L.use? e with
  | some (d, s) => if d.toText = real then [some s] else []
  | none => if L.failure? e = some (Endpoint.hashText real) then [none] else []

def trail (L : Ledger S) (real : String) : List (Event S) → List (Option S)
  | [] => []
  | e :: events => L.mark real e ++ (L.step e).trail real events

/-- An event that finds the mapping of a hash alive, if it uses it, and does not store it anew. -/
structure Spares (L : Ledger S) (h : UInt64) (e : Event S) : Prop where
  alive : ∀ d s, L.use? e = some (d, s) → d.hash = h → L.known? h ≠ none
  registers : ∀ real, e = .register real → real.hash ≠ h

/-- The mapping of a hash lives through all of these events. -/
def Lives (L : Ledger S) (h : UInt64) : List (Event S) → Prop
  | [] => True
  | e :: events => L.Spares h e ∧ (L.step e).Lives h events

/-- How things stand with the mapping of `real`, which `first` was told of when there had been `n`
calls, after what `t` says. -/
structure Telling (real : String) (first : S) (n : Nat) (L : Ledger S) (t : List (Option S)) :
    Prop where
  stored : L.aliases.Says (Endpoint.hashText real) real
  length : n ≤ L.calls.length
  flagged : Endpoint.hashText real ∈ L.aliases.unpropagated ↔ [none] <:+ t
  told : ∀ x s, (Endpoint.hashText real, x, s) ∈ (L.calls.map Call.said).drop n ↔
    x = real ∧ (s = first ∨ [none, some s] <:+: t)

theorem map_said_set {calls : List (Call S)} {k : Nat} {c : Call S} (h : calls[k]? = some c)
    (x : Standing) :
    (calls.set k { c with standing := x }).map Call.said = calls.map Call.said := by
  obtain ⟨hlt, rfl⟩ := List.getElem?_eq_some_iff.mp h
  rw [List.map_set]
  apply List.ext_getElem
  · simp
  · intro i h₁ h₂
    rw [List.getElem_set]
    split
    · rename_i hi
      subst hi
      simp [Call.said]
    · rfl

section Trails

variable {t : List (Option S)} {s s' : S}

theorem none_suffix_concat {m : Option S} : [none] <:+ t ++ [m] ↔ m = none := by
  rw [List.suffix_concat_iff]
  constructor
  · intro h
    rcases h with h | ⟨u, hu, -⟩
    · cases h
    · have hu' : [] ++ [none] = u ++ [m] := hu
      obtain ⟨-, hm⟩ := List.append_inj' hu' rfl
      exact (List.cons.inj hm).1.symm
  · rintro rfl
    exact .inr ⟨[], rfl, List.nil_suffix⟩

theorem failure_then_use_concat {m : Option S} :
    [none, some s] <:+: t ++ [m] ↔ (m = some s ∧ [none] <:+ t) ∨ [none, some s] <:+: t := by
  rw [List.infix_concat_iff, List.suffix_concat_iff]
  refine or_congr_left ?_
  constructor
  · intro h
    rcases h with h | ⟨u, hu, hs⟩
    · cases h
    · have hu' : [none] ++ [some s] = u ++ [m] := hu
      obtain ⟨rfl, hm⟩ := List.append_inj' hu' rfl
      exact ⟨(List.cons.inj hm).1.symm, hs⟩
  · intro h
    obtain ⟨rfl, hs⟩ := h
    exact .inr ⟨[none], rfl, hs⟩

theorem failure_then_use_concat_of_not {m : Option S} (h : m = some s → ¬ [none] <:+ t) :
    [none, some s] <:+: t ++ [m] ↔ [none, some s] <:+: t := by
  rw [failure_then_use_concat]
  exact or_iff_right fun hm => h hm.1 hm.2

end Trails

namespace Telling

variable {real : String} {first : S} {n : Nat} {L L' : Ledger S} {t : List (Option S)}

/-- What is to be shown when more calls are started. -/
theorem more (h : Telling real first n L t) {t' : List (Option S)}
    (said : List (UInt64 × String × S)) (hs : L'.aliases.Says (Endpoint.hashText real) real)
    (hu : Endpoint.hashText real ∈ L'.aliases.unpropagated ↔ [none] <:+ t')
    (hc : L'.calls.map Call.said = L.calls.map Call.said ++ said)
    (hm : ∀ x s, (x = real ∧ (s = first ∨ [none, some s] <:+: t)) ∨
        (Endpoint.hashText real, x, s) ∈ said ↔
      x = real ∧ (s = first ∨ [none, some s] <:+: t')) : Telling real first n L' t' := by
  have hn : n ≤ (L.calls.map Call.said).length := by
    rw [List.length_map]
    exact h.length
  refine ⟨hs, ?_, hu, ?_⟩
  · have hlen := congrArg List.length hc
    rw [List.length_map, List.length_append] at hlen
    omega
  · intro x s
    rw [hc, List.drop_append_of_le_length hn, List.mem_append, h.told]
    exact hm x s

/-- Calls of other hashes, and how calls go, do not matter unless one is reported to have failed. -/
theorem of_silent (h : Telling real first n L t) (said : List (UInt64 × String × S))
    (hs : L'.aliases.Says (Endpoint.hashText real) real)
    (hu : Endpoint.hashText real ∈ L'.aliases.unpropagated ↔
      Endpoint.hashText real ∈ L.aliases.unpropagated)
    (hc : L'.calls.map Call.said = L.calls.map Call.said ++ said)
    (hm : ∀ x s, (Endpoint.hashText real, x, s) ∉ said) : Telling real first n L' t :=
  h.more said hs (hu.trans h.flagged) hc fun x s => or_iff_left (hm x s)

/-- A substitution of the text itself calls somebody exactly if a failure has been reported since
the last one. -/
theorem use (h : Telling real first n L t) {d : Endpoint} (hd : d.toText = real) (draw : Nat)
    (s : S) (hk : L.known? (Endpoint.hashText real) ≠ none) :
    Telling real first n (L.use draw d s) (t ++ [some s]) := by
  subst hd
  have hlive : L.aliases.known? L.now d.hash = some d.toText := by
    obtain ⟨v, hv⟩ := Option.ne_none_iff_exists'.mp hk
    rw [← h.stored.of_known? hv]
    exact hv
  have hp : L.aliases.Propagates L.now d ↔ [none] <:+ t := by
    rw [← h.flagged]
    constructor
    · intro h
      rcases h with hn | ⟨-, hm⟩
      · cases hlive.symm.trans hn
      · exact hm
    · exact fun hm => .inr ⟨hlive, hm⟩
  have hs : (L.use draw d s).aliases.Says d.hash d.toText := h.stored.substitute draw fun _ _ => rfl
  have hu : d.hash ∉ (L.use draw d s).aliases.unpropagated := by
    rw [mem_use_unpropagated]
    intro h
    obtain ⟨hm, hn⟩ := h
    exact hn ⟨hp.mpr (h.flagged.mp hm), rfl⟩
  have hflag : d.hash ∈ (L.use draw d s).aliases.unpropagated ↔ [none] <:+ t ++ [some s] := by
    rw [none_suffix_concat]
    exact ⟨fun hm => absurd hm hu, fun hm => by cases hm⟩
  by_cases hq : L.aliases.Propagates L.now d
  · have hc : (L.use draw d s).calls.map Call.said =
        L.calls.map Call.said ++ [(d.hash, d.toText, s)] := by
      rw [use_calls_of_propagates hq, List.map_append]
      rfl
    refine h.more [(d.hash, d.toText, s)] hs hflag hc fun x s' => ?_
    rw [failure_then_use_concat, List.mem_singleton]
    constructor
    · intro h
      rcases h with ⟨hx, hf | hi⟩ | he
      · exact ⟨hx, .inl hf⟩
      · exact ⟨hx, .inr (.inr hi)⟩
      · cases he
        exact ⟨rfl, .inr (.inl ⟨rfl, hp.mp hq⟩)⟩
    · intro h
      obtain ⟨rfl, hf | ⟨hm, -⟩ | hi⟩ := h
      · exact .inl ⟨rfl, .inl hf⟩
      · cases hm
        exact .inr rfl
      · exact .inl ⟨rfl, .inr hi⟩
  · refine h.more [] hs hflag ?_ fun x s' => ?_
    · rw [use_calls_of_not_propagates hq, List.append_nil]
    · rw [failure_then_use_concat_of_not fun _ hl => hq (hp.mpr hl)]
      exact or_iff_left List.not_mem_nil

/-- A substitution of another text neither tells anybody of this one nor clears its failures. -/
theorem useOther (h : Telling real first n L t) {d : Endpoint} (hd : d.toText ≠ real) (draw : Nat)
    (s : S) (hk : d.hash = Endpoint.hashText real → L.known? d.hash ≠ none) :
    Telling real first n (L.use draw d s) t := by
  have hp : d.hash = Endpoint.hashText real → ¬ L.aliases.Propagates L.now d := by
    intro he hp
    rcases hp with hn | ⟨hv, -⟩
    · exact hk he hn
    · rw [he] at hv
      exact hd (h.stored.of_known? hv)
  have hs : (L.use draw d s).aliases.Says (Endpoint.hashText real) real :=
    h.stored.substitute draw fun he hn => absurd (he ▸ hn) (hk he)
  have hu : Endpoint.hashText real ∈ (L.use draw d s).aliases.unpropagated ↔
      Endpoint.hashText real ∈ L.aliases.unpropagated := by
    rw [mem_use_unpropagated]
    exact and_iff_left fun hq => hp hq.2.symm hq.1
  by_cases hq : L.aliases.Propagates L.now d
  · refine h.of_silent [(d.hash, d.toText, s)] hs hu ?_ ?_
    · rw [use_calls_of_propagates hq, List.map_append]
      rfl
    · intro x s' hm
      rw [List.mem_singleton] at hm
      exact hp (Prod.mk.inj hm).1.symm hq
  · refine h.of_silent [] hs hu ?_ ?_
    · rw [use_calls_of_not_propagates hq, List.append_nil]
    · intro x s' hm
      cases hm

/-- The report that a call for the text has failed. -/
theorem fail (h : Telling real first n L t) {k : Nat} {c : Call S} (hk : L.calls[k]? = some c)
    (hc : c.hash = Endpoint.hashText real) :
    Telling real first n { L with
      aliases := L.aliases.propagationFailed c.hash
      calls := L.calls.set k { c with standing := .failed } } (t ++ [none]) := by
  refine h.more [] h.stored ?_ ?_ fun x s => ?_
  · rw [Aliases.mem_propagationFailed_unpropagated, none_suffix_concat]
    exact ⟨fun _ => rfl, fun _ => .inl hc.symm⟩
  · rw [map_said_set hk, List.append_nil]
  · rw [failure_then_use_concat_of_not fun hm => by cases hm]
    exact or_iff_left List.not_mem_nil

theorem step (h : Telling real first n L t) {e : Event S}
    (he : L.Spares (Endpoint.hashText real) e) :
    Telling real first n (L.step e) (t ++ L.mark real e) := by
  have hs : (L.step e).aliases.Says (Endpoint.hashText real) real :=
    stored_step h.stored e (fun d s hu hd hn => absurd hn (he.alive d s hu hd))
      (fun r hr hh => absurd hh (he.registers r hr))
  rcases L.step_cases e with ⟨draw, d, s, hu, hstep⟩ | ⟨k, c, hu, hf, hk, -, hstep⟩ |
    ⟨k, c, hu, hf, hk, -, hstep⟩ | ⟨hu, hf, hc, hun⟩
  · by_cases hd : d.toText = real
    · have hm : L.mark real e = [some s] := by simp only [mark, hu, if_pos hd]
      rw [hm, hstep]
      exact h.use hd draw s (he.alive d s hu (congrArg Endpoint.hashText hd))
    · have hm : L.mark real e = [] := by simp only [mark, hu, if_neg hd]
      rw [hm, hstep, List.append_nil]
      exact h.useOther hd draw s fun hh => hh ▸ he.alive d s hu hh
  · by_cases hh : c.hash = Endpoint.hashText real
    · have hm : L.mark real e = [none] := by simp only [mark, hu, hf, hh, if_true]
      rw [hm, hstep]
      exact h.fail hk hh
    · have hm : L.mark real e = [] := by
        simp only [mark, hu, hf, if_neg (fun hi => hh (Option.some.inj hi))]
      rw [hm, hstep, List.append_nil]
      refine h.of_silent [] (hstep ▸ hs) ?_ ?_ (by simp)
      · rw [Aliases.mem_propagationFailed_unpropagated]
        exact or_iff_right fun hi => hh hi.symm
      · rw [map_said_set hk, List.append_nil]
  · have hm : L.mark real e = [] := by simp [mark, hu, hf]
    rw [hm, hstep, List.append_nil]
    refine h.of_silent [] (hstep ▸ hs) Iff.rfl ?_ (by simp)
    rw [map_said_set hk, List.append_nil]
  · have hm : L.mark real e = [] := by simp [mark, hu, hf]
    rw [hm, List.append_nil]
    refine h.of_silent [] hs (by rw [hun]) ?_ (by simp)
    rw [hc, List.append_nil]

theorem run (h : Telling real first n L t) {events : List (Event S)}
    (he : L.Lives (Endpoint.hashText real) events) :
    Telling real first n (L.run events) (t ++ L.trail real events) := by
  induction events generalizing L t with
  | nil =>
    rw [trail, List.append_nil]
    exact h
  | cons e events ih =>
    rw [trail, ← List.append_assoc]
    exact ih (h.step he.1) he.2

/-- A substitution that creates a mapping tells its own collaborator of it, and nobody else. -/
theorem ofNew {d : Endpoint} (hn : L.known? d.hash = none) (draw : Nat) (s : S) :
    Telling d.toText s L.calls.length (L.use draw d s) [] := by
  have hp : L.aliases.Propagates L.now d := .inl hn
  have hc := use_calls_of_propagates hp draw s
  refine ⟨Aliases.Says.substitute_of_none hn draw, ?_, ?_, ?_⟩
  · rw [hc, List.length_append]
    exact Nat.le_add_right _ _
  · rw [show (L.use draw d s).aliases = (L.aliases.substitute L.now draw d).2 from rfl,
      Aliases.mem_substitute_unpropagated]
    constructor
    · intro h
      obtain ⟨-, hq⟩ := h
      exact absurd ⟨hp, rfl⟩ hq
    · intro hq
      have := hq.length_le
      simp at this
  · intro x s'
    rw [hc, List.map_append, List.drop_left' (List.length_map _)]
    constructor
    · intro hm
      cases List.mem_singleton.mp hm
      exact ⟨rfl, .inl rfl⟩
    · intro h
      obtain ⟨rfl, rfl | hi⟩ := h
      · exact List.mem_singleton.mpr rfl
      · have := hi.length_le
        simp at this

end Telling

/-- **Who has been told of a mapping.** As long as a mapping lives, those who have been told of it
are the collaborator of the substitution that created it and those who came next after a failure
had been reported. Nobody is told of another text with the same hash. -/
theorem told_iff {L : Ledger S} {e : Event S} {d : Endpoint} {first : S}
    (hu : L.use? e = some (d, first)) (hn : L.known? d.hash = none) {events : List (Event S)}
    (he : (L.step e).Lives d.hash events) {x : Endpoint} (hx : x.hash = d.hash) (s : S) :
    (∃ c ∈ ((L.step e).run events).calls.drop L.calls.length,
        c.hash = x.hash ∧ c.real = x.toText ∧ c.support = s) ↔
      x.toText = d.toText ∧
        (s = first ∨ [none, some s] <:+: (L.step e).trail d.toText events) := by
  obtain ⟨draw, hstep⟩ := step_of_use? hu
  have ht : Telling d.toText first L.calls.length (L.step e) [] := by
    rw [hstep]
    exact Telling.ofNew hn draw first
  have hrun := (ht.run he).told x.toText s
  rw [List.nil_append] at hrun
  rw [← hrun, ← List.map_drop, List.mem_map, hx]
  constructor
  · intro h
    obtain ⟨c, hc, h₁, h₂, h₃⟩ := h
    exact ⟨c, hc, by rw [Call.said, h₁, h₂, h₃]; rfl⟩
  · intro h
    obtain ⟨c, hc, hs⟩ := h
    obtain ⟨h₁, hs⟩ := Prod.mk.inj hs
    obtain ⟨h₂, h₃⟩ := Prod.mk.inj hs
    exact ⟨c, hc, h₁, h₂, h₃⟩

/-- The second of two collaborators is told once the call of the first one has failed. -/
theorem told_after_failure :
    let d : Endpoint := ⟨"db.example.org", 5432⟩
    let L : Ledger Nat := .ofPolicies {} {}
    let e : Event Nat := .substitute 0 d 1
    let events : List (Event Nat) := [.settled 0 false, .substitute 1 d 2]
    L.known? d.hash = none ∧ (L.step e).Lives d.hash events ∧
      ∃ c ∈ ((L.step e).run events).calls.drop L.calls.length,
        c.hash = d.hash ∧ c.real = d.toText ∧ c.support = 2 := by
  intro d
  -- The digest of a text is never to be computed.
  clear_value d
  intro L e events
  have hn : L.known? d.hash = none := known?_ofPolicies _ _ _
  have hk : (L.step e).known? d.hash = some d.toText :=
    known?_use_of_none hn (by decide) 0 1
  have hc : (L.step e).calls = [⟨d.hash, d.toText, 1, .inFlight⟩] :=
    use_calls_of_propagates (.inl hn) 0 1
  have hf : (L.step e).failure? (.settled 0 false) = some d.hash := by
    simp only [failure?, hc]
    rfl
  have hk' : ((L.step e).step (.settled 0 false)).known? d.hash = some d.toText := by
    simp only [step]
    exact hk
  have he : (L.step e).Lives d.hash events := by
    refine ⟨⟨?_, ?_⟩, ⟨?_, ?_⟩, trivial⟩
    · intro d' s hu
      cases hu
    · intro real hr
      cases hr
    · intro d' s hu hd hn'
      cases hk'.symm.trans hn'
    · intro real hr
      cases hr
  have ht : (L.step e).trail d.toText events = [none, some 2] := by
    simp only [events, trail, mark, use?, hf, Endpoint.hash, if_true]
    rfl
  refine ⟨hn, he, ?_⟩
  exact (told_iff (L := L) (e := e) (s := 2) rfl hn he rfl).mpr ⟨rfl, .inr ⟨[], [], ht.symm⟩⟩

/-- With two collaborators the second one is asked for an alias that nobody has told it of. -/
theorem second_collaborator_is_not_told :
    let d : Endpoint := ⟨"db.example.org", 5432⟩
    let L : Ledger Nat := .ofPolicies {} {}
    let L' := L.step (.substitute 0 d 1)
    L.known? d.hash = none ∧ L'.known? d.hash = some d.toText ∧
      (L'.aliases.substitute L'.now 0 d).1.standIn = ⟨Alias.host ".fake.internal" d.hash, 443⟩ ∧
      ¬ ∃ c ∈ (L'.step (.substitute 0 d 2)).calls,
        c.hash = d.hash ∧ c.real = d.toText ∧ c.support = 2 := by
  intro d
  clear_value d
  intro L L'
  have hn : L.known? d.hash = none := known?_ofPolicies _ _ _
  have hk : L'.known? d.hash = some d.toText := known?_use_of_none hn (by decide) 0 1
  have hc : L'.calls = [⟨d.hash, d.toText, 1, .inFlight⟩] := use_calls_of_propagates (.inl hn) 0 1
  have hp : ¬ L'.aliases.Propagates L'.now d :=
    Aliases.not_propagates hk fun hm => nomatch (mem_use_unpropagated.mp hm).1
  refine ⟨hn, hk, rfl, ?_⟩
  intro h
  obtain ⟨c, hm, -, -, hs⟩ := h
  have hc' : (L'.step (.substitute 0 d 2)).calls = L'.calls := use_calls_of_not_propagates hp 0 2
  rw [hc', hc, List.mem_singleton] at hm
  subst hm
  cases hs

end Ledger

end SocksChain
