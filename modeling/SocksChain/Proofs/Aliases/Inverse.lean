import SocksChain.Proofs.Aliases.Collision

/-!
Restoring is the inverse of substituting, on one node. As long as the hash of a destination is
mapped, and no other text was ever stored under it, the alias that was handed out is restored to
what is read from the text of the destination: to the destination itself up to the way its address
is written, unless the host is empty or loses its brackets. Right after the alias was handed out its
hash is mapped, since what was recorded last is not dropped to make room.
-/

namespace SocksChain

namespace Endpoint

variable {d real : Endpoint}

/-- What is read of a host in brackets has lost them. -/
theorem Bracketed.host_eq_of_reread (hb : d.Bracketed) (h : ofText? d.toText = some real) :
    d.host = "[" ++ real.host ++ "]" := by
  have he := eq_of_unbracket_ne hb.1
  apply String.toList_injective
  rw [eq_of_ofText?_toText h, hostText_of_ne hb.2]
  simpa using he

/-- An alias is never printed like an endpoint without a host. -/
theorem alias_toText_ne_of_empty (hd : d.host = "") (suffix : String) (h : UInt64)
    (port : UInt16) : toText ⟨Alias.host suffix h, port⟩ ≠ d.toText := by
  intro ht
  have hip : ∀ x, d.ip? ≠ some (.v6 x) := by
    rw [ip?, hd]
    intro x hx
    cases hx
  have hh := (toText_inj.1 ht).1
  rw [hostText_of_ne hip, hd] at hh
  unfold hostText at hh
  split at hh
  · cases hh
  · rw [Alias.host, String.toList_ofList] at hh
    exact Text.Decimal.render_ne_nil _ (List.append_eq_nil_iff.1 hh).1

theorem bracketed_of_empty_brackets (hd : d.host = "[]") : d.Bracketed := by
  unfold Bracketed ip?
  rw [hd]
  exact ⟨by decide, by cbv; exact nofun⟩

/-- What is read of the text of `d`, with an alias in its place where there is no host to read. -/
theorem reread_or_alias_toText_iff (d : Endpoint) (suffix : String) (h : UInt64) (port : UInt16) :
    ((ofText? d.toText).getD ⟨Alias.host suffix h, port⟩).toText = d.toText ↔
      d.host ≠ "" ∧ ¬ d.Bracketed := by
  match hr : ofText? d.toText with
  | some real =>
    have hne : d.host ≠ "" := by
      intro hd
      cases hr.symm.trans ((ofText?_toText_eq_none_iff d).2 (.inl hd))
    rw [Option.getD_some, reread_toText_iff hr]
    exact (and_iff_right hne).symm
  | none =>
    rw [Option.getD_none]
    rcases (ofText?_toText_eq_none_iff d).1 hr with hd | hd
    · exact iff_of_false (alias_toText_ne_of_empty hd suffix h port) fun hn => hn.1 hd
    · have hb := bracketed_of_empty_brackets hd
      exact iff_of_false (hb.alias_toText_ne suffix h port) fun hn => hn.2 hb

end Endpoint

theorem Ledger.policy_step {S : Type} (L : Ledger S) (e : Event S) :
    (L.step e).aliases.policy = L.aliases.policy := by
  have hm := L.moves_step e
  generalize (L.step e).aliases = a at hm ⊢
  cases hm with
  | restores x =>
    simp only [Aliases.restore, Aliases.resolve]
    split <;> rfl
  | _ => rfl

namespace HomeLedger

/-- What an event stores anew, and under which hash. -/
def stores? (L : HomeLedger) : Event → Option (UInt64 × String)
  | .lookup .. => none
  | .ledger (.register real) => some (real.hash, real.toText)
  | .ledger (.settled k true) => (L.calls[k]?).bind fun c =>
      if c.standing = .inFlight then some (c.hash, c.real) else none
  | .ledger e => (L.use? e).bind fun (d, _) =>
      if L.known? d.hash = none then some (d.hash, d.toText) else none

/-- None of these events stores another text than `v` under `h`. -/
def StoresOnly (L : HomeLedger) (h : UInt64) (v : String) (events : List Event) : Prop :=
  ∀ pre e post, events = pre ++ e :: post → ∀ w, (L.run pre).stores? e = some (h, w) → w = v

variable {L : HomeLedger} {h : UInt64} {v : String}

theorem stores?_of_use? {e : Ledger.Event Directory} {d : Endpoint} {s : Directory}
    (hu : L.use? e = some (d, s)) (hn : L.known? d.hash = none) :
    L.stores? (.ledger e) = some (d.hash, d.toText) := by
  have hfound : ((L.use? e).bind fun (x, _) =>
      if L.known? x.hash = none then some (x.hash, x.toText) else none) =
        some (d.hash, d.toText) := by
    rw [hu]
    exact if_pos hn
  cases e with
  | substitute draw x s => exact hfound
  | approach cipher draw x hop => exact hfound
  | _ => cases hu

theorem says_ledger (hs : L.aliases.Says h v) {e : Ledger.Event Directory}
    (ho : ∀ w, L.stores? (.ledger e) = some (h, w) → w = v) :
    (Ledger.step L e).aliases.Says h v := by
  refine Ledger.stored_step hs e ?_ ?_
  · rintro d s hu rfl hn
    exact ho _ (stores?_of_use? hu hn)
  · rintro real rfl rfl
    exact ho _ rfl

theorem says_record (hs : L.aliases.Says h v) {k : Nat}
    (ho : ∀ w, L.stores? (.ledger (.settled k true)) = some (h, w) → w = v) :
    (L.record k).aliases.Says h v := by
  unfold record
  split
  · exact hs
  · rename_i c hc
    split
    · rename_i hf
      have hv : c.hash = h → c.real = v := by
        rintro rfl
        refine ho _ ?_
        simp only [stores?, hc, Option.bind_some, if_pos hf]
      exact Store.Registry.All.put hs hv fun _ => hv
    · exact hs

/-- What stands under a hash stays one text, unless an event stores another one. -/
theorem says_step (hs : L.aliases.Says h v) {e : Event}
    (ho : ∀ w, L.stores? e = some (h, w) → w = v) : (L.step e).aliases.Says h v := by
  cases e with
  | lookup d names host =>
    show Store.Registry.All _ (d.real L.aliases.registry L.now host).2
    unfold Directory.real
    split
    · exact hs
    · exact Store.Registry.All.get hs (fun k e t he _ => he) _ _
  | ledger e =>
    rcases L.step_ledger_cases e with ⟨k, rfl, hstep⟩ | hstep
    · rw [hstep]
      exact Ledger.stored_step (says_record hs ho) _ nofun nofun
    · rw [hstep]
      exact says_ledger hs ho

theorem says_run (hs : L.aliases.Says h v) {events : List Event}
    (ho : L.StoresOnly h v events) : (L.run events).aliases.Says h v := by
  induction events generalizing L with
  | nil => exact hs
  | cons e events ih =>
    refine ih (says_step hs (ho [] e events rfl)) fun pre e' post he => ?_
    exact ho (e :: pre) e' post (congrArg (e :: ·) he)

theorem policy_step (L : HomeLedger) (e : Event) :
    (L.step e).aliases.policy = L.aliases.policy := by
  have hrecord (k : Nat) : (L.record k).aliases.policy = L.aliases.policy := by
    unfold record
    split
    · rfl
    · split <;> rfl
  cases e with
  | lookup d names host => rfl
  | ledger e =>
    rcases L.step_ledger_cases e with ⟨k, -, hstep⟩ | hstep
    · rw [hstep]
      exact (Ledger.policy_step (L.record k) e).trans (hrecord k)
    · rw [hstep]
      exact Ledger.policy_step L e

theorem policy_run (L : HomeLedger) (events : List Event) :
    (L.run events).aliases.policy = L.aliases.policy := by
  induction events generalizing L with
  | nil => rfl
  | cons e events ih => exact (ih (L.step e)).trans (L.policy_step e)

/-- **Restoring undoes substituting.** Take any aliases under which nothing but the text of `d` is
stored for the hash of `d`, replace `d`, and let anything happen that stores nothing else there:
connections, registrations, answers of collaborators, expiry and eviction. The mapping is there
right after the substitution. Whenever it is there, the alias stands for what is read from the text
of `d`. So it is restored to an endpoint with the port and the text of `d`, unless the host of `d`
is empty or `[]`, when it is left as it is, or stands in brackets without being an address of
sixteen octets, when the brackets are lost. -/
theorem restore_undoes_substitute {L : HomeLedger} {d : Endpoint} (draw : Nat) (node : Directory)
    {later : List Event} (ht : 0 < L.aliases.policy.ttl) (hs : L.aliases.Says d.hash d.toText)
    (ho : (L.step (.ledger (.substitute draw d node))).StoresOnly d.hash d.toText later) :
    let s := (L.aliases.substitute L.now draw d).1
    let M := L.step (.ledger (.substitute draw d node))
    let N := M.run later
    let r := (N.aliases.restore N.now s.standIn).1
    M.known? s.hash = some d.toText ∧
      (N.known? s.hash ≠ none →
        (N.aliases.resolve N.now s.standIn).1 = Endpoint.ofText? d.toText ∧
        (d.host = "" ∨ d.host = "[]" → r = s.standIn) ∧
        (¬ (d.host = "" ∨ d.host = "[]") →
          r.port = d.port ∧ (d.Bracketed → d.host = "[" ++ r.host ++ "]")) ∧
        (r.toText = d.toText ↔ d.host ≠ "" ∧ ¬ d.Bracketed)) := by
  intro s M N r
  have hM : M.aliases.Says d.hash d.toText := hs.substitute draw fun _ _ => rfl
  have hN : N.aliases.Says d.hash d.toText := says_run hM ho
  have hk : M.known? s.hash = some d.toText := by
    refine (Aliases.known?_substitute draw d ht).trans ?_
    match hv : L.aliases.known? L.now d.hash with
    | none => rfl
    | some w => rw [Option.getD_some, hs.of_known? hv]
  refine ⟨hk, fun hlive => ?_⟩
  obtain ⟨w, hw⟩ := Option.ne_none_iff_exists'.1 hlive
  obtain rfl : w = d.toText := hN.of_known? hw
  have hsuffix : N.aliases.policy.suffix = L.aliases.policy.suffix :=
    congrArg AliasPolicy.suffix (policy_run M later)
  have hstand : s.standIn =
      ⟨Alias.host N.aliases.policy.suffix d.hash, L.aliases.policy.port draw⟩ := by
    rw [hsuffix]
    rfl
  have hresolve : (N.aliases.resolve N.now s.standIn).1 = Endpoint.ofText? d.toText := by
    have hknown : N.aliases.known? N.now d.hash = some d.toText := hw
    rw [hstand, Aliases.resolve_alias, hknown, Option.bind_some]
  have hr : r = (Endpoint.ofText? d.toText).getD s.standIn := by
    rw [← hresolve]
    rfl
  refine ⟨hresolve, ?_, ?_, ?_⟩
  · intro hempty
    rw [hr, (Endpoint.ofText?_toText_eq_none_iff d).2 hempty, Option.getD_none]
  · intro hhost
    rw [← Endpoint.ofText?_toText_eq_none_iff] at hhost
    obtain ⟨real, hreal⟩ := Option.ne_none_iff_exists'.1 hhost
    rw [hr, hreal, Option.getD_some]
    refine ⟨?_, fun hb => hb.host_eq_of_reread hreal⟩
    rw [Endpoint.eq_of_ofText?_toText hreal]
  · rw [hr, hstand]
    exact d.reread_or_alias_toText_iff _ _ _

/-- An alias is good until the last moment of its lifetime. -/
theorem alias_is_restored_until_it_expires :
    let d : Endpoint := ⟨"db.example.org", 5432⟩
    let node := Directory.ofSuffix ".fake.internal" 600000 300000
    let L : HomeLedger := Ledger.ofPolicies {} {}
    let s := (L.aliases.substitute L.now 0 d).1
    let M := L.step (.ledger (.substitute 0 d node))
    let later : List Event := [.ledger (.wait 599999)]
    let N := M.run later
    0 < L.aliases.policy.ttl ∧ L.aliases.Says d.hash d.toText ∧
      M.StoresOnly d.hash d.toText later ∧ N.known? s.hash ≠ none ∧
      (N.aliases.restore N.now s.standIn).1.toText = d.toText := by
  intro d node L s M later N
  have ht : 0 < L.aliases.policy.ttl := by decide
  have hs : L.aliases.Says d.hash d.toText := Store.Registry.All.ofPolicy _
  have ho : M.StoresOnly d.hash d.toText later := by
    intro pre e post he w hw
    have hmem : e ∈ later := he ▸ List.mem_append_right pre List.mem_cons_self
    rw [List.mem_singleton.1 hmem] at hw
    cases hw
  have hlive : N.known? s.hash = some d.toText := by
    have hn : L.known? d.hash = none := Ledger.known?_ofPolicies {} {} d.hash
    unfold Ledger.known? Aliases.known? at hn ⊢
    rw [Store.Registry.get_fst] at hn ⊢
    exact Store.Registry.live?_entry_of_lt hn _ (Nat.zero_le _) (by decide)
  have hne : N.known? s.hash ≠ none := by
    rw [hlive]
    intro hn
    cases hn
  obtain ⟨-, hback⟩ := restore_undoes_substitute 0 node ht hs ho
  refine ⟨ht, hs, ho, hne, (hback hne).2.2.2.2 ⟨by decide, ?_⟩⟩
  exact fun hb => hb.1 (by cbv)

end HomeLedger

end SocksChain
