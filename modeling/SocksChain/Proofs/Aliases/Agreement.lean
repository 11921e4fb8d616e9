import Mathlib
import SocksChain.Approach
import SocksChain.Proofs.Aliases.Decoding
import SocksChain.Proofs.Aliases.Ledger
import SocksChain.Proofs.Endpoint
import SocksChain.Proofs.Node.Visit

/-!
Two nodes and one alias. One of them hands out an alias for a destination and registers the
destination with the other one, which derives the hash again from what it reads. Where both have the
same text, the other node restores the alias to a destination with that text; and they have the same
text exactly if the destination loses no brackets on the way.
-/

namespace SocksChain

open Channel

/-- A host that begins with a number is not printed like one in brackets. -/
theorem Endpoint.Bracketed.alias_toText_ne {d : Endpoint} (hb : d.Bracketed) (suffix : String)
    (h : UInt64) (port : UInt16) : toText ⟨Alias.host suffix h, port⟩ ≠ d.toText := by
  intro ht
  have hh := hb.host_eq (toText_inj.1 ht).1
  rw [Alias.host, String.toList_ofList] at hh
  obtain ⟨c, digits, hr⟩ := List.exists_cons_of_ne_nil (Text.Decimal.render_ne_nil h.toNat)
  rw [hr] at hh
  have hc : c = '[' := (List.cons.inj hh).1
  have hd : '[' ∉ Text.Decimal.render h.toNat := Text.Decimal.not_mem_render rfl
  rw [hr, hc] at hd
  exact hd List.mem_cons_self

namespace Aliases

variable {a : Aliases} {now later draw : Nat} {d real : Endpoint}

theorem substitute_real (a : Aliases) (now draw : Nat) (d : Endpoint) :
    (a.substitute now draw d).1.real = d.toText := rfl

theorem substitute_standIn (a : Aliases) (now draw : Nat) (d : Endpoint) :
    (a.substitute now draw d).1.standIn =
      ⟨Alias.host a.policy.suffix d.hash, a.policy.port draw⟩ := rfl

/-- An alias with the node's own suffix stands for what its hash stands for. -/
theorem resolve_alias (a : Aliases) (now : Nat) (h : UInt64) (port : UInt16) :
    (a.resolve now ⟨Alias.host a.policy.suffix h, port⟩).1 =
      (a.known? now h).bind Endpoint.ofText? := by
  unfold resolve
  rw [Alias.hash?_host]
  rfl

theorem restore_alias (a : Aliases) (now : Nat) (h : UInt64) (port : UInt16) :
    let e : Endpoint := ⟨Alias.host a.policy.suffix h, port⟩
    (a.restore now e).1 = ((a.known? now h).bind Endpoint.ofText?).getD e := by
  intro e
  rw [← a.resolve_alias now h port]
  rfl

/-- The alias of a destination that was registered is restored to something with the same text, if
the destination loses no brackets. -/
theorem restore_toText (hreal : Endpoint.ofText? d.toText = some real) (hb : ¬ d.Bracketed)
    (hlive : let stored := (Socks.Address.ofEndpoint real).toEndpoint
      a.known? now stored.hash = some stored.toText) (port : UInt16) :
    (a.restore now ⟨Alias.host a.policy.suffix d.hash, port⟩).1.toText = d.toText := by
  have hcarried := (Endpoint.carried_toText_iff hreal).2 hb
  dsimp only at hlive
  rw [Endpoint.hash, hcarried] at hlive
  rw [restore_alias, Endpoint.hash, hlive, Option.bind_some, hreal, Option.getD_some]
  exact (Endpoint.reread_toText_iff hreal).2 hb

/-- The alias of a destination that loses brackets is not restored to anything with the same text,
even if the node reads what is stored under its hash as it has read the text of the destination. -/
theorem restore_toText_ne (hreal : Endpoint.ofText? d.toText = some real) (hb : d.Bracketed)
    (hd : ∀ w, a.known? now d.hash = some w → Endpoint.ofText? w = some real) (port : UInt16) :
    (a.restore now ⟨Alias.host a.policy.suffix d.hash, port⟩).1.toText ≠ d.toText := by
  rw [restore_alias]
  match hk : a.known? now d.hash with
  | none => exact hb.alias_toText_ne _ _ _
  | some w =>
    rw [Option.bind_some, hd w hk, Option.getD_some]
    exact fun he => (Endpoint.reread_toText_iff hreal).1 he hb

end Aliases

/-- Somebody tries an approach, with whatever the links have come to. -/
def Approach.pursued (x : Approach) (links : List Link) : Conversation (Except Failure Unit) :=
  Conversation.run { talk := x.talk } links

theorem Approach.talks_pursued (x : Approach) (links : List Link) : Dialogue.Talks x.talk
    (x.pursued links).heard (x.pursued links).said (x.pursued links).talk :=
  Conversation.talks_run .here links

/-- Each end has heard no more than the other one has said. -/
def Visit.Answers (v : Visit) (c : Conversation (Except Failure Unit)) : Prop :=
  v.heard <+: c.said ∧ ∃ told, v.Told told ∧ c.heard <+: told

/-- **Two nodes agree on an alias exactly if its destination loses no brackets.** Whenever a node
has handed out an alias for `d` and the registration of `d` at another node has succeeded, the other
node has stored a text under the hash of that text. It is the text of `d` exactly if the host of `d`
is not in brackets, or only in those of a sixteen-octet address. Then the alias is restored to
something with the text of `d` for as long as the mapping lives. Otherwise it is not, not even if
the text of `d` itself is stored under the hash of the alias. -/
theorem Aliases.restores_registered_iff {entry : Aliases} {now draw : Nat} {d real : Endpoint}
    {cipher : Option CipherSettings} {b : Backend} {links : List Link} (exit : Node) (begun : Nat)
    (peer relay : Ip.Socket) (client : Link) (e : Cipher.Entropy) (turns : List Visit.Turn) :
    let s := (entry.substitute now draw d).1
    let c := (Approach.registration cipher b real).pursued links
    let v := Visit.start exit begun peer relay client e
    Endpoint.ofText? s.real = some real → c.talk = .done (.ok ()) → (v.run turns).Answers c →
      ∃ pre t post stored, turns = pre ++ t :: post ∧ (v.run pre).Stores t stored ∧
        (stored.toText = s.real ↔ ¬ d.Bracketed) ∧
        ∀ (a : Aliases) (later : Nat), a.policy.suffix = entry.policy.suffix →
          a.known? later stored.hash = some stored.toText →
          (¬ d.Bracketed → (a.restore later s.standIn).1.toText = d.toText) ∧
          (d.Bracketed → (∀ w, a.known? later s.hash = some w → w = s.real) →
            (a.restore later s.standIn).1.toText ≠ d.toText) := by
  intro s c v hreal hdone hanswers
  obtain ⟨hheard, told, htold, hsaid⟩ := hanswers
  have htalk := (Approach.registration cipher b real).talks_pursued links
  rw [hdone] at htalk
  obtain ⟨pre, t, post, hturns, hstores⟩ :=
    Visit.stores_of_registered htalk exit begun peer relay client e turns hheard htold hsaid
  refine ⟨pre, t, post, _, hturns, hstores, Endpoint.carried_toText_iff hreal, ?_⟩
  intro a later hsuffix hlive
  have hs : s.standIn = ⟨Alias.host a.policy.suffix d.hash, entry.policy.port draw⟩ := by
    rw [hsuffix]
    rfl
  rw [hs]
  refine ⟨fun hb => Aliases.restore_toText hreal hb hlive _, fun hb hd => ?_⟩
  refine Aliases.restore_toText_ne hreal hb (fun w hw => ?_) _
  obtain rfl := hd w hw
  exact hreal

/-- A link on which something has arrived, and on which more may come. -/
def Channel.Link.awaiting (arrivals : List Arrival) : Link :=
  { inlet := { source := { arrivals := arrivals, closed := false } } }

/-! A registration of `db:5432` at a node that takes registrations. -/

namespace Agreement

def registered : Endpoint := ⟨"db", 5432⟩

def approach : Approach := .registration none ⟨⟨"127.0.0.1", 1080⟩, none⟩ registered

/-- What the link of the asking node comes to: nothing at first, then one answer at a time. -/
def links : List Link :=
  [[], [.chunk [5, 0]], [.chunk [5, 0, 0, 1, 0, 0, 0, 0, 0, 0]]].map Link.awaiting

def asking : Conversation (Except Failure Unit) := approach.pursued links

def visit (exit : Node) : Visit :=
  .start exit 0 ⟨.v4 ⟨10, 0, 0, 7⟩, 40000⟩ ⟨.v4 .unspecified, 0⟩ (.awaiting []) {}

def turns (exit : Node) : List Visit.Turn :=
  [[5, 1, 0], [5, 128, 0, 3, 2, 100, 98, 21, 56]].map fun b =>
    { node := exit, names := fun _ _ => .ok [], now := 0, draw := 0,
      client := .awaiting [.chunk b] }

theorem answers {exit : Node} (h : Node.ofSettings {} = .ok exit) :
    asking.talk = .done (.ok ()) ∧ ((visit exit).run (turns exit)).Answers asking := by
  have hh : asking.heard = [5, 0, 5, 0, 0, 1, 0, 0, 0, 0, 0, 0] := by cbv
  have hs : asking.said = [5, 1, 0, 5, 128, 0, 3, 2, 100, 98, 21, 56] := by cbv
  have hvh : ((visit exit).run (turns exit)).heard = asking.said := by
    rw [hs]
    cases h
    simp only [turns, List.map_cons, List.map_nil, Visit.run, List.foldl_cons, List.foldl_nil,
      Visit.turn_heard]
    cbv
  have hvs : ((visit exit).run (turns exit)).said = asking.heard := by
    rw [hh]
    cases h
    simp only [turns, List.map_cons, List.map_nil, Visit.run, List.foldl_cons, List.foldl_nil,
      Visit.turn_said]
    cbv
  have hdone : asking.talk = .done (.ok ()) := by cbv
  exact ⟨hdone, hvh ▸ List.prefix_rfl, _, ⟨List.prefix_rfl, .inl rfl⟩, hvs ▸ List.prefix_rfl⟩

theorem exists_stores {exit : Node} (h : Node.ofSettings {} = .ok exit) :
    ∃ pre t post, turns exit = pre ++ t :: post ∧ ((visit exit).run pre).Stores t registered := by
  obtain ⟨hdone, hheard, told, htold, hsaid⟩ := answers h
  have htalk : Dialogue.Talks approach.talk asking.heard asking.said asking.talk :=
    approach.talks_pursued links
  rw [hdone] at htalk
  have hcarried : (Socks.Address.ofEndpoint registered).toEndpoint = registered := by cbv
  rw [← hcarried]
  exact Visit.stores_of_registered htalk exit 0 _ _ _ _ (turns exit) hheard htold hsaid

def entry : Aliases := { policy := {}, registry := .ofPolicy {} }

/-- What the aliases of the node are once it has stored the destination. -/
theorem stored_aliases {exit : Node} (h : Node.ofSettings {} = .ok exit) {v : Visit}
    {t : Visit.Turn} (ht : t ∈ turns exit) {stored : Endpoint} (hs : v.Stores t stored) :
    let a := (v.after t).2.aliases
    a.policy.suffix = entry.policy.suffix ∧ a.known? t.now stored.hash = some stored.toText ∧
      ∀ d w, a.known? t.now d = some w → w = stored.toText := by
  have hn : t.node = exit := by
    obtain ⟨b, -, rfl⟩ := List.mem_map.1 ht
    rfl
  cases h
  intro a
  have ha : a = _ := hs
  rw [ha, hn]
  refine ⟨rfl, Aliases.known?_register _ _ (by decide), fun d w hw => ?_⟩
  refine Aliases.Says.of_known? (Aliases.Says.register ?_ fun _ => rfl) hw
  exact Store.Registry.All.ofPolicy _

end Agreement

open Agreement in
/-- The alias of `db:5432` is restored as soon as it is registered. -/
theorem Aliases.registered_name_is_restored :
    let d : Endpoint := ⟨"db", 5432⟩
    let s := (entry.substitute 0 0 d).1
    ∃ exit, Node.ofSettings {} = .ok exit ∧ ∃ pre t post, turns exit = pre ++ t :: post ∧
      let a := (((visit exit).run pre).after t).2.aliases
      (a.restore t.now s.standIn).1.toText = d.toText := by
  intro d s
  have hd : ¬ d.Bracketed := fun hb => hb.1 (by cbv)
  have hreal : Endpoint.ofText? s.real = some d := by
    rw [Aliases.substitute_real]
    cbv
  obtain ⟨exit, hexit⟩ : ∃ exit, Node.ofSettings {} = .ok exit := ⟨_, rfl⟩
  obtain ⟨hdone, hanswers⟩ := answers hexit
  obtain ⟨pre, t, post, stored, hturns, hstores, -, hrestores⟩ :=
    Aliases.restores_registered_iff exit 0 _ _ _ _ (turns exit) hreal hdone hanswers
  have ht : t ∈ turns exit := hturns ▸ List.mem_append_right _ List.mem_cons_self
  obtain ⟨hsuffix, hlive, -⟩ := stored_aliases hexit ht hstores
  exact ⟨exit, hexit, pre, t, post, hturns, (hrestores _ _ hsuffix hlive).1 hd⟩

open Agreement in
/-- The alias of `[db]:5432` is not, although its registration has succeeded: what is stored is
`db:5432`. -/
theorem Aliases.bracketed_name_is_not_restored :
    let d : Endpoint := ⟨"[db]", 5432⟩
    let s := (entry.substitute 0 0 d).1
    Endpoint.ofText? s.real = some registered ∧ asking.talk = .done (.ok ()) ∧
      ∃ exit, Node.ofSettings {} = .ok exit ∧ ((visit exit).run (turns exit)).Answers asking ∧
        ∃ pre t post, turns exit = pre ++ t :: post ∧
          ((visit exit).run pre).Stores t registered ∧
          let a := (((visit exit).run pre).after t).2.aliases
          a.policy.suffix = entry.policy.suffix ∧
            a.known? t.now registered.hash = some registered.toText ∧
            (a.restore t.now s.standIn).1.toText ≠ d.toText := by
  intro d s
  have hip : d.ip? = none := by cbv
  have hb : d.Bracketed := ⟨by decide, fun x hx => by cases hip.symm.trans hx⟩
  have hreal : Endpoint.ofText? s.real = some registered := by
    rw [Aliases.substitute_real]
    cbv
  have hreread : Endpoint.ofText? registered.toText = some registered := by cbv
  obtain ⟨exit, hexit⟩ : ∃ exit, Node.ofSettings {} = .ok exit := ⟨_, rfl⟩
  obtain ⟨hdone, hanswers⟩ := answers hexit
  obtain ⟨pre, t, post, hturns, hstores⟩ := exists_stores hexit
  have ht : t ∈ turns exit := hturns ▸ List.mem_append_right _ List.mem_cons_self
  obtain ⟨hsuffix, hlive, hall⟩ := stored_aliases hexit ht hstores
  refine ⟨hreal, hdone, exit, hexit, hanswers, pre, t, post, hturns, hstores, hsuffix, hlive, ?_⟩
  rw [Aliases.substitute_standIn, ← hsuffix]
  refine Aliases.restore_toText_ne hreal hb (fun w hw => ?_) _
  rw [hall _ w hw]
  exact hreread

end SocksChain
