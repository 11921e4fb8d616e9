import Mathlib
import SocksChain.Proofs.Node.Course
import SocksChain.Proofs.Node.WhiteList
import SocksChain.Proofs.Socks.Reception

/-!
A node and its guests over time: connections begin, go on and end in any order, with any waiting in
between, and a book keeps who was looked for on the white list and who was admitted. Nobody is
admitted to a node that wants a password but a guest that has presented it, or one whose address
another guest has proved itself from lately; and the latter does not make the listing last longer.
-/

namespace SocksChain

open Channel Socks

/-- A connection and what its negotiation has read so far. -/
structure Guest where
  connection : Connection
  heard : Bytes := []

/-- The connection of a guest with what its channels have come to. -/
def Guest.resumed (g : Guest) (client remote : Link) : Connection :=
  { g.connection with client := client, remote := remote }

/-- What is noted of a guest, and when. -/
inductive Note where
  /-- Its address was looked for on the white list. -/
  | looked (guest : Nat) (peer : Ip.Address) (time : Nat) (listed : Bool)
  /-- It was admitted, and this is what had been read of it. -/
  | admitted (guest : Nat) (peer : Ip.Address) (time : Nat) (heard : Bytes) (admission : Admission)

def Note.guest : Note → Nat
  | looked i _ _ _ => i
  | admitted i _ _ _ _ => i

def Note.time : Note → Nat
  | looked _ _ t _ => t
  | admitted _ _ t _ _ => t

structure House where
  node : Node
  now : Nat := 0
  guests : List Guest := []
  /-- The latest note comes first. -/
  book : List Note := []

/-- What happens to a house. Whatever arrives on a guest's channels is there when it goes on. -/
inductive House.Event where
  | wait (ms : Nat)
  | accept (peer relay : Ip.Socket) (client : Link) (e : Cipher.Entropy)
  | advance (guest : Nat) (client remote : Link) (names : Names) (draw : Nat)
  | dialled (guest : Nat) (pending : Bytes) (approach : Approach) (near far : Ip.Socket)
      (remote : Link) (e : Cipher.Entropy)
  | refused (guest : Nat) (f : Failure)
  | timeOut (guest : Nat)
  | lookUp (names : Names) (host : String)
  | propagationFailed (hash : UInt64)
  | sweep

/-- What a guest meets at a front that wants `c`. -/
def FrontSettings.negotiation (front : FrontSettings) (c : Credentials) (trusted : Bool) :
    Negotiation :=
  { credentials := some c, trusted := trusted, registrations := front.registrations }

/-- What was heard is a handshake in which a guest presents `c`, and it counts as authenticated. -/
def Proven (front : FrontSettings) (c : Credentials) (heard : Bytes) (a : Admission) : Prop :=
  a.authenticated = true ∧ ∃ relay g p q,
    (front.negotiation c false).Greets g ∧ Presents c p ∧
    Asks front.registrations relay q a.intent ∧ heard = g ++ p ++ q ++ a.pending

/-- An earlier guest than `i` has proved itself from the same address, and its listing lasts. -/
def Trusted (front : FrontSettings) (c : Credentials) (book : List Note) (i : Nat)
    (peer : Ip.Address) (time : Nat) : Prop :=
  ∃ j < i, ∃ t heard a, Note.admitted j peer t heard a ∈ book ∧ Proven front c heard a ∧
    t ≤ time ∧ time < t + front.whiteListTtl

/-- Some guest has proved itself from an address, and its listing lasts until `deadline`. -/
def Vouched (front : FrontSettings) (c : Credentials) (book : List Note) (peer : Ip.Address)
    (deadline : Nat) : Prop :=
  ∃ j t heard a, Note.admitted j peer t heard a ∈ book ∧ Proven front c heard a ∧
    deadline ≤ t + front.whiteListTtl

namespace Vouched

variable {front : FrontSettings} {c : Credentials} {book book' : List Note} {peer : Ip.Address}
  {deadline deadline' : Nat}

theorem mono (h : Vouched front c book peer deadline) (hb : book <:+ book') :
    Vouched front c book' peer deadline := by
  obtain ⟨j, t, heard, a, hm, hp, hd⟩ := h
  exact ⟨j, t, heard, a, hb.subset hm, hp, hd⟩

theorem of_le (h : Vouched front c book peer deadline) (hd : deadline' ≤ deadline) :
    Vouched front c book peer deadline' := by
  obtain ⟨j, t, heard, a, hm, hp, hd'⟩ := h
  exact ⟨j, t, heard, a, hm, hp, Nat.le_trans hd hd'⟩

end Vouched

namespace House

def ofNode (n : Node) : House := { node := n }

def accept (h : House) (peer relay : Ip.Socket) (client : Link) (e : Cipher.Entropy) : House :=
  let (c, n) := Connection.start h.node h.now peer relay client e
  let listed := (h.node.directory.isEnlisted h.now peer.ip).1
  { h with
    node := n
    guests := h.guests ++ [{ connection := c }]
    book := if c.stage.talk?.isSome then .looked h.guests.length peer.ip h.now listed :: h.book
      else h.book }

def advance (h : House) (i : Nat) (client remote : Link) (names : Names) (draw : Nat) : House :=
  match h.guests[i]? with
  | none => h
  | some g =>
    let c := g.resumed client remote
    let heard := g.heard ++ c.hears
    let (c', n) := c.advance h.node names h.now draw
    { h with
      node := n
      guests := h.guests.set i ⟨c', heard⟩
      book := match c.admission? with
        | some a => .admitted i c.peer.ip h.now heard a :: h.book
        | none => h.book }

/-- Does something with a guest that reads nothing of it. -/
def attend (h : House) (i : Nat) (f : Connection → Node → Connection × Node) : House :=
  match h.guests[i]? with
  | none => h
  | some g =>
    let (c, n) := f g.connection h.node
    { h with node := n, guests := h.guests.set i { g with connection := c } }

def step (h : House) : Event → House
  | .wait ms => { h with now := h.now + ms }
  | .accept peer relay client e => h.accept peer relay client e
  | .advance i client remote names draw => h.advance i client remote names draw
  | .dialled i pending approach near far remote e =>
    h.attend i fun c n => c.dialled n h.now pending approach near far remote e
  | .refused i f => h.attend i fun c n => c.finish n (.error f)
  | .timeOut i => h.attend i fun c n => c.timeOut n
  | .lookUp names host => { h with node := (h.node.lookup names h.now host).2 }
  | .propagationFailed hash => { h with node := h.node.propagationFailed hash }
  | .sweep =>
    let registry := (h.node.aliases.registry.purge h.now).2
    { h with node := { h.node with aliases := { h.node.aliases with registry := registry } } }

def run (h : House) (events : List Event) : House := events.foldl step h

/-- A guest that negotiates was looked for on the white list, trusted only if it could be, and is
where what was heard of it has brought it. -/
def Awaits (front : FrontSettings) (c : Credentials) (book : List Note) (i : Nat) (g : Guest)
    (talk : Dialogue (Except Failure Admission)) : Prop :=
  ∃ trusted time earlier relay,
    Note.looked i g.connection.peer.ip time trusted :: earlier <:+ book ∧
    (trusted = true → Trusted front c earlier i g.connection.peer.ip time) ∧
    Dialogue.Follows ((front.negotiation c trusted).converse relay []) g.heard talk

/-- What holds of a house at all times. -/
structure Sound (s : Settings) (c : Credentials) (h : House) : Prop where
  settings : h.node.settings = s
  ttl : h.node.directory.whiteListTtl = s.front.whiteListTtl
  listing : h.node.directory.Listing (Vouched s.front c h.book)
  past : ∀ note ∈ h.book, note.guest < h.guests.length ∧ note.time ≤ h.now
  guests : ∀ i g talk, h.guests[i]? = some g → g.connection.stage.talk? = some talk →
    Awaits s.front c h.book i g talk

theorem proven_or_trusted {front : FrontSettings} {c : Credentials} {trusted : Bool}
    {relay : Except IoError Ip.Socket} {heard : Bytes} {a : Admission}
    (h : Dialogue.Follows ((front.negotiation c trusted).converse relay []) heard
      (.done (.ok a))) :
    Proven front c heard a ∨ a.authenticated = false ∧ trusted = true := by
  have hj := Negotiation.judge_admits_of_follows h
  rw [List.nil_append, Negotiation.judge_admits_iff rfl rfl] at hj
  obtain ⟨ha, g, p, q, hg, hp, hq, hb⟩ := hj
  cases trusted with
  | true => exact .inr ⟨ha, rfl⟩
  | false =>
    obtain ⟨k, hk, hp⟩ := hp
    cases hk
    exact .inl ⟨ha, relay, g, p, q, hg, hp, hq, hb⟩

theorem Awaits.mono {front : FrontSettings} {c : Credentials} {book book' : List Note} {i : Nat}
    {g : Guest} {talk : Dialogue (Except Failure Admission)} (h : Awaits front c book i g talk)
    (hb : book <:+ book') : Awaits front c book' i g talk := by
  obtain ⟨trusted, time, earlier, relay, hs, ht, hf⟩ := h
  exact ⟨trusted, time, earlier, relay, hs.trans hb, ht, hf⟩

namespace Sound

variable {s : Settings} {c : Credentials} {h : House}

theorem ofNode {n : Node} (hn : Node.ofSettings s = .ok n) :
    (House.ofNode n).Sound n.settings c := by
  unfold Node.ofSettings at hn
  match hv : s.validate with
  | .error f =>
    rw [hv] at hn
    cases hn
  | .ok s' =>
  rw [hv] at hn
  cases hn
  refine ⟨rfl, rfl, .ofSuffix _ _ _, ?_, ?_⟩
  · intro note hm
    cases hm
  · intro i g talk hi
    cases hi

/-- Nothing but the directory, the settings and the guests matters of a house. -/
theorem withNode (hs : h.Sound s c) {n : Node} (hset : n.settings = h.node.settings)
    (hd : n.directory = h.node.directory) : ({ h with node := n } : House).Sound s c :=
  ⟨hset.trans hs.settings, by rw [hd]; exact hs.ttl, by rw [hd]; exact hs.listing, hs.past,
    hs.guests⟩

theorem wait (hs : h.Sound s c) (ms : Nat) : ({ h with now := h.now + ms } : House).Sound s c :=
  ⟨hs.settings, hs.ttl, hs.listing,
    fun note hm => ⟨(hs.past note hm).1, Nat.le_add_right_of_le (hs.past note hm).2⟩,
    hs.guests⟩

/-- A guest may become one that negotiates as the book says. -/
theorem withGuest (hs : h.Sound s c) {i : Nat} {g : Guest}
    (hg : ∀ talk, g.connection.stage.talk? = some talk → Awaits s.front c h.book i g talk) :
    ({ h with guests := h.guests.set i g } : House).Sound s c := by
  refine ⟨hs.settings, hs.ttl, hs.listing, ?_, ?_⟩
  · intro note hm
    rw [List.length_set]
    exact hs.past note hm
  · intro j g' talk hj ht
    rw [List.getElem?_set] at hj
    split at hj
    · rename_i hij
      subst hij
      split at hj
      · cases hj
        exact hg talk ht
      · cases hj
    · exact hs.guests j g' talk hj ht

/-- A guest whose connection has no negotiation left can be anything. -/
theorem withSettled (hs : h.Sound s c) (i : Nat) (g : Guest)
    (hg : g.connection.stage.talk? = none) :
    ({ h with guests := h.guests.set i g } : House).Sound s c := by
  refine hs.withGuest fun talk ht => ?_
  rw [hg] at ht
  cases ht

theorem attend (hs : h.Sound s c) (i : Nat) {f : Connection → Node → Connection × Node}
    (hf : ∀ c n, Connection.Leaves n (f c n) ∨ f c n = (c, n)) : (h.attend i f).Sound s c := by
  unfold House.attend
  match hi : h.guests[i]? with
  | none => exact hs
  | some g =>
    rcases hf g.connection h.node with hl | he
    · exact (hs.withNode hl.settings hl.directory).withSettled i ⟨_, _⟩ hl.talk
    · dsimp only
      obtain ⟨hlt, rfl⟩ := List.getElem?_eq_some_iff.mp hi
      rw [he, List.set_getElem_self]
      exact hs

theorem withDirectory (hs : h.Sound s c) {n : Node} (hset : n.settings = h.node.settings)
    (ht : n.directory.whiteListTtl = h.node.directory.whiteListTtl)
    (hl : n.directory.Listing (Vouched s.front c h.book)) :
    ({ h with node := n } : House).Sound s c :=
  ⟨hset.trans hs.settings, ht.trans hs.ttl, hl, hs.past, hs.guests⟩

theorem withNote (hs : h.Sound s c) (note : Note) (hg : note.guest < h.guests.length)
    (ht : note.time ≤ h.now) : ({ h with book := note :: h.book } : House).Sound s c := by
  have hb : h.book <:+ note :: h.book := List.suffix_cons _ _
  refine ⟨hs.settings, hs.ttl, hs.listing.mono fun peer t hv => Vouched.mono hv hb, ?_,
    fun i g talk hi hk => (hs.guests i g talk hi hk).mono hb⟩
  intro note' hm
  rcases List.mem_cons.mp hm with rfl | hm
  · exact ⟨hg, ht⟩
  · exact hs.past note' hm

/-- A new guest, of whom something may be noted at once. -/
theorem join (hs : h.Sound s c) {g : Guest} {book : List Note} (hb : h.book <:+ book)
    (hp : ∀ note ∈ book, note.guest < h.guests.length + 1 ∧ note.time ≤ h.now)
    (hg : ∀ talk, g.connection.stage.talk? = some talk →
      Awaits s.front c book h.guests.length g talk) :
    ({ h with guests := h.guests ++ [g], book := book } : House).Sound s c := by
  refine ⟨hs.settings, hs.ttl, hs.listing.mono fun peer t hv => Vouched.mono hv hb, ?_, ?_⟩
  · intro note hm
    rw [List.length_append]
    exact hp note hm
  · intro i g' talk hi hk
    rw [List.getElem?_append] at hi
    split at hi
    · exact (hs.guests i g' talk hi hk).mono hb
    · rename_i hlt
      obtain ⟨hle, he⟩ := List.getElem?_eq_some_iff.mp hi
      have hlen : i = h.guests.length := by
        rw [List.length_singleton] at hle
        omega
      subst hlen
      simp only [List.getElem_singleton] at he
      subst he
      exact hg talk hk

/-- Whoever is listed now was vouched for by an earlier guest. -/
theorem trusted_of_isEnlisted (hs : h.Sound s c) {peer : Ip.Address}
    (hl : (h.node.directory.isEnlisted h.now peer).1 = true) :
    Trusted s.front c h.book h.guests.length peer h.now := by
  obtain ⟨deadline, ⟨j, t, heard, a, hm, hp, hd⟩, hlt⟩ := hs.listing.of_isEnlisted hl
  obtain ⟨hj, ht⟩ := hs.past _ hm
  exact ⟨j, hj, t, heard, a, hm, hp, ht, Nat.lt_of_lt_of_le hlt hd⟩

theorem accept (hs : h.Sound s c) (hc : s.front.credentials = some c) (peer relay : Ip.Socket)
    (client : Link) (e : Cipher.Entropy) : (h.accept peer relay client e).Sound s c := by
  unfold House.accept
  rcases Connection.start_cases h.node h.now peer relay client e with hl | ⟨client', he⟩
  · dsimp only
    rw [hl.talk]
    refine (hs.withNode hl.settings hl.directory).join (List.suffix_refl _) ?_ ?_
    · exact fun note hm => ⟨Nat.lt_succ_of_lt (hs.past note hm).1, (hs.past note hm).2⟩
    · intro talk hk
      rw [hl.talk] at hk
      cases hk
  · rw [he]
    have hd := hs.listing.isEnlisted (fun peer t t' hv ht => Vouched.of_le hv ht) h.now peer.ip
    have hn := hs.withDirectory (n := (h.node.greet h.now peer.ip).2) rfl rfl hd
    refine hn.join (List.suffix_cons _ _) ?_ ?_
    · intro note hm
      rcases List.mem_cons.mp hm with rfl | hm
      · exact ⟨Nat.lt_succ_self _, Nat.le_refl _⟩
      · exact ⟨Nat.lt_succ_of_lt (hs.past note hm).1, (hs.past note hm).2⟩
    · intro talk hk
      cases hk
      refine ⟨_, _, _, .ok relay, List.suffix_refl _, hs.trusted_of_isEnlisted, ?_⟩
      have hm : (h.node.greet h.now peer.ip).1 =
          s.front.negotiation c (h.node.directory.isEnlisted h.now peer.ip).1 := by
        unfold Node.greet FrontSettings.negotiation
        rw [hs.settings, hc]
      rw [hm]
      exact .here

theorem hears_resumed {g : Guest} {client remote : Link}
    {talk : Dialogue (Except Failure Admission)}
    (h : (g.resumed client remote).stage = .negotiating talk) :
    (g.resumed client remote).hears = talk.hears client := by
  unfold Connection.hears
  rw [h]
  rfl

/-- What a guest that goes on has been heard to say when it is admitted. -/
theorem earned (hs : h.Sound s c) {i : Nat} {g : Guest} (hi : h.guests[i]? = some g)
    (client remote : Link) {a : Admission}
    (ha : (g.resumed client remote).admission? = some a) :
    Proven s.front c (g.heard ++ (g.resumed client remote).hears) a ∨
      a.authenticated = false ∧ ∃ time earlier,
        .looked i g.connection.peer.ip time true :: earlier <:+ h.book ∧
        Trusted s.front c earlier i g.connection.peer.ip time := by
  unfold Connection.admission? at ha
  split at ha
  · rename_i talk hk
    split at ha
    · rename_i a' hr
      cases ha
      obtain ⟨trusted, time, earlier, relay, hsuf, ht, hf⟩ :=
        hs.guests i g talk hi (by rw [show g.connection.stage = _ from hk]; rfl)
      have hgo := hf.trans (talk.follows_run client)
      rw [show (talk.run client).1 = _ from hr] at hgo
      rw [hears_resumed hk]
      rcases proven_or_trusted hgo with hp | ⟨hna, rfl⟩
      · exact .inl hp
      · exact .inr ⟨hna, time, earlier, hsuf, ht rfl⟩
    · cases ha
  · cases ha

theorem advance (hs : h.Sound s c) (i : Nat) (client remote : Link) (names : Names) (draw : Nat) :
    (h.advance i client remote names draw).Sound s c := by
  unfold House.advance
  match hi : h.guests[i]? with
  | none => exact hs
  | some g =>
  dsimp only
  have hlt : i < h.guests.length := (List.getElem?_eq_some_iff.mp hi).1
  rcases (g.resumed client remote).advance_cases h.node names h.now draw with
    ⟨a, ha, hl⟩ | ⟨ha, hl⟩ | ⟨ha, talk, client', hk, he⟩
  · rw [ha]
    have hn := (hs.withNote (.admitted i g.connection.peer.ip h.now
      (g.heard ++ (g.resumed client remote).hears) a) hlt (Nat.le_refl _)).withSettled i
        ⟨_, g.heard ++ (g.resumed client remote).hears⟩ hl.talk
    have hset := hl.settings
    have hd := hl.directory
    rcases hs.earned hi client remote ha with hp | ⟨hna, -⟩
    · rw [Node.welcome, if_pos hp.1] at hset hd
      refine hn.withDirectory hset ?_ ?_
      · rw [hd]
        rfl
      · rw [hd]
        refine hn.listing.enlist ⟨i, h.now, _, a, List.mem_cons_self, hp, ?_⟩
        exact Nat.le_of_eq (congrArg _ hs.ttl)
    · rw [Node.welcome, if_neg (by rw [hna]; exact Bool.false_ne_true)] at hset hd
      exact hn.withNode hset hd
  · rw [ha]
    exact (hs.withNode hl.settings hl.directory).withSettled i ⟨_, _⟩ hl.talk
  · rw [ha, he]
    refine hs.withGuest fun talk' hk' => ?_
    cases hk'
    obtain ⟨trusted, time, earlier, relay, hsuf, ht, hf⟩ :=
      hs.guests i g talk hi (by rw [show g.connection.stage = _ from hk]; rfl)
    refine ⟨trusted, time, earlier, relay, hsuf, ht, ?_⟩
    rw [hears_resumed hk]
    exact hf.trans (talk.follows_run client)

theorem step (hs : h.Sound s c) (hc : s.front.credentials = some c) (e : Event) :
    (h.step e).Sound s c := by
  cases e with
  | wait ms => exact hs.wait ms
  | accept peer relay client e => exact hs.accept hc peer relay client e
  | advance i client remote names draw => exact hs.advance i client remote names draw
  | dialled i pending approach near far remote e =>
    exact hs.attend i fun c n => .inl (c.leaves_dialled n _ pending approach near far remote e)
  | refused i f => exact hs.attend i fun c n => .inl (c.leaves_finish n _)
  | timeOut i => exact hs.attend i fun c n => c.timeOut_cases n
  | lookUp names host => exact hs.withNode rfl rfl
  | propagationFailed hash => exact hs.withNode rfl rfl
  | sweep => exact hs.withNode rfl rfl

theorem run (hs : h.Sound s c) (hc : s.front.credentials = some c) (events : List Event) :
    (h.run events).Sound s c := by
  induction events generalizing h with
  | nil => exact hs
  | cons e events ih => exact ih (hs.step hc e)

end Sound

theorem attend_book (h : House) (i : Nat) (f : Connection → Node → Connection × Node) :
    (h.attend i f).book = h.book := by
  unfold attend
  split <;> rfl

/-- An admission is noted of a guest that goes on, and that is what it is admitted for. -/
theorem exists_of_step_admitted {h : House} {e : Event} {i : Nat} {peer : Ip.Address} {time : Nat}
    {heard : Bytes} {a : Admission}
    (hb : (h.step e).book = .admitted i peer time heard a :: h.book) :
    ∃ client remote names draw g, e = .advance i client remote names draw ∧ h.guests[i]? = some g ∧
      (g.resumed client remote).admission? = some a ∧ peer = g.connection.peer.ip ∧
      heard = g.heard ++ (g.resumed client remote).hears := by
  have hne : h.book ≠ .admitted i peer time heard a :: h.book := (List.cons_ne_self _ _).symm
  cases e with
  | wait ms => exact absurd hb hne
  | lookUp names host => exact absurd hb hne
  | propagationFailed hash => exact absurd hb hne
  | sweep => exact absurd hb hne
  | dialled j pending approach near far remote e =>
    exact absurd ((attend_book _ _ _).symm.trans hb) hne
  | refused j f => exact absurd ((attend_book _ _ _).symm.trans hb) hne
  | timeOut j => exact absurd ((attend_book _ _ _).symm.trans hb) hne
  | accept p relay client e =>
    simp only [step, accept] at hb
    split at hb
    · cases hb
    · exact absurd hb hne
  | advance j client remote names draw =>
    simp only [step, advance] at hb
    match hi : h.guests[j]? with
    | none =>
      rw [hi] at hb
      exact absurd hb hne
    | some g =>
      rw [hi] at hb
      dsimp only at hb
      match ha : (g.resumed client remote).admission? with
      | none =>
        rw [ha] at hb
        exact absurd hb hne
      | some a' =>
        rw [ha] at hb
        obtain ⟨hnote, -⟩ := List.cons.inj hb
        cases hnote
        exact ⟨client, remote, names, draw, g, rfl, hi, ha, rfl, rfl⟩

/-- **Whoever is admitted where a password is wanted has earned it.** In every run of a node, a
guest that is admitted has presented exactly the wanted name and password itself, or it was found
on the white list, where an earlier guest from the same address had put it, less than the listing's
lifetime before, by presenting them. The latter does not count as authenticated, and its admission
leaves the white list as it is. -/
theorem admission_is_earned {s : Settings} {n : Node} {c : Credentials}
    (hn : Node.ofSettings s = .ok n) (hc : n.settings.front.credentials = some c)
    (events : List Event) (e : Event) {i : Nat} {peer : Ip.Address} {time : Nat} {heard : Bytes}
    {a : Admission} :
    let h := (House.ofNode n).run events
    let front := n.settings.front
    (h.step e).book = .admitted i peer time heard a :: h.book →
      Proven front c heard a ∨
      a.authenticated = false ∧ (h.step e).node.directory = h.node.directory ∧
        ∃ checked earlier, .looked i peer checked true :: earlier <:+ h.book ∧
          Trusted front c earlier i peer checked := by
  intro h front hb
  have hs : h.Sound n.settings c := (Sound.ofNode hn).run hc events
  obtain ⟨client, remote, names, draw, g, rfl, hi, ha, rfl, rfl⟩ := exists_of_step_admitted hb
  rcases hs.earned hi client remote ha with hp | ⟨hna, htrust⟩
  · exact .inl hp
  · refine .inr ⟨hna, ?_, htrust⟩
    simp only [step, advance, hi]
    rcases (g.resumed client remote).advance_cases h.node names h.now draw with
      ⟨a', ha', hl⟩ | ⟨ha', -⟩ | ⟨ha', -⟩
    · cases ha.symm.trans ha'
      rw [hl.directory, Node.welcome, if_neg (by rw [hna]; exact Bool.false_ne_true)]
    · cases ha.symm.trans ha'
    · cases ha.symm.trans ha'

/-- A guest that is trusted a millisecond before its listing ends, and is admitted long after. -/
theorem admission_is_earned_by_another :
    let s : Settings := { front := { credentials := some ⟨"u", "p"⟩ } }
    let link (b : Bytes) : Link := { inlet := { source := { arrivals := [.chunk b] } } }
    let peer (port : UInt16) : Ip.Socket := ⟨.v4 ⟨10, 0, 0, 7⟩, port⟩
    let relay : Ip.Socket := ⟨.v4 .unspecified, 0⟩
    let names : Names := fun _ _ => .ok []
    let events : List Event :=
      [.accept (peer 40000) relay (link []) {},
        .advance 0 (link [5, 1, 2, 1, 1, 117, 1, 112, 5, 3, 0, 1, 0, 0, 0, 0, 0, 0]) {} names 0,
        .wait 299999, .accept (peer 40001) relay (link []) {}, .wait 5000]
    let e : Event := .advance 1 (link [5, 1, 0, 5, 3, 0, 1, 0, 0, 0, 0, 0, 0]) {} names 0
    ∃ n, Node.ofSettings s = .ok n ∧
      let h := (House.ofNode n).run events
      (h.step e).book = .admitted 1 (peer 40001).ip 304999
        [5, 1, 0, 5, 3, 0, 1, 0, 0, 0, 0, 0, 0] ⟨.associate relay, [], false⟩ :: h.book ∧
      (h.step e).node.directory = h.node.directory ∧
      ∃ checked earlier, .looked 1 (peer 40001).ip checked true :: earlier <:+ h.book ∧
        Trusted n.settings.front ⟨"u", "p"⟩ earlier 1 (peer 40001).ip checked := by
  intro s link peer relay names events e
  refine ⟨_, rfl, ?_⟩
  intro h
  have hb : (h.step e).book = .admitted 1 (peer 40001).ip 304999
      [5, 1, 0, 5, 3, 0, 1, 0, 0, 0, 0, 0, 0] ⟨.associate relay, [], false⟩ :: h.book := by
    cbv
  rcases admission_is_earned (s := s) rfl rfl events e hb with hp | ⟨-, hd, ht⟩
  · cases hp.1
  · exact ⟨hb, hd, ht⟩

end House

end SocksChain
