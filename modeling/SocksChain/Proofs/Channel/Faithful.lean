import SocksChain.Proofs.Channel.Sealing

/-!
Links on which nothing fails, with or without a cipher. A ciphered inlet brings what its source
brings under the cipher; a ciphered outlet carries what its session has sealed, part of which may
still be held back. Each half is a half on which nothing fails, so what holds of dialogues on such
links holds under a cipher too. Once an outlet has been flushed, the other end can open all of it.
-/

namespace SocksChain

namespace Cipher

namespace Opener

/-- All of `sealed` opens, to `text`, and a stream that ends there ends between two frames. -/
structure Opens (o : Opener) (sealed text : Bytes) : Prop where
  settled : o.update [] = ([], none, o)
  whole : ∃ o', o.update sealed = (text, none, o') ∧ o'.isPartial = false

variable {o : Opener} {text : Bytes}

theorem Opens.end_of_nil (h : o.Opens [] text) : text = [] ∧ o.isPartial = false := by
  obtain ⟨hs, o', hu, hp⟩ := h
  rw [hs] at hu
  cases hu
  exact ⟨rfl, hp⟩

/-- A piece of what opens opens, and leaves what opens to the rest. -/
theorem Opens.update {a more : Bytes} (h : o.Opens (a ++ more) text) : ∃ front back o',
    o.update a = (front, none, o') ∧ o'.Opens more back ∧ text = front ++ back := by
  obtain ⟨-, o'', hu, hp⟩ := h
  cases hf : (o.update a).2.1 with
  | some f =>
    have hn := (update_append_of_failure hf more).2
    rw [hu] at hn
    cases hn
  | none =>
    have ha := update_append hf more
    rw [hu] at ha
    obtain ⟨ht, hr⟩ := Prod.ext_iff.1 ha
    refine ⟨(o.update a).1, _, (o.update a).2.2, ?_, ⟨update_nil_of_update hf, o'', ?_, hp⟩, ht⟩
    · rw [← hf]
    · exact Prod.ext rfl hr.symm

/-- What one end of a hop has sent opens at the other. -/
theorem opens_sent (key : SharedKey) (e : Entropy) (texts : List Bytes) :
    ({ key } : Opener).Opens ((Encryptor.stream { key }).feed e texts).1.flatten texts.flatten :=
  ⟨update_nil key, update_sent key e texts⟩

end Opener

end Cipher

namespace Channel

open Cipher

section Inlets

/-- What is still to be read, where the source brings `sealed`, is `s`. -/
def Deciphering.Yields (d : Deciphering) (sealed s : Bytes) : Prop :=
  ∃ o text, d.decryptor = .stream o ∧ o.Opens sealed text ∧ (d.ended = true → sealed = []) ∧
    s = d.plain ++ text

/-- An inlet that brings `s`, however it is cut and whatever lies over it, and then ends. -/
def Inlet.Brings (i : Inlet) (s : Bytes) : Prop :=
  ∃ received, i.source.Brings received ∧
    match i.layer with
    | none => received = s
    | some d => d.Yields received s

variable {d : Deciphering} {k : Source} {s : Bytes} {limit : Nat}

/-- A read that finds the end is right to. -/
theorem Deciphering.Yields.end_of_nil (hk : k.Brings []) (hd : d.Yields [] s)
    (hp : d.plain = []) : d.atEnd = .ready [] ∧ s = [] ∧
      Inlet.Brings ⟨k, some { d with ended := true }⟩ [] := by
  obtain ⟨o, text, ho, hopens, -, rfl⟩ := hd
  obtain ⟨rfl, hpart⟩ := hopens.end_of_nil
  refine ⟨?_, by rw [hp]; rfl, [], hk, o, [], ho, hopens, fun _ => rfl, by rw [hp]; rfl⟩
  rw [atEnd, ho]
  exact if_neg (by rw [Decryptor.isPartial, hpart]; exact Bool.false_ne_true)

theorem Deciphering.Yields.read {received : Bytes} (hk : k.Brings received)
    (hd : d.Yields received s) (hl : 0 < limit) :
    Unfailing (fun x => x.2.arrivals.length) (fun x => Inlet.Brings ⟨x.2, some x.1⟩ s)
      (fun b x => ∃ s', Inlet.Brings ⟨x.2, some x.1⟩ s' ∧ s = b ++ s' ∧ (b = [] → s = []))
      (d, k) (d.read limit k) := by
  fun_induction Deciphering.read d limit k generalizing received with
  | case1 d k hp =>
    obtain ⟨o, text, ho, hopens, hend, rfl⟩ := hd
    have hne : d.plain ≠ [] := by simpa using hp
    refine .ready ⟨d.plain.drop limit ++ text, ⟨received, hk, o, text, ho, hopens, hend, rfl⟩,
      ?_, fun he => ?_⟩ (Nat.le_refl _)
    · rw [← List.append_assoc, List.take_append_drop]
    · rcases List.take_eq_nil_iff.mp he with h0 | h0
      · exact absurd h0 (Nat.ne_of_gt hl)
      · exact absurd h0 hne
  | case2 d k hp he =>
    have hr : received = [] := by
      obtain ⟨-, -, -, -, hend, -⟩ := hd
      exact hend he
    subst hr
    obtain ⟨ha, rfl, hb⟩ := hd.end_of_nil hk (by simpa using hp)
    rw [ha]
    refine .ready ⟨[], ?_, rfl, fun _ => rfl⟩ (Nat.le_refl _)
    rwa [← he] at hb
  | case3 d k hp he k' hr =>
    have hread := hk.read (by decide : 0 < readPiece)
    rw [hr] at hread
    cases hread with
    | notReady hk' hlt => exact .notReady ⟨received, hk', hd⟩ hlt
  | case4 d k hp he e k' hr =>
    have hread := hk.read (by decide : 0 < readPiece)
    rw [hr] at hread
    cases hread
  | case5 d k hp he k' hr =>
    have hread := hk.read (by decide : 0 < readPiece)
    rw [hr] at hread
    cases hread with
    | ready hk' hle =>
      obtain ⟨received', hk', hs, hnil⟩ := hk'
      obtain rfl := hnil rfl
      obtain rfl : received' = [] := hs.symm
      obtain ⟨ha, rfl, hb⟩ := hd.end_of_nil hk' (by simpa using hp)
      rw [ha]
      exact .ready ⟨[], hb, rfl, fun _ => rfl⟩ hle
  | case6 d k hp he x b k' hr hlt text cause decryptor hu =>
    have hread := hk.read (by decide : 0 < readPiece)
    rw [hr] at hread
    cases hread with
    | ready hk' hle =>
      obtain ⟨received', hk', rfl, -⟩ := hk'
      obtain ⟨o, all, ho, hopens, -, -⟩ := hd
      obtain ⟨front, back, o', hup, -, -⟩ := hopens.update
      rw [ho, Decryptor.update, hup] at hu
      cases hu
  | case7 d k hp he x b k' hr hlt text decryptor hu ih =>
    have hread := hk.read (by decide : 0 < readPiece)
    rw [hr] at hread
    cases hread with
    | ready hk' hle =>
      obtain ⟨received', hk', rfl, -⟩ := hk'
      obtain ⟨o, all, ho, hopens, -, rfl⟩ := hd
      obtain ⟨front, back, o', hup, hopens', rfl⟩ := hopens.update
      rw [ho, Decryptor.update, hup] at hu
      cases hu
      have hplain : d.plain = [] := by simpa using hp
      have hrest := ih hk' ⟨o', back, rfl, hopens', fun hn => absurd hn he, by rw [hplain]; rfl⟩
      exact hrest.of_le hle

theorem bringing_brings : Bringing Inlet.Brings := by
  rintro ⟨k, layer⟩ s limit ⟨received, hk, h⟩ hl
  cases layer with
  | none =>
    obtain rfl : received = s := h
    refine (hk.read hl).within (fun k => (⟨k, none⟩ : Inlet)) (fun _ => rfl)
      (fun k' hk' => ⟨received, hk', rfl⟩) ?_
    rintro b k' ⟨s', hk', hs⟩
    exact ⟨s', ⟨s', hk', rfl⟩, hs⟩
  | some d =>
    exact (Deciphering.Yields.read hk h hl).within
      (fun x : Deciphering × Source => (⟨x.2, some x.1⟩ : Inlet)) (fun _ => rfl)
      (fun _ hx => hx) (fun _ _ hx => hx)

end Inlets

section Outlets

/-- What has been taken and what is held back is `x`, as the session has sealed it. -/
def Enciphering.Renders (c : Enciphering) (taken x : Bytes) : Prop :=
  ∃ key e texts sent, (Encryptor.stream { key }).feed e texts = (sent, c.encryptor, c.entropy) ∧
    texts.flatten = x ∧ sent.flatten = taken ++ c.sealed

/-- An outlet that has been given `x`, whatever lies over it, and takes everything in the end. -/
def Outlet.Carries (o : Outlet) (x : Bytes) : Prop :=
  o.sink.Takes ∧
    match o.layer with
    | none => o.sink.taken = x
    | some c => c.Renders o.sink.taken x

/-- Whoever is at the other end, with the key if there is one, has been sent `x` and no more. -/
def Outlet.Conveys (o : Outlet) (x : Bytes) : Prop :=
  match o.layer with
  | none => o.sink.taken = x
  | some c => ({ key := c.encryptor.key } : Opener).Opens o.sink.taken x

variable {o : Outlet} {c : Enciphering} {k : Sink} {x : Bytes}

namespace Outlet

theorem carries_iff : Carries ⟨k, some c⟩ x ↔ ∃ key e, CarriesSealed key e ⟨k, some c⟩ x := by
  constructor
  · rintro ⟨hk, key, e, texts, sent, hfeed, hx, hsent⟩
    exact ⟨key, e, hk, texts, ⟨c, sent, rfl, hfeed, hsent.symm⟩, hx⟩
  · rintro ⟨key, e, hk, texts, ⟨_, sent, ⟨⟩, hfeed, hsent⟩, hx⟩
    exact ⟨hk, key, e, texts, sent, hfeed, hx, hsent.symm⟩

theorem CarriesSealed.carries {key : SharedKey} {e : Entropy} (h : o.CarriesSealed key e x) :
    o.Carries x := by
  obtain ⟨k, layer⟩ := o
  obtain ⟨-, -, ⟨c, -, rfl, -⟩, -⟩ := id h
  exact carries_iff.2 ⟨key, e, h⟩

/-- A flush sends what was held back, and nothing else. -/
theorem Carries.flush (h : o.Carries x) : Unfailing toCome (fun o' => o'.Carries x)
    (fun _ o' => o'.Carries x ∧ o'.Settled) o o.flush := by
  obtain ⟨k, layer⟩ := o
  cases layer with
  | none =>
    obtain ⟨hk, rfl⟩ := h
    exact hk.flush.within (fun k => (⟨k, none⟩ : Outlet)) (fun _ => rfl) (fun _ hk' => hk')
      fun _ _ hk' => ⟨hk', nofun⟩
  | some c =>
    obtain ⟨key, e, hs⟩ := carries_iff.1 h
    exact hs.flush.within id (fun _ => rfl) (fun _ hw => hw.carries)
      fun _ _ hr => ⟨hr.1.carries, hr.2⟩

/-- An outlet that holds nothing back is shut down at once. -/
theorem Carries.shutdown (h : o.Carries x) (hs : o.Settled) : ∃ o',
    o.shutdown = (.ready (), o') ∧ o'.Carries x ∧ o'.Settled ∧ o'.toCome = o.toCome := by
  obtain ⟨k, layer⟩ := o
  obtain ⟨⟨hwrites, hflushes⟩, ht⟩ := h
  cases layer with
  | none => exact ⟨_, rfl, ⟨⟨hwrites, hflushes⟩, ht⟩, nofun, rfl⟩
  | some c =>
    have hempty : c.sealed = [] := hs c rfl
    have hself : ({ c with sealed := [] } : Enciphering) = c := by rw [← hempty]
    have hdrain : drain c.sealed k = (.ready (), [], k) := by rw [hempty, drain_nil]
    refine ⟨⟨k.shutdown, some c⟩, ?_, ⟨⟨hwrites, hflushes⟩, ht⟩, hs, rfl⟩
    simp only [Outlet.shutdown, Outlet.settle, hdrain, hself]

/-- What has been given to an outlet that holds nothing back is what the other end has. -/
theorem Carries.conveys (h : o.Carries x) (hs : o.Settled) : o.Conveys x := by
  obtain ⟨k, layer⟩ := o
  cases layer with
  | none => exact h.2
  | some c =>
    obtain ⟨-, key, e, texts, sent, hfeed, rfl, hsent⟩ := h
    have hkey := Encryptor.key_feed (.stream { key }) e texts
    have hopens := Opener.opens_sent key e texts
    rw [hfeed] at hkey hopens
    rw [hsent, hs c rfl, List.append_nil] at hopens
    obtain rfl : c.encryptor.key = key := hkey
    exact hopens

end Outlet

theorem carrying_carries : Carrying Outlet.Carries where
  write := by
    rintro ⟨k, layer⟩ x b h hb
    cases layer with
    | none =>
      obtain ⟨hk, rfl⟩ := h
      exact (hk.write hb).within (fun k => (⟨k, none⟩ : Outlet)) (fun _ => rfl)
        (fun _ hk' => hk') fun _ _ hr => hr
    | some c =>
      obtain ⟨key, e, hs⟩ := Outlet.carries_iff.1 h
      exact (carrying_sealed.write _ x b hs hb).within id (fun _ => rfl) (fun _ hw => hw.carries)
        fun _ _ hr => ⟨hr.1, hr.2.1, hr.2.2.carries⟩
  flush _ _ h := h.flush.within id (fun _ => rfl) (fun _ hw => hw) fun _ _ hr => hr.1

end Outlets

section Fresh

variable {key : SharedKey}

/-- What the other end has sent under the key is what a fresh pair of sessions brings. -/
theorem Inlet.brings_sent {k : Source} {e : Entropy} {texts : List Bytes}
    (hk : k.Brings ((Encryptor.stream { key }).feed e texts).1.flatten) :
    Inlet.Brings ⟨k, some { decryptor := .stream { key } }⟩ texts.flatten :=
  ⟨_, hk, _, _, rfl, Opener.opens_sent key e texts, nofun, rfl⟩

theorem Outlet.carries_fresh {k : Sink} (hk : k.Takes) (ht : k.taken = []) (e : Entropy) :
    Outlet.Carries ⟨k, some { encryptor := .stream { key }, entropy := e }⟩ [] :=
  ⟨hk, key, e, [], [], rfl, rfl, by rw [ht]; rfl⟩

end Fresh

end Channel

end SocksChain
