import SocksChain.Proofs.Channel.Sealing

/-!
Calls on a ciphered outlet, one after another in any order. As long as nothing fails beneath it,
what its session seals is what its writes accept, each part once, and nothing of it is left behind
by a flush that succeeds. A write that fails may have sealed its text all the same, and then whoever
repeats it sends the text twice: it is sent once exactly if the error was met before the text was
sealed.
-/

namespace SocksChain.Channel

open Cipher

/-- What the user of an outlet asks of it. Whether the stream beneath is ready to be shut down is
found out only when it is asked to. -/
inductive Call where
  | write (b : Bytes)
  | flush
  | shutdown (beneath : Bool)

/-- A call and its answer. -/
inductive Event where
  | wrote (b : Bytes) (answer : Attempt Nat)
  | flushed (answer : Attempt Unit)
  | shut (answer : Attempt Unit)

namespace Event

/-- What a write has accepted. -/
def part? : Event → Option Bytes
  | wrote b (.ready n) => if b = [] then none else some (b.take n)
  | _ => none

def Fails : Event → Prop
  | wrote _ answer => ∃ err, answer = .failed err
  | flushed answer => ∃ err, answer = .failed err
  | shut answer => ∃ err, answer = .failed err

/-- A flush or a shutdown that has succeeded. -/
def Settles : Event → Prop
  | wrote _ _ => False
  | flushed answer => answer = .ready ()
  | shut answer => answer = .ready ()

end Event

namespace Outlet

/-- An outlet over which a session has just begun. -/
def fresh (k : Sink) (key : SharedKey) (e : Entropy) : Outlet :=
  ⟨k, some { encryptor := (key.pair false).encryptor, entropy := e }⟩

def call (o : Outlet) : Call → Event × Outlet
  | .write b => (.wrote b (o.write b).1, (o.write b).2)
  | .flush => (.flushed o.flush.1, o.flush.2)
  | .shutdown true => (.shut o.shutdown.1, o.shutdown.2)
  | .shutdown false =>
    match o.settle with
    | (.ready _, o) => (.shut .notReady, o)
    | (r, o) => (.shut r, o)

def calls (o : Outlet) : List Call → List Event × Outlet
  | [] => ([], o)
  | c :: rest => ((o.call c).1 :: ((o.call c).2.calls rest).1, ((o.call c).2.calls rest).2)

end Outlet

/-- What a session seals in the course of events: what writes accept, and the pieces of text that
were sealed before their writes failed. -/
inductive Seals : List Event → List Bytes → Prop
  | nil : Seals [] []
  | accepted {b : Bytes} {events : List Event} {texts : List Bytes} : b ≠ [] →
      Seals events texts → Seals (.wrote b (.ready (b.take writePiece).length) :: events)
        (b.take writePiece :: texts)
  | lost {b : Bytes} {err : IoError} {events : List Event} {texts : List Bytes} : b ≠ [] →
      Seals events texts → Seals (.wrote b (.failed err) :: events) (b.take writePiece :: texts)
  | empty {events : List Event} {texts : List Bytes} : Seals events texts →
      Seals (.wrote [] (.ready 0) :: events) texts
  | other {a : Event} {events : List Event} {texts : List Bytes} :
      (∀ b n, a ≠ .wrote b (.ready n)) → Seals events texts → Seals (a :: events) texts

namespace Seals

variable {a : Event} {events : List Event} {texts more : List Bytes}

theorem cons (h : Seals [a] texts) (hs : Seals events more) :
    Seals (a :: events) (texts ++ more) := by
  cases h with
  | accepted hb hnil =>
    cases hnil
    exact .accepted hb hs
  | lost hb hnil =>
    cases hnil
    exact .lost hb hs
  | empty hnil =>
    cases hnil
    exact .empty hs
  | other ha hnil =>
    cases hnil
    exact .other ha hs

/-- A write that is ready has accepted all of its text, up to the limit. -/
theorem eq_min (h : Seals events texts) {b : Bytes} {n : Nat}
    (hm : .wrote b (.ready n) ∈ events) : n = min b.length writePiece := by
  induction h with
  | nil => cases hm
  | accepted _ _ ih =>
    rcases List.mem_cons.1 hm with heq | hm
    · cases heq
      rw [List.length_take, Nat.min_comm]
    · exact ih hm
  | lost _ _ ih =>
    rcases List.mem_cons.1 hm with heq | hm
    · cases heq
    · exact ih hm
  | empty _ ih =>
    rcases List.mem_cons.1 hm with heq | hm
    · cases heq
      rfl
    · exact ih hm
  | other ha _ ih =>
    rcases List.mem_cons.1 hm with heq | hm
    · exact absurd heq.symm (ha b n)
    · exact ih hm

theorem part?_accepted {b : Bytes} (hb : b ≠ []) :
    Event.part? (.wrote b (.ready (b.take writePiece).length)) = some (b.take writePiece) := by
  rw [Event.part?, if_neg hb, List.length_take, ← List.take_eq_take_min]

theorem part?_other (ha : ∀ b n, a ≠ .wrote b (.ready n)) : a.part? = none := by
  unfold Event.part?
  split
  · exact absurd rfl (ha _ _)
  · rfl

/-- Either nothing was lost, or more has been sealed than was accepted. -/
theorem eq_or_lt (h : Seals events texts) : texts = events.filterMap Event.part? ∨
    (∃ a ∈ events, a.Fails) ∧
      (events.filterMap Event.part?).flatten.length < texts.flatten.length := by
  induction h with
  | nil => exact .inl rfl
  | accepted hb _ ih =>
    rw [List.filterMap_cons_some (part?_accepted hb)]
    rcases ih with rfl | ⟨⟨a, ha, hf⟩, hlt⟩
    · exact .inl rfl
    · refine .inr ⟨⟨a, List.mem_cons_of_mem _ ha, hf⟩, ?_⟩
      rw [List.flatten_cons, List.flatten_cons, List.length_append, List.length_append]
      exact Nat.add_lt_add_left hlt _
  | @lost b err events texts hb _ ih =>
    refine .inr ⟨⟨_, List.mem_cons_self, err, rfl⟩, ?_⟩
    -- A lost piece is not empty, so nothing that is accepted later makes up for it.
    have hpos : 0 < (b.take writePiece).length := length_take_writePiece_pos hb
    rw [List.filterMap_cons_none rfl, List.flatten_cons, List.length_append]
    rcases ih with rfl | ⟨-, hlt⟩
    · omega
    · omega
  | empty _ ih =>
    rw [List.filterMap_cons_none rfl]
    rcases ih with ih | ⟨⟨a, ha, hf⟩, hlt⟩
    · exact .inl ih
    · exact .inr ⟨⟨a, List.mem_cons_of_mem _ ha, hf⟩, hlt⟩
  | other ha _ ih =>
    rw [List.filterMap_cons_none (part?_other ha)]
    rcases ih with ih | ⟨⟨a, ha, hf⟩, hlt⟩
    · exact .inl ih
    · exact .inr ⟨⟨a, List.mem_cons_of_mem _ ha, hf⟩, hlt⟩

/-- Nothing is lost where nothing fails. -/
theorem eq_parts (h : Seals events texts) (hu : ∀ a ∈ events, ¬ a.Fails) :
    texts = events.filterMap Event.part? := by
  rcases h.eq_or_lt with heq | ⟨⟨a, ha, hf⟩, -⟩
  · exact heq
  · exact absurd hf (hu a ha)

theorem length_le (h : Seals events texts) :
    (events.filterMap Event.part?).flatten.length ≤ texts.flatten.length := by
  rcases h.eq_or_lt with rfl | ⟨-, hlt⟩
  · exact Nat.le_refl _
  · exact Nat.le_of_lt hlt

theorem eq_parts_iff (h : Seals events texts) : texts = events.filterMap Event.part? ↔
    texts.flatten = (events.filterMap Event.part?).flatten := by
  refine ⟨congrArg List.flatten, fun hflat => ?_⟩
  rcases h.eq_or_lt with heq | ⟨-, hlt⟩
  · exact heq
  · rw [hflat] at hlt
    exact absurd hlt (Nat.lt_irrefl _)

end Seals

namespace Outlet

variable {o : Outlet} {key : SharedKey} {e : Entropy} {texts : List Bytes}

theorem HasSealed.exists_seals {a : Event} (h : o.HasSealed key e texts)
    (ha : ∀ b n, a ≠ .wrote b (.ready n)) :
    ∃ more, Seals [a] more ∧ o.HasSealed key e (texts ++ more) :=
  ⟨[], .other ha .nil, by rwa [List.append_nil]⟩

/-- Over any sink, a call seals what its answer says and nothing else. -/
theorem HasSealed.call (h : o.HasSealed key e texts) (c : Call) :
    (∃ more, Seals [(o.call c).1] more ∧ (o.call c).2.HasSealed key e (texts ++ more)) ∧
      ((o.call c).1.Settles → (o.call c).2.Settled) := by
  match c with
  | .write b =>
    refine ⟨?_, False.elim⟩
    have hwrite := h.write b
    unfold Outlet.call
    dsimp only
    generalize o.write b = x at hwrite ⊢
    cases hwrite with
    | waits _ hs => exact hs.exists_seals nofun
    | refused _ hs => exact hs.exists_seals nofun
    | nothing hb _ hs =>
      rw [hb]
      exact ⟨[], .empty .nil, by rwa [List.append_nil]⟩
    | accepted hb _ hs => exact ⟨_, .accepted hb .nil, hs⟩
    | lost hb _ hs => exact ⟨_, .lost hb .nil, hs⟩
  | .flush => exact ⟨h.flush.1.exists_seals nofun, h.flush.2⟩
  | .shutdown true => exact ⟨h.shutdown.1.exists_seals nofun, h.shutdown.2⟩
  | .shutdown false =>
    have hs := h.settle
    unfold Outlet.call
    dsimp only
    generalize o.settle = x at hs ⊢
    obtain ⟨_ | _ | _, o'⟩ := x
    · exact ⟨hs.exists_seals nofun, nofun⟩
    · exact ⟨hs.exists_seals nofun, nofun⟩
    · exact ⟨hs.exists_seals nofun, nofun⟩

/-- Over any sink, an outlet seals what its calls say and nothing else. -/
theorem HasSealed.calls (h : o.HasSealed key e texts) (cs : List Call) :
    (∃ more, Seals (o.calls cs).1 more ∧ (o.calls cs).2.HasSealed key e (texts ++ more)) ∧
      ∀ a, (o.calls cs).1.getLast? = some a → a.Settles → (o.calls cs).2.Settled := by
  induction cs generalizing o texts with
  | nil => exact ⟨⟨[], .nil, by rwa [List.append_nil]⟩, nofun⟩
  | cons c rest ih =>
    obtain ⟨⟨first, hfirst, hcall⟩, hsettled⟩ := h.call c
    obtain ⟨⟨more, hmore, hcalls⟩, hlast⟩ := ih hcall
    refine ⟨⟨first ++ more, hfirst.cons hmore, by rwa [← List.append_assoc]⟩, fun a ha => ?_⟩
    cases rest with
    | nil =>
      cases ha
      exact hsettled
    | cons c' rest => exact hlast a ha

theorem call_takes {k : Sink} {c : Enciphering} (h : k.Takes) (x : Call) :
    (call ⟨k, some c⟩ x).2.sink.Takes ∧ ¬ (call ⟨k, some c⟩ x).1.Fails := by
  match x with
  | .write b => exact (write_takes h b).holds
  | .flush => exact (flush_takes h).holds
  | .shutdown true => exact (shutdown_takes h).holds
  | .shutdown false =>
    have hs := settle_takes (c := c) h
    unfold call
    dsimp only
    generalize Outlet.settle _ = x at hs ⊢
    cases hs with
    | ready hk => exact ⟨hk, nofun⟩
    | notReady hk => exact ⟨hk, nofun⟩

/-- On a sink that takes everything in the end no call fails. -/
theorem HasSealed.calls_takes (h : o.HasSealed key e texts) (hk : o.sink.Takes) (cs : List Call) :
    (o.calls cs).2.sink.Takes ∧ ∀ a ∈ (o.calls cs).1, ¬ a.Fails := by
  induction cs generalizing o texts with
  | nil => exact ⟨hk, nofun⟩
  | cons c rest ih =>
    obtain ⟨⟨more, -, hcall⟩, -⟩ := h.call c
    have hstep : (o.call c).2.sink.Takes ∧ ¬ (o.call c).1.Fails := by
      obtain ⟨k, layer⟩ := o
      obtain ⟨_, -, rfl, -⟩ := h
      exact call_takes hk c
    obtain ⟨hk', hrest⟩ := ih hcall hstep.1
    exact ⟨hk', List.forall_mem_cons.2 ⟨hstep.2, hrest⟩⟩

theorem hasSealed_fresh {k : Sink} (ht : k.taken = []) (key : SharedKey) (e : Entropy) :
    (fresh k key e).HasSealed key e [] :=
  ⟨_, [], rfl, rfl, by rw [fresh, ht]; rfl⟩

section First

/-- A session seals something even for the shortest text: its salt goes out with it. -/
theorem sealed_ne_nil (key : SharedKey) (e : Entropy) (text : Bytes) :
    ((key.pair false).encryptor.update e text).1 ≠ [] := by
  intro hnil
  have hpos := key.suite.saltLength_pos
  rw [← e.length_draw key.suite.saltLength] at hpos
  rw [(List.append_eq_nil_iff.1 hnil).1] at hpos
  exact Nat.lt_irrefl 0 hpos

/-- An outlet whose session has sealed one piece of text, none of which has been taken. -/
def kept (k : Sink) (key : SharedKey) (e : Entropy) (text : Bytes) : Outlet :=
  let r := (key.pair false).encryptor.update e text
  ⟨k, some ⟨r.2.1, r.2.2, r.1⟩⟩

theorem write_fresh (k : Sink) (key : SharedKey) (e : Entropy) {b : Bytes} (hb : b ≠ []) :
    (fresh k key e).write b =
      match (kept k key e (b.take writePiece)).settle with
      | (.failed err, o) => (.failed err, o)
      | (_, o) => (.ready (b.take writePiece).length, o) := by
  simp only [write, fresh, settle, drain_nil, List.isEmpty_iff, hb, if_false]
  rfl

theorem settle_kept_of_notReady {k k' : Sink} (key : SharedKey) (e : Entropy) {text : Bytes}
    (hw : ∀ b, k.write b = (.notReady, k')) :
    (kept k key e text).settle = (.notReady, kept k' key e text) := by
  simp only [settle, kept, drain_of_notReady (sealed_ne_nil key e text) (hw _)]

theorem settle_kept_of_failed {k k' : Sink} {err : IoError} (key : SharedKey) (e : Entropy)
    {text : Bytes} (hw : ∀ b, k.write b = (.failed err, k')) :
    (kept k key e text).settle = (.failed err, kept k' key e text) := by
  simp only [settle, kept, drain_of_failed (sealed_ne_nil key e text) (hw _)]

theorem hasSealed_kept (k : Sink) (key : SharedKey) (e : Entropy) (text : Bytes)
    (ht : k.taken = []) : (kept k key e text).HasSealed key e [text] :=
  ⟨_, [((key.pair false).encryptor.update e text).1], rfl, rfl, by
    rw [List.flatten_singleton, kept, ht]
    rfl⟩

end First

end Outlet

/-- **Every accepted byte goes out once.** Whatever calls are made on an outlet whose sink never
fails, what the sink has taken and what is held back come together to what the session makes of the
accepted parts, one after another, and of nothing else. A write that is ready has accepted all of its
text, up to the limit. After a flush or a shutdown that has succeeded nothing is held back, and
whoever has the key reads the accepted parts in what the sink has taken. -/
theorem Outlet.accepted_goes_out_once (key : SharedKey) (e : Entropy) {k : Sink} (hk : k.Takes)
    (ht : k.taken = []) (cs : List Call) :
    let r := (fresh k key e).calls cs
    let parts := r.1.filterMap Event.part?
    r.2.HasSealed key e parts ∧ (∀ a ∈ r.1, ¬ a.Fails) ∧
      (∀ b n, .wrote b (.ready n) ∈ r.1 → n = min b.length writePiece) ∧
      ∀ a, r.1.getLast? = some a → a.Settles →
        r.2.Settled ∧ r.2.ReadsAs key parts.flatten := by
  intro r parts
  have hfresh := hasSealed_fresh ht key e
  obtain ⟨⟨texts, hseals, hsealed⟩, hsettled⟩ := hfresh.calls cs
  have hunfailing := (hfresh.calls_takes hk cs).2
  rw [List.nil_append] at hsealed
  obtain rfl : texts = parts := hseals.eq_parts hunfailing
  refine ⟨hsealed, hunfailing, fun b n hm => hseals.eq_min hm, fun a ha hs => ?_⟩
  exact ⟨hsettled a ha hs, hsealed.readsAs (hsettled a ha hs)⟩

/-- A text that is kept back at first, and flushed. -/
theorem Outlet.kept_back_goes_out_once :
    let key := SharedKey.ofSecret .aes128Gcm "secret"
    let k : Sink := { writes := [.notReady] }
    let r := (fresh k key {}).calls [.write [1, 2, 3], .flush]
    k.Takes ∧ k.taken = [] ∧ r.1 = [.wrote [1, 2, 3] (.ready 3), .flushed (.ready ())] ∧
      r.2.ReadsAs key [1, 2, 3] := by
  intro key k r
  have hk : k.Takes := ⟨by simp [k, Acceptance.Takes], by simp [k]⟩
  have hwrite : (fresh k key {}).write [1, 2, 3] = (.ready 3, kept {} key {} [1, 2, 3]) := by
    rw [write_fresh k key {} (List.cons_ne_nil _ _), List.take_of_length_le (by decide),
      settle_kept_of_notReady key {} fun b => rfl]
    rfl
  have hflush : (kept {} key {} [1, 2, 3]).flush.1 = .ready () := by
    rw [flush]
    simp only [settle, kept, drain_of_writes_nil]
    rfl
  have hr : r.1 = [.wrote [1, 2, 3] (.ready 3), .flushed (.ready ())] := by
    simp only [r, calls, call, hwrite, hflush]
  obtain ⟨-, -, -, hlast⟩ := accepted_goes_out_once key {} hk rfl [.write [1, 2, 3], .flush]
  have hreads := (hlast (.flushed (.ready ())) (by rw [hr]; rfl) rfl).2
  rw [hr] at hreads
  exact ⟨hk, rfl, hr, hreads⟩

/-- **A write that fails, and is then repeated.** The sink may have done anything so far; from the
error on it takes everything in the end. The same text is written until it has been accepted, and
flushed. Then the other end reads what was accepted earlier and after it the text, once, exactly if
the error was met in sending what was held back, before any of the text was sealed, and if nothing
had been sealed before that was not accepted. -/
theorem Outlet.failed_write_accepts_nothing_iff (key : SharedKey) (e : Entropy) {k : Sink}
    (ht : k.taken = []) {cs : List Call} {events : List Event} {o o' : Outlet}
    (hr : (fresh k key e).calls cs = (events, o)) {b : Bytes} {err : IoError}
    (hw : o.write b = (.failed err, o')) (hk : o'.sink.Takes) (i : Inlet) :
    let parts := events.filterMap Event.part?
    ∃ o'', Dialogue.run (Exchange.send b) ⟨i, o'⟩ = (.done (.ok ()), ⟨i, o''⟩) ∧
      (o''.ReadsAs key (parts.flatten ++ b) ↔
        o.settle.1 = .failed err ∧ o.HasSealed key e parts) := by
  intro parts
  have hfresh := (hasSealed_fresh ht key e).calls cs
  rw [hr] at hfresh
  obtain ⟨⟨texts, hseals, hsealed⟩, -⟩ := hfresh
  rw [List.nil_append] at hsealed
  dsimp only at hseals hsealed
  -- The outlet may be said to have sealed other pieces, but not pieces of another text.
  have hiff : o.HasSealed key e parts ↔ texts = parts :=
    ⟨fun h => hseals.eq_parts_iff.2 (hsealed.flatten_unique h), fun h => by rwa [← h]⟩
  have hwrite := hsealed.write b
  rw [hw] at hwrite
  rw [hiff]
  cases hwrite with
  | refused hs ho =>
    obtain ⟨o'', hrun, hreads⟩ := ho.send hk b i
    refine ⟨o'', hrun, fun h => ⟨hs, ?_⟩, fun h => by rwa [← h.2]⟩
    exact hseals.eq_parts_iff.2 (List.append_cancel_right (hreads.unique h))
  | lost hb hs ho =>
    obtain ⟨o'', hrun, hreads⟩ := ho.send hk b i
    refine ⟨o'', hrun, fun h => ?_, fun h => ?_⟩
    · have hlen := congrArg List.length (List.append_cancel_right (hreads.unique h))
      rw [List.flatten_concat, List.length_append] at hlen
      have hpos := length_take_writePiece_pos hb
      have hle : parts.flatten.length ≤ texts.flatten.length := hseals.length_le
      omega
    · rw [hs] at h
      cases h.1

/-- What was kept back is refused when the next text is written: that text is sent once. -/
theorem Outlet.refused_write_accepts_nothing :
    let key := SharedKey.ofSecret .aes128Gcm "secret"
    let err : IoError := ⟨.brokenPipe, none⟩
    let k : Sink := { writes := [.notReady, .fails err] }
    let o := ((fresh k key {}).calls [.write [1, 2, 3]]).2
    k.taken = [] ∧ (o.write [4]).1 = .failed err ∧ (o.write [4]).2.sink.Takes ∧
      ∃ o', Dialogue.run (Exchange.send [4]) ⟨{}, (o.write [4]).2⟩ = (.done (.ok ()), ⟨{}, o'⟩) ∧
        o'.ReadsAs key [1, 2, 3, 4] := by
  intro key err k o
  have hwrite : (fresh k key {}).write [1, 2, 3] =
      (.ready 3, kept { writes := [.fails err] } key {} [1, 2, 3]) := by
    rw [write_fresh k key {} (List.cons_ne_nil _ _), List.take_of_length_le (by decide),
      settle_kept_of_notReady key {} fun b => rfl]
    rfl
  have hr : (fresh k key {}).calls [.write [1, 2, 3]] =
      ([.wrote [1, 2, 3] (.ready 3)], kept { writes := [.fails err] } key {} [1, 2, 3]) := by
    simp only [calls, call, hwrite]
  have hsettle : (kept { writes := [.fails err] } key {} [1, 2, 3]).settle =
      (.failed err, kept {} key {} [1, 2, 3]) := settle_kept_of_failed key {} fun b => rfl
  have ho : o = kept { writes := [.fails err] } key {} [1, 2, 3] := congrArg Prod.snd hr
  have hw : (kept { writes := [.fails err] } key {} [1, 2, 3]).write [4] =
      (.failed err, kept {} key {} [1, 2, 3]) := write_of_failed hsettle [4]
  have hk : (kept {} key {} [1, 2, 3]).sink.Takes := ⟨nofun, nofun⟩
  obtain ⟨o', hrun, hiff⟩ := failed_write_accepts_nothing_iff key {} rfl hr hw hk {}
  have hreads := hiff.2 ⟨congrArg Prod.fst hsettle, hasSealed_kept {} key {} [1, 2, 3] rfl⟩
  rw [ho, hw]
  exact ⟨rfl, rfl, hk, o', hrun, hreads⟩

/-- A text that is met by an error after it has been sealed is sent twice. -/
theorem Outlet.lost_write_is_sent_twice :
    let key := SharedKey.ofSecret .aes128Gcm "secret"
    let err : IoError := ⟨.brokenPipe, none⟩
    let hello : Bytes := [104, 101, 108, 108, 111]
    let r := (fresh { writes := [.fails err] } key {}).write hello
    r.1 = .failed err ∧ r.2.sink.Takes ∧
      ∃ o, Dialogue.run (Exchange.send hello) ⟨{}, r.2⟩ = (.done (.ok ()), ⟨{}, o⟩) ∧
        o.ReadsAs key (hello ++ hello) ∧ ¬ o.ReadsAs key hello := by
  intro key err hello r
  have hr : r = (.failed err, kept {} key {} hello) := by
    simp only [r]
    rw [write_fresh _ key {} (List.cons_ne_nil _ _), List.take_of_length_le (by decide),
      settle_kept_of_failed key {} fun b => rfl]
  have hk : r.2.sink.Takes := by
    rw [hr]
    exact ⟨nofun, nofun⟩
  have hsealed : r.2.HasSealed key {} [hello] := by
    rw [hr]
    exact hasSealed_kept {} key {} hello rfl
  obtain ⟨o, hrun, hreads⟩ := hsealed.send hk hello {}
  refine ⟨by rw [hr], hk, o, hrun, hreads, fun h => ?_⟩
  have hlen := congrArg List.length (hreads.unique h)
  exact absurd hlen (by decide)

end SocksChain.Channel
