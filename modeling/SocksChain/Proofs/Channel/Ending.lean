import SocksChain.Proofs.Channel.Delivery
import SocksChain.Proofs.Channel.Hearing
import SocksChain.Proofs.Cipher.Frames

/-!
How a ciphered stream ends for its reader. Whatever the sealed bytes are, and however they arrive,
the reader gets what can be opened at the front of them, and finds a clean end only if there is
nothing else. Otherwise it comes to an error, and may read on after it: a session that has refused a
frame never opens another one, and holds on to what it refused, so that no end is clean any more.
-/

namespace SocksChain

namespace Cipher.Opener

/-- What has been received is opened as far as it can be, or a frame of it was refused. -/
def Settled (o : Opener) : Prop :=
  o.update [] = ([], none, o) ∨ o.failed = true ∧ o.isPartial = true

variable {o : Opener}

theorem Settled.update (h : o.Settled) (a : Bytes) : (o.update a).2.2.Settled := by
  cases hf : (o.update a).2.1 with
  | none => exact .inl (update_nil_of_update hf)
  | some f =>
    rcases h with h | ⟨hfailed, hpartial⟩
    · have hs : o.failed = false := by
        rw [← Bool.not_eq_true]
        intro ht
        rw [update_of_failed ht] at h
        cases h
      exact .inr ⟨failed_update hf, isPartial_of_failure hs hf⟩
    · rw [update_of_failed hfailed]
      exact .inr ⟨hfailed, hpartial⟩

/-- Whether or not a piece fails, the session after it opens what there is to open of the rest, and
ends as it would have ended on all of it. -/
theorem update_rest (o : Opener) (a more : Bytes) :
    (o.update (a ++ more)).1 = (o.update a).1 ++ ((o.update a).2.2.update more).1 ∧
      (EndsClean (o.update (a ++ more)) ↔ EndsClean ((o.update a).2.2.update more)) := by
  cases hf : (o.update a).2.1 with
  | none =>
    rw [update_append hf]
    exact ⟨rfl, Iff.rfl⟩
  | some f =>
    obtain ⟨htext, hfailure⟩ := update_append_of_failure hf more
    rw [update_of_failed (failed_update hf), htext, List.append_nil]
    refine ⟨rfl, iff_of_false (fun h => ?_) (fun h => nomatch h.1)⟩
    exact nomatch hfailure.symm.trans h.1

end Cipher.Opener

namespace Channel

open Cipher

/-- What becomes of a read where `text` is still to come, and then a clean end or not: it gives some
of the text, or finds the clean end that is due, or has to be made again, or reports an error. -/
inductive Answers {σ : Type} (toCome : σ → Nat) (Owes : Bytes → σ → Prop) (clean : Prop)
    (text : Bytes) (s : σ) : Attempt Bytes × σ → Prop
  | gives {b later : Bytes} {s' : σ} : b ≠ [] → text = b ++ later → Owes later s' →
      toCome s' ≤ toCome s → Answers toCome Owes clean text s (.ready b, s')
  | ends {s' : σ} : text = [] → clean → Owes [] s' → toCome s' ≤ toCome s →
      Answers toCome Owes clean text s (.ready [], s')
  | waits {s' : σ} : Owes text s' → toCome s' < toCome s →
      Answers toCome Owes clean text s (.notReady, s')
  | breaks {e : IoError} {s' : σ} : ¬ clean → e.kind = .unexpectedEof ∨ e.kind = .invalidData →
      Owes text s' → toCome s' ≤ toCome s → Answers toCome Owes clean text s (.failed e, s')

theorem Answers.of_le {σ : Type} {toCome : σ → Nat} {Owes : Bytes → σ → Prop} {clean : Prop}
    {text : Bytes} {s t : σ} {x : Attempt Bytes × σ} (h : Answers toCome Owes clean text t x)
    (hle : toCome t ≤ toCome s) : Answers toCome Owes clean text s x := by
  cases h with
  | gives hb ht ho hl => exact .gives hb ht ho (Nat.le_trans hl hle)
  | ends ht hc ho hl => exact .ends ht hc ho (Nat.le_trans hl hle)
  | waits ho hl => exact .waits ho (Nat.lt_of_lt_of_le hl hle)
  | breaks hc he ho hl => exact .breaks hc he ho (Nat.le_trans hl hle)

theorem Source.Brings.of_ready {k k' : Source} {s b : Bytes} (h : k.Brings s)
    (hr : k.read readPiece = (.ready b, k')) :
    k'.arrivals.length ≤ k.arrivals.length ∧
      ∃ s', k'.Brings s' ∧ s = b ++ s' ∧ (b = [] → s = []) := by
  have hread := h.read (by decide : 0 < readPiece)
  rw [hr] at hread
  cases hread with
  | ready hs hle => exact ⟨hle, hs⟩

namespace Deciphering

/-- Where the rest of the sealed stream is `rest`, there is still `text` to come, and then a clean
end or not. -/
def Leaves (d : Deciphering) (rest text : Bytes) (clean : Prop) : Prop :=
  ∃ o, d.decryptor = .stream o ∧ o.Settled ∧ text = d.plain ++ (o.update rest).1 ∧
    (Opener.EndsClean (o.update rest) ↔ clean) ∧ (d.ended = true → rest = [])

def Owes (clean : Prop) (text : Bytes) (x : Deciphering × Source) : Prop :=
  ∃ rest, x.2.Brings rest ∧ x.1.Leaves rest text clean

variable {d : Deciphering} {k : Source} {rest text : Bytes} {clean : Prop} {limit : Nat}

-- What is owed outlives an error. So the end of the sealed bytes has to be judged also where a frame
-- was refused before, and there the session still holds what it refused.
/-- An end that is found is a clean one if it is to be, and an error otherwise. -/
theorem Leaves.atEnd (h : d.Leaves [] text clean) (hp : d.plain = []) {x y : Deciphering × Source}
    (ho : Owes clean text y) (hle : y.2.arrivals.length ≤ x.2.arrivals.length) :
    Answers (fun x => x.2.arrivals.length) (Owes clean) clean text x (d.atEnd, y) := by
  obtain ⟨o, hdec, hs, htext, hclean, -⟩ := h
  have hbroken : o.isPartial = true → ¬ clean →
      Answers (fun x => x.2.arrivals.length) (Owes clean) clean text x (d.atEnd, y) := by
    intro hpart hc
    have ha : d.atEnd = .failed brokenFrame := by
      rw [Deciphering.atEnd, hdec]
      exact if_pos hpart
    rw [ha]
    exact .breaks hc (.inl rfl) ho hle
  rcases hs with hs | ⟨hfailed, hpart⟩
  · rw [hs] at hclean htext
    rw [hp, List.append_nil] at htext
    subst htext
    cases hpart : o.isPartial with
    | true => exact hbroken hpart fun hc => Bool.false_ne_true ((hclean.mpr hc).2.symm.trans hpart)
    | false =>
      have ha : d.atEnd = .ready [] := by
        rw [Deciphering.atEnd, hdec]
        exact if_neg (by rw [Decryptor.isPartial, hpart]; exact Bool.false_ne_true)
      rw [ha]
      exact .ends rfl (hclean.mp ⟨rfl, hpart⟩) ho hle
  · refine hbroken hpart fun hc => ?_
    have hnone := (hclean.mpr hc).1
    rw [Opener.update_of_failed hfailed] at hnone
    cases hnone

/-- What is received is opened as far as it goes, and what follows is left. -/
theorem Leaves.update {a more : Bytes} (h : d.Leaves (a ++ more) text clean) (hp : d.plain = [])
    (he : d.ended ≠ true) :
    let r := d.decryptor.update a
    Leaves { d with decryptor := r.2.2, plain := r.1 } more text clean ∧ (r.2.1 ≠ none → ¬ clean) := by
  obtain ⟨o, ho, hs, rfl, hclean, -⟩ := h
  obtain ⟨htext, hends⟩ := o.update_rest a more
  rw [ho]
  refine ⟨⟨(o.update a).2.2, rfl, hs.update a, ?_, hends.symm.trans hclean, fun hd => absurd hd he⟩,
    fun hf hc => ?_⟩
  · rw [hp, List.nil_append, htext]
    rfl
  · obtain ⟨f, hf⟩ := Option.ne_none_iff_exists'.mp hf
    have hfailure := (Opener.update_append_of_failure hf more).2
    exact nomatch hfailure.symm.trans (hclean.mpr hc).1

theorem Owes.read (h : Owes clean text (d, k)) (hl : 0 < limit) :
    Answers (fun x => x.2.arrivals.length) (Owes clean) clean text (d, k) (d.read limit k) := by
  obtain ⟨rest, hk, hd⟩ := h
  fun_induction Deciphering.read d limit k generalizing rest with
  | case1 d k hp =>
    obtain ⟨o, ho, hs, rfl, hclean, hend⟩ := hd
    have hne : d.plain ≠ [] := by simpa using hp
    have htake : d.plain.take limit ≠ [] := by
      intro he
      rcases List.take_eq_nil_iff.mp he with h0 | h0
      · exact absurd h0 (Nat.ne_of_gt hl)
      · exact absurd h0 hne
    have htext : d.plain ++ (o.update rest).1 =
        d.plain.take limit ++ (d.plain.drop limit ++ (o.update rest).1) := by
      rw [← List.append_assoc, List.take_append_drop]
    exact .gives htake htext ⟨rest, hk, o, ho, hs, rfl, hclean, hend⟩ (Nat.le_refl _)
  | case2 d k hp he =>
    obtain rfl : rest = [] := by
      obtain ⟨-, -, -, -, -, hend⟩ := hd
      exact hend he
    exact hd.atEnd (by simpa using hp) ⟨[], hk, hd⟩ (Nat.le_refl _)
  | case3 d k hp he k' hr =>
    have hread := hk.read (by decide : 0 < readPiece)
    rw [hr] at hread
    cases hread with
    | notReady hk' hlt => exact .waits ⟨rest, hk', hd⟩ hlt
  | case4 d k hp he e k' hr =>
    have hread := hk.read (by decide : 0 < readPiece)
    rw [hr] at hread
    cases hread
  | case5 d k hp he k' hr =>
    obtain ⟨hle, rest', hk', hs, hnil⟩ := hk.of_ready hr
    obtain rfl := hnil rfl
    obtain rfl : rest' = [] := hs.symm
    have hd' : Leaves { d with ended := true } [] text clean := by
      obtain ⟨o, ho, hsettled, htext, hclean, -⟩ := hd
      exact ⟨o, ho, hsettled, htext, hclean, fun _ => rfl⟩
    exact hd.atEnd (by simpa using hp) ⟨[], hk', hd'⟩ hle
  | case6 d k hp he x b k' hr hlt opened cause decryptor hu =>
    obtain ⟨hle, rest', hk', rfl, -⟩ := hk.of_ready hr
    obtain ⟨hd', hfail⟩ := hd.update (by simpa using hp) he
    rw [hu] at hd' hfail
    exact .breaks (hfail (Option.some_ne_none cause)) (.inr rfl) ⟨rest', hk', hd'⟩ hle
  | case7 d k hp he x b k' hr hlt opened decryptor hu ih =>
    obtain ⟨hle, rest', hk', rfl, -⟩ := hk.of_ready hr
    obtain ⟨hd', -⟩ := hd.update (by simpa using hp) he
    rw [hu] at hd'
    exact (ih rest' hk' hd').of_le hle

end Deciphering

/-- What one read after another answers, each for at most so many bytes. -/
def Inlet.poll (i : Inlet) : List Nat → List (Attempt Bytes)
  | [] => []
  | limit :: rest => (i.read limit).1 :: (i.read limit).2.poll rest

/-- An answer that does not tell the reader to stop: some bytes, or that there are none yet. -/
def Attempt.goesOn : Attempt Bytes → Bool
  | ready b => !b.isEmpty
  | notReady => true
  | failed _ => false

/-- What a reader learns of a stream that comes to `text` and then to a clean end or not: at every
time a prefix of the text; a clean end exactly if it has all of the text, and the end is clean; and
errors only if it is not. All but some of the answers are the clean end, or errors. -/
structure Tells (text : Bytes) (clean : Prop) (waits : Nat) (answers : List (Attempt Bytes)) :
    Prop where
  handed : ∀ before, before <+: answers → before.flatMap Attempt.bytes <+: text
  ends_iff : ∀ before a, before ++ [a] <+: answers → a ≠ .notReady →
    (a = .ready [] ↔ before.flatMap Attempt.bytes = text ∧ clean)
  broken : ∀ e, .failed e ∈ answers → ¬ clean ∧ (e.kind = .unexpectedEof ∨ e.kind = .invalidData)
  bounded : (answers.filter Attempt.goesOn).length ≤ text.length + waits

namespace Tells

variable {text : Bytes} {clean : Prop} {waits : Nat} {answers : List (Attempt Bytes)}

theorem nil : Tells text clean waits [] where
  handed before h := by
    rw [List.prefix_nil.mp h]
    exact List.nil_prefix
  ends_iff before a h := by
    have := List.prefix_nil.mp h
    simp at this
  broken := nofun
  bounded := Nat.zero_le _

theorem cons {a : Attempt Bytes} {later : Bytes} {waits' : Nat} (h : Tells later clean waits' answers)
    (ht : text = a.bytes ++ later)
    (hends : a ≠ .notReady → (a = .ready [] ↔ text = [] ∧ clean))
    (hbroken : ∀ e, a = .failed e → ¬ clean ∧ (e.kind = .unexpectedEof ∨ e.kind = .invalidData))
    (hle : later.length + waits' ≤ text.length + waits)
    (hlt : a.goesOn = true → later.length + waits' < text.length + waits) :
    Tells text clean waits (a :: answers) where
  handed before hp := by
    cases before with
    | nil => exact List.nil_prefix
    | cons x before =>
      obtain ⟨rfl, hp'⟩ := List.cons_prefix_cons.mp hp
      rw [ht, List.flatMap_cons]
      exact (List.prefix_append_right_inj _).mpr (h.handed before hp')
  ends_iff before b hp hb := by
    cases before with
    | nil =>
      obtain ⟨rfl, -⟩ := List.cons_prefix_cons.mp hp
      rw [hends hb, List.flatMap_nil, eq_comm]
    | cons x before =>
      obtain ⟨rfl, hp'⟩ := List.cons_prefix_cons.mp hp
      rw [h.ends_iff before b hp' hb, ht, List.flatMap_cons, List.append_cancel_left_eq]
  broken e he := by
    rcases List.mem_cons.mp he with heq | he
    · exact hbroken e heq.symm
    · exact h.broken e he
  bounded := by
    have hb := h.bounded
    rw [List.filter_cons]
    split
    · rename_i hg
      exact Nat.lt_of_le_of_lt hb (hlt hg)
    · exact Nat.le_trans hb hle

end Tells

theorem tells_poll {d : Deciphering} {k : Source} {text : Bytes} {clean : Prop}
    (h : Deciphering.Owes clean text (d, k)) {limits : List Nat} (hl : ∀ n ∈ limits, 0 < n) :
    Tells text clean k.arrivals.length (Inlet.poll ⟨k, some d⟩ limits) := by
  induction limits generalizing d k text with
  | nil => exact .nil
  | cons limit limits ih =>
    obtain ⟨hlimit, hl⟩ := List.forall_mem_cons.mp hl
    have hread := h.read hlimit
    show Tells _ _ _ ((d.read limit k).1 ::
      Inlet.poll ⟨(d.read limit k).2.2, some (d.read limit k).2.1⟩ limits)
    generalize d.read limit k = answer at hread ⊢
    cases hread with
    | @gives b later s' hb ht ho hle =>
      have hlen : text.length = b.length + later.length := by rw [ht, List.length_append]
      have hpos := List.length_pos_iff.mpr hb
      have hlt : later.length + s'.2.arrivals.length < text.length + k.arrivals.length := by
        dsimp only at hle
        omega
      refine (ih ho hl).cons ht (fun _ => iff_of_false (fun he => ?_) (fun he => ?_))
        (fun e he => nomatch he) (Nat.le_of_lt hlt) fun _ => hlt
      · exact hb (Attempt.ready.inj he)
      · rw [he.1, List.length_nil] at hlen
        omega
    | ends ht hc ho hle =>
      exact (ih ho hl).cons ht (fun _ => iff_of_true rfl ⟨ht, hc⟩) (fun e he => nomatch he)
        (Nat.add_le_add (Nat.zero_le _) hle) nofun
    | waits ho hlt =>
      exact (ih ho hl).cons rfl (fun hn => absurd rfl hn) (fun e he => nomatch he)
        (Nat.add_le_add_left (Nat.le_of_lt hlt) _) fun _ => Nat.add_lt_add_left hlt _
    | breaks hc he ho hle =>
      refine (ih ho hl).cons rfl (fun _ => iff_of_false nofun fun h => hc h.2) (fun e h => ?_)
        (Nat.add_le_add_left hle _) nofun
      cases h
      exact ⟨hc, he⟩

/-- **A clean end is a whole stream.** Whatever has been sealed or forged, however it arrives, and
however the reader goes on after errors: what it is handed is always the front of what the stream
reveals, and it finds a clean end exactly if that is all and nothing is missing. If something is, it
finds nothing but errors in the end, and never a clean end. -/
theorem clean_end_iff_whole (key : SharedKey) {k : Source} {sealed : Bytes} (hk : k.Brings sealed)
    {limits : List Nat} (hl : ∀ n ∈ limits, 0 < n) :
    ∃ text, (∀ x, key.Reveals sealed x ↔ x = text) ∧
      Tells text (key.IsWhole sealed) k.arrivals.length
        (Inlet.poll ⟨k, some { decryptor := (key.pair false).decryptor }⟩ limits) := by
  obtain ⟨hreveals, hclean⟩ := Opener.reveals_update key sealed
  refine ⟨_, fun x => ⟨fun hx => hx.unique hreveals, ?_⟩, tells_poll ⟨sealed, hk, ?_⟩ hl⟩
  · rintro rfl
    exact hreveals
  · exact ⟨{ key }, rfl, .inl (Opener.update_nil key), rfl, hclean, nofun⟩

/-- A stream that ends inside its first header, and arrives in two pieces. -/
theorem cut_header_never_ends_cleanly :
    let key := SharedKey.ofSecret .aes128Gcm "secret"
    let sealed : Bytes := List.replicate 20 7
    let k : Source := ⟨[.chunk (sealed.take 10), .notReady, .chunk (sealed.drop 10)], true⟩
    let limits := [100, 100, 1]
    k.Brings sealed ∧ (∀ n ∈ limits, 0 < n) ∧ ¬ key.IsWhole sealed ∧
      Attempt.ready [] ∉ Inlet.poll ⟨k, some { decryptor := (key.pair false).decryptor }⟩ limits := by
  intro key sealed k limits
  have hk : k.Brings sealed := by
    have hfirst : sealed.take 10 ≠ [] := by decide
    have hlast : sealed.drop 10 ≠ [] := by decide
    refine ⟨rfl, fun a ha => ?_, rfl⟩
    simp only [k, List.mem_cons, List.not_mem_nil, or_false] at ha
    obtain rfl | rfl | rfl := ha
    · exact hfirst
    · trivial
    · exact hlast
  have hl : ∀ n ∈ limits, 0 < n := by decide
  have hw : ¬ key.IsWhole sealed := by
    rintro (hnil | ⟨-, payloads, hf⟩)
    · exact absurd hnil (by decide)
    · have hclean := (isClean_openFrames_iff _ _ _).mpr ⟨payloads, hf⟩
      rw [openFrames_of_lt (by decide)] at hclean
      exact absurd hclean.2.2 (by decide)
  obtain ⟨text, -, ht⟩ := clean_end_iff_whole key hk hl
  refine ⟨hk, hl, hw, fun hm => ?_⟩
  obtain ⟨before, after, hsplit⟩ := List.append_of_mem hm
  have hends := ht.ends_iff before (.ready []) ⟨after, by rw [hsplit, List.append_assoc]; rfl⟩ nofun
  exact hw (hends.mp rfl).2

end Channel

end SocksChain
