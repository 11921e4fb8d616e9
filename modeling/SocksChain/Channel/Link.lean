import SocksChain.Channel.Sink
import SocksChain.Cipher.Session

/-!
Both halves of a channel, each with or without a cipher on top. A ciphered inlet hands out text of
whole frames only, and tells an end between frames from an end inside one. A ciphered outlet
accepts a piece of text by sealing it; what the sink does not take at once is kept, and goes out
before anything else.
-/

namespace SocksChain.Channel

/-- The most that one read takes from under a cipher. -/
def readPiece : Nat := 16384

/-- The most text that one write seals. -/
def writePiece : Nat := 65536

/-- Repeats an attempt that was not ready for as long as less and less is still to come. -/
def retry {σ α : Type} (toCome : σ → Nat) (attempt : σ → Attempt α × σ) (s : σ) :
    Option (Except IoError α) × σ :=
  match attempt s with
  | (.ready a, s') => (some (.ok a), s')
  | (.failed e, s') => (some (.error e), s')
  | (.notReady, s') => if toCome s' < toCome s then retry toCome attempt s' else (none, s')
termination_by toCome s

structure Deciphering where
  decryptor : Cipher.Decryptor
  /-- Text that has been opened and not yet read. -/
  plain : Bytes := []
  ended : Bool := false

namespace Deciphering

def brokenFrame : IoError := ⟨.unexpectedEof, some "stream ended inside an encrypted frame"⟩

/-- What a read finds once the sealed stream has ended. -/
def atEnd (d : Deciphering) : Attempt Bytes :=
  if d.decryptor.isPartial then .failed brokenFrame else .ready []

/-- Reads from under the cipher until there is text, an end or an error. -/
def read (d : Deciphering) (limit : Nat) (s : Source) : Attempt Bytes × Deciphering × Source :=
  if !d.plain.isEmpty then
    (.ready (d.plain.take limit), { d with plain := d.plain.drop limit }, s)
  else if d.ended then (d.atEnd, d, s)
  else
    match h : s.read readPiece with
    | (.notReady, s') => (.notReady, d, s')
    | (.failed e, s') => (.failed e, d, s')
    | (.ready [], s') => (d.atEnd, { d with ended := true }, s')
    | (.ready (x :: b), s') =>
      have : s'.weight < s.weight := by
        have hs : s.arrivals ≠ [] := by
          intro hn
          simp only [Source.read, hn] at h
          split at h <;> simp at h
        have hw := Source.weight_read_lt readPiece hs (by decide)
        rw [h] at hw
        exact hw
      match d.decryptor.update (x :: b) with
      | (text, some cause, decryptor) =>
        (.failed (Failure.cipher cause).toIo, { d with decryptor := decryptor, plain := text }, s')
      | (text, none, decryptor) =>
        read { d with decryptor := decryptor, plain := text } limit s'
termination_by s.weight

/-- A measure of how much text may still come of what has been received. -/
def weight (d : Deciphering) : Nat := d.decryptor.heldLength + d.plain.length

theorem weight_add_length_le {d : Deciphering} {limit : Nat} {s : Source} {b : Bytes}
    (h : (d.read limit s).1 = .ready b) :
    (d.read limit s).2.2.weight + (d.read limit s).2.1.weight + b.length ≤ s.weight + d.weight := by
  fun_induction read d limit s with
  | case1 d s hp =>
    cases h
    simp only [weight, List.length_take, List.length_drop]
    omega
  | case2 d s hp he =>
    unfold atEnd at h
    split at h
    · cases h
    · cases h
      simp
  | case3 => cases h
  | case4 => cases h
  | case5 d s hp he s' hr =>
    have hw := Source.weight_read_le s readPiece
    rw [hr] at hw
    unfold atEnd at h
    split at h
    · cases h
    · cases h
      simp only [weight, List.length_nil] at hw ⊢
      omega
  | case6 => cases h
  | case7 d s hp he x b' s' hr hlt text decryptor hu ih =>
    have hw : s'.weight + (x :: b').length ≤ s.weight := by
      have hb : (s.read readPiece).1 = .ready (x :: b') := by rw [hr]
      have := Source.weight_add_length_le hb
      rw [hr] at this
      exact this
    have hd := Cipher.Decryptor.length_update_le d.decryptor (x :: b')
    rw [hu] at hd
    have := ih h
    simp only [weight] at this hd ⊢
    omega

end Deciphering

structure Inlet where
  source : Source := {}
  layer : Option Deciphering := none

namespace Inlet

/-- At most `limit` bytes; none at the end of input. -/
def read (i : Inlet) (limit : Nat) : Attempt Bytes × Inlet :=
  match i.layer with
  | none =>
    let (r, s) := i.source.read limit
    (r, { i with source := s })
  | some d =>
    let (r, d, s) := d.read limit i.source
    (r, ⟨s, some d⟩)

def toCome (i : Inlet) : Nat := i.source.arrivals.length

/-- A measure of how much may still be read. -/
def weight (i : Inlet) : Nat :=
  i.source.weight +
    match i.layer with
    | none => 0
    | some d => d.weight

/-- What a read gives is taken off the measure. -/
theorem weight_add_length_le {i : Inlet} {limit : Nat} {b : Bytes}
    (h : (i.read limit).1 = .ready b) : (i.read limit).2.weight + b.length ≤ i.weight := by
  unfold read at h ⊢
  split at h <;> rename_i hl
  · simpa [weight, hl] using Source.weight_add_length_le h
  · have := Deciphering.weight_add_length_le h
    simpa [weight, hl] using this

end Inlet

structure Enciphering where
  encryptor : Cipher.Encryptor
  entropy : Cipher.Entropy := {}
  /-- What has been sealed and not yet been taken. -/
  sealed : Bytes := []

/-- Writes sealed bytes until the sink has them all, and gives what is left of them. -/
def drain (sealed : Bytes) (k : Sink) : Attempt Unit × Bytes × Sink :=
  if h : sealed = [] then (.ready (), [], k)
  else
    match k.write sealed with
    | (.ready 0, k) => (.failed ⟨.writeZero, none⟩, sealed, k)
    | (.ready (n + 1), k) =>
      have : (sealed.drop (n + 1)).length < sealed.length := by
        have := List.length_pos_iff.mpr h
        simp only [List.length_drop]
        omega
      drain (sealed.drop (n + 1)) k
    | (.notReady, k) => (.notReady, sealed, k)
    | (.failed e, k) => (.failed e, sealed, k)
termination_by sealed.length

structure Outlet where
  sink : Sink := {}
  layer : Option Enciphering := none

namespace Outlet

/-- Empties the cipher's buffer; without a cipher there is none. -/
def settle (o : Outlet) : Attempt Unit × Outlet :=
  match o.layer with
  | none => (.ready (), o)
  | some c =>
    let (r, sealed, k) := drain c.sealed o.sink
    (r, ⟨k, some { c with sealed := sealed }⟩)

/-- Seals a piece of text onto an empty buffer and sends what the sink takes of it. An error of
the sink is reported although the text has been sealed. -/
def accept (o : Outlet) (c : Enciphering) (text : Bytes) : Attempt Nat × Outlet :=
  let (sealed, encryptor, entropy) := c.encryptor.update c.entropy text
  match Outlet.settle ⟨o.sink, some ⟨encryptor, entropy, sealed⟩⟩ with
  | (.failed e, o) => (.failed e, o)
  | (_, o) => (.ready text.length, o)

/-- How many bytes from the front have been accepted. -/
def write (o : Outlet) (b : Bytes) : Attempt Nat × Outlet :=
  match o.layer with
  | none =>
    let (r, k) := o.sink.write b
    (r, { o with sink := k })
  | some _ =>
    match o.settle with
    | (.ready _, o) =>
      match o.layer with
      | some c => if b.isEmpty then (.ready 0, o) else o.accept c (b.take writePiece)
      | none => (.ready 0, o)
    | (.notReady, o) => (.notReady, o)
    | (.failed e, o) => (.failed e, o)

def flush (o : Outlet) : Attempt Unit × Outlet :=
  match o.settle with
  | (.ready _, o) =>
    let (r, k) := o.sink.flush
    (r, { o with sink := k })
  | r => r

def shutdown (o : Outlet) : Attempt Unit × Outlet :=
  match o.settle with
  | (.ready _, o) => (.ready (), { o with sink := o.sink.shutdown })
  | r => r

def toCome (o : Outlet) : Nat := o.sink.writes.length + o.sink.flushes.length

end Outlet

structure Link where
  inlet : Inlet := {}
  outlet : Outlet := {}

/-- Puts a pair of cipher sessions on both halves. -/
def Link.ciphered (l : Link) (p : Cipher.Pair) (e : Cipher.Entropy) : Link :=
  ⟨{ l.inlet with layer := some { decryptor := p.decryptor } },
    { l.outlet with layer := some { encryptor := p.encryptor, entropy := e } }⟩

end SocksChain.Channel
