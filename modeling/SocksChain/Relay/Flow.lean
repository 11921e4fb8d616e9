import SocksChain.Channel.Link

/-!
One direction of a relay: everything that can be read from an inlet goes into an outlet, chunk by
chunk, each chunk written whole and flushed before the next is read. A flow whose receiver has
gone keeps reading and discards what it reads. At the end of input a flow with a receiver flushes
it and shuts it down.
-/

namespace SocksChain.Relay

open Channel

/-- The most that one read takes. -/
def chunkLimit : Nat := 65536

inductive Phase where
  | reading
  /-- `rest` is still to be written of a chunk of `size` bytes. -/
  | writing (rest : Bytes) (size : Nat)
  | flushing (size : Nat)
  | lastFlush
  | closing
  | done
  | failed (error : IoError)
deriving DecidableEq

namespace Phase

/-- How many phases may follow before something is read again. -/
def rank : Phase → Nat
  | writing _ _ => 5
  | flushing _ => 4
  | reading => 3
  | lastFlush => 2
  | closing => 1
  | done => 0
  | failed _ => 0

def unwritten : Phase → Nat
  | writing rest _ => rest.length
  | _ => 0

def isOver : Phase → Bool
  | done | failed _ => true
  | _ => false

end Phase

structure Flow where
  phase : Phase := .reading
  /-- Whether the receiver still takes what is written. -/
  active : Bool := true
  delivered : Nat := 0
  discarded : Nat := 0
deriving DecidableEq

namespace Flow

def fail (f : Flow) (e : IoError) : Flow := { f with phase := .failed e }

/-- A chunk could not be written or flushed: it counts as discarded if its receiver has gone. -/
def lose (f : Flow) (size : Nat) (e : IoError) : Flow :=
  if e.kind.peerGone then
    { f with phase := .reading, active := false, discarded := f.discarded + size }
  else f.fail e

def onRead (f : Flow) (b : Bytes) : Flow :=
  if b.isEmpty then { f with phase := if f.active then .lastFlush else .done }
  else if f.active then { f with phase := .writing b b.length }
  else { f with discarded := f.discarded + b.length }

def onWritten (f : Flow) (rest : Bytes) (size n : Nat) : Flow :=
  if n = 0 then f.lose size ⟨.writeZero, none⟩
  else if (rest.drop n).isEmpty then { f with phase := .flushing size }
  else { f with phase := .writing (rest.drop n) size }

def onFlushed (f : Flow) (size : Nat) : Flow :=
  { f with phase := .reading, delivered := f.delivered + size }

/-- One call on a channel. The first part says whether the flow can go on at once. -/
def step (f : Flow) (i : Inlet) (o : Outlet) : Bool × Flow × Inlet × Outlet :=
  match f.phase with
  | .reading =>
    match i.read chunkLimit with
    | (.ready b, i) => (true, f.onRead b, i, o)
    | (.failed e, i) => (false, f.fail e, i, o)
    | (.notReady, i) => (false, f, i, o)
  | .writing rest size =>
    match o.write rest with
    | (.ready n, o) => (true, f.onWritten rest size n, i, o)
    | (.failed e, o) => (true, f.lose size e, i, o)
    | (.notReady, o) => (false, f, i, o)
  | .flushing size =>
    match o.flush with
    | (.ready _, o) => (true, f.onFlushed size, i, o)
    | (.failed e, o) => (true, f.lose size e, i, o)
    | (.notReady, o) => (false, f, i, o)
  | .lastFlush =>
    match o.flush with
    | (.ready _, o) => (true, { f with phase := .closing }, i, o)
    | (.failed e, o) => (false, f.fail e, i, o)
    | (.notReady, o) => (false, f, i, o)
  | .closing =>
    match o.shutdown with
    | (.notReady, o) => (false, f, i, o)
    | (_, o) => (false, { f with phase := .done }, i, o)
  | .done | .failed _ => (false, f, i, o)

theorem rank_lose_lt (f : Flow) (size : Nat) (e : IoError) : (f.lose size e).phase.rank < 4 := by
  unfold lose
  split <;> simp [fail, Phase.rank]

/-- What is left of a flow gets smaller: what may be read, else the phases to come, else what is
to be written of a chunk. -/
def Shrinks (f' : Flow) (i' : Inlet) (f : Flow) (i : Inlet) : Prop :=
  i'.weight < i.weight ∨
    i'.weight = i.weight ∧
      (f'.phase.rank < f.phase.rank ∨
        f'.phase.rank = f.phase.rank ∧ f'.phase.unwritten < f.phase.unwritten)

theorem shrinks_onRead {f : Flow} {i : Inlet} (hp : f.phase = .reading) {b : Bytes}
    (h : (i.read chunkLimit).1 = .ready b) :
    Shrinks (f.onRead b) (i.read chunkLimit).2 f i := by
  have hw := Inlet.weight_add_length_le h
  unfold Shrinks
  by_cases hb : b = []
  · subst hb
    have hr : (f.onRead []).phase.rank < f.phase.rank := by
      unfold onRead
      cases f.active <;> simp [hp, Phase.rank]
    simp only [List.length_nil] at hw
    omega
  · have := List.length_pos_iff.mpr hb
    omega

theorem shrinks_onWritten {f : Flow} {i : Inlet} {rest : Bytes} {size : Nat} (n : Nat)
    (hp : f.phase = .writing rest size) : Shrinks (f.onWritten rest size n) i f i := by
  refine .inr ⟨rfl, ?_⟩
  unfold onWritten
  split
  · have := f.rank_lose_lt size ⟨.writeZero, none⟩
    have hk : f.phase.rank = 5 := by rw [hp]; rfl
    exact .inl (by omega)
  · split
    · simp [hp, Phase.rank]
    · rename_i hn hd
      refine .inr ⟨by simp [hp, Phase.rank], ?_⟩
      have hd : n < rest.length := by simpa using hd
      simp only [hp, Phase.unwritten, List.length_drop]
      omega

theorem shrinks_of_step {f : Flow} {i : Inlet} {o : Outlet} (h : (f.step i o).1 = true) :
    Shrinks (f.step i o).2.1 (f.step i o).2.2.1 f i := by
  unfold step at h ⊢
  split at h <;> rename_i hp
  · split at h <;> rename_i hr
    · have := shrinks_onRead hp (b := ‹Bytes›) (i := i) (by rw [hr])
      rwa [hr] at this
    · cases h
    · cases h
  · rename_i size
    split at h
    · exact shrinks_onWritten _ hp
    · have := f.rank_lose_lt size ‹IoError›
      have hk : f.phase.rank = 5 := by rw [hp]; rfl
      exact .inr ⟨rfl, .inl (by dsimp only; omega)⟩
    · cases h
  · rename_i size
    split at h
    · exact .inr ⟨rfl, .inl (by simp [onFlushed, hp, Phase.rank])⟩
    · have := f.rank_lose_lt size ‹IoError›
      have hk : f.phase.rank = 4 := by rw [hp]; rfl
      exact .inr ⟨rfl, .inl (by dsimp only; omega)⟩
    · cases h
  · split at h
    · exact .inr ⟨rfl, .inl (by simp [hp, Phase.rank])⟩
    · cases h
    · cases h
  · split at h <;> cases h
  · cases h
  · cases h

/-- Goes on until the flow is over or a channel is not ready. -/
def poll (f : Flow) (i : Inlet) (o : Outlet) : Flow × Inlet × Outlet :=
  match h : f.step i o with
  | (false, r) => r
  | (true, f', i', o') =>
    have hs : Shrinks f' i' f i := by
      have := shrinks_of_step (f := f) (i := i) (o := o) (by rw [h])
      rwa [h] at this
    poll f' i' o'
termination_by (i.weight, f.phase.rank, f.phase.unwritten)
decreasing_by
  rcases hs with hs | ⟨hw, hs | ⟨hr, hs⟩⟩
  · exact Prod.Lex.left _ _ hs
  · rw [hw]
    exact Prod.Lex.right _ (Prod.Lex.left _ _ hs)
  · rw [hw, hr]
    exact Prod.Lex.right _ (Prod.Lex.right _ hs)

/-- How many attempts on the channels may still find them not ready. -/
def toCome (i : Inlet) (o : Outlet) : Nat := i.toCome + o.toCome

/-- Polls for as long as the flow is not over and less and less is still to come. -/
def run (f : Flow) (i : Inlet) (o : Outlet) : Flow × Inlet × Outlet :=
  match f.poll i o with
  | (f', i', o') =>
    if f'.phase.isOver then (f', i', o')
    else if toCome i' o' < toCome i o then run f' i' o'
    else (f', i', o')
termination_by toCome i o

end Flow

end SocksChain.Relay
