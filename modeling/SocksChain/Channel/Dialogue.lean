import SocksChain.Channel.Link

/-!
Dialogues: finite trees of what one side of a channel does, each step waiting for the channel's
answer. A dialogue says nothing of when bytes arrive, so it can be run against any link at once, or
as far as the link lets it and later on from there.
-/

namespace SocksChain.Channel

inductive Dialogue (α : Type) where
  | done (a : α)
  | read (limit : Nat) (next : Except IoError Bytes → Dialogue α)
  | write (b : Bytes) (next : Except IoError Nat → Dialogue α)
  | flush (next : Except IoError Unit → Dialogue α)

namespace Dialogue

def bind {α β : Type} (d : Dialogue α) (f : α → Dialogue β) : Dialogue β :=
  match d with
  | done a => f a
  | read limit next => read limit fun r => (next r).bind f
  | write b next => write b fun r => (next r).bind f
  | flush next => flush fun r => (next r).bind f

instance : Monad Dialogue where
  pure := done
  bind := bind

/-- Goes on until the dialogue is done or the link is not ready; gives the dialogue that is left. -/
def run {α : Type} (d : Dialogue α) (l : Link) : Dialogue α × Link :=
  match d with
  | done a => (done a, l)
  | read limit next =>
    match retry Inlet.toCome (fun i => i.read limit) l.inlet with
    | (some r, i) => (next r).run { l with inlet := i }
    | (none, i) => (read limit next, { l with inlet := i })
  | write b next =>
    match retry Outlet.toCome (fun o => o.write b) l.outlet with
    | (some r, o) => (next r).run { l with outlet := o }
    | (none, o) => (write b next, { l with outlet := o })
  | flush next =>
    match retry Outlet.toCome Outlet.flush l.outlet with
    | (some r, o) => (next r).run { l with outlet := o }
    | (none, o) => (flush next, { l with outlet := o })

def value? {α : Type} : Dialogue α → Option α
  | done a => some a
  | _ => none

end Dialogue

/-- A dialogue that may fail. -/
abbrev Exchange := ExceptT Failure Dialogue

namespace Exchange

def fail {α : Type} (f : Failure) : Exchange α := Dialogue.done (.error f)

def failIo {α : Type} (e : IoError) : Exchange α := fail (.io e)

/-- At most `limit` bytes; none at the end of input. -/
def read (limit : Nat) : Exchange Bytes := ExceptT.mk <|
  .read limit fun
    | .ok b => .done (.ok b)
    | .error e => .done (.error (.io e))

def flush : Exchange Unit := ExceptT.mk <|
  .flush fun
    | .ok _ => .done (.ok ())
    | .error e => .done (.error (.io e))

theorem length_drop_succ_lt {b : Bytes} (h : b ≠ []) (n : Nat) :
    (b.drop (n + 1)).length < b.length := by
  have := List.length_pos_iff.mpr h
  simp only [List.length_drop]
  omega

/-- Writes until everything has been taken. -/
def writeAll (b : Bytes) : Exchange Unit :=
  if h : b = [] then Dialogue.done (.ok ())
  else Dialogue.write b fun
    | .error e => failIo e
    | .ok 0 => failIo ⟨.writeZero, none⟩
    | .ok (n + 1) =>
      have := length_drop_succ_lt h n
      writeAll (b.drop (n + 1))
termination_by b.length

/-- What an exchange has come to; one that still waits has found its channel not ready. -/
def result {α : Type} (x : Dialogue (Except Failure α)) : Except Failure α :=
  x.value?.getD (.error (.io ⟨.wouldBlock, none⟩))

def send (b : Bytes) : Exchange Unit := do
  writeAll b
  flush

/-- Exactly `n` bytes, in as many reads as it takes, after the bytes `got`. -/
def readOn (got : Bytes) (n : Nat) : Exchange Bytes :=
  if n = 0 then Dialogue.done (.ok got)
  else Dialogue.read n fun
    | .error e => failIo e
    | .ok [] => failIo .earlyEof
    | .ok (x :: b) => readOn (got ++ x :: b) (n - (b.length + 1))
termination_by n

def readExact (n : Nat) : Exchange Bytes := readOn [] n

def readByte : Exchange UInt8 := do
  match ← read 1 with
  | x :: _ => return x
  | [] => failIo ⟨.unexpectedEof, none⟩

end Exchange

/-- Reads `n` bytes after the bytes `got`, or as many as come, and says whether the end of input or
an error came first. -/
def Dialogue.collect (got : Bytes) (n : Nat) : Dialogue (Bytes × Option (Option IoError)) :=
  if n = 0 then .done (got, none)
  else .read n fun
    | .error e => .done (got, some (some e))
    | .ok [] => .done (got, some none)
    | .ok (x :: b) => collect (got ++ x :: b) (n - (b.length + 1))
termination_by n

end SocksChain.Channel
