import SocksChain.Proofs.Channel.Hearing
import SocksChain.Relay.Flow

/-!
The course of a flow: the calls it makes on its channels, each with its answer, in order. What a
flow makes of an answer is said once, by `Turns`; every poll and every run of a flow follows a
course, and a course is settled by where it begins and how long it is.
-/

namespace SocksChain.Relay

open Channel

/-- A call on a channel, and its answer. -/
inductive Act where
  | read (answer : Attempt Bytes)
  | write (b : Bytes) (answer : Attempt Nat)
  | flush (answer : Attempt Unit)
  | shutdown (answer : Attempt Unit)

namespace Act

/-- What a read has brought. -/
def got : Act → Bytes
  | read (.ready b) => b
  | _ => []

/-- What a write has brought to its receiver. -/
def given : Act → Bytes
  | write b (.ready n) => b.take n
  | _ => []

/-- The channel was not ready. -/
def Waits (a : Act) : Prop :=
  a = read .notReady ∨ (∃ b, a = write b .notReady) ∨ a = flush .notReady ∨ a = shutdown .notReady

/-- The error by which a write or a flush has failed; to take nothing of something is one too. -/
def refusal? : Act → Option IoError
  | write _ (.failed e) => some e
  | write _ (.ready 0) => some ⟨.writeZero, none⟩
  | flush (.failed e) => some e
  | _ => none

theorem got_read (answer : Attempt Bytes) : (read answer).got = answer.bytes := by
  cases answer <;> rfl

theorem got_of_waits {a : Act} (h : a.Waits) : a.got = [] := by
  rcases h with rfl | ⟨b, rfl⟩ | rfl | rfl <;> rfl

theorem given_of_waits {a : Act} (h : a.Waits) : a.given = [] := by
  rcases h with rfl | ⟨b, rfl⟩ | rfl | rfl <;> rfl

theorem got_of_refusal {a : Act} {e : IoError} (h : a.refusal? = some e) : a.got = [] := by
  unfold refusal? at h
  split at h <;> first | rfl | cases h

theorem given_of_refusal {a : Act} {e : IoError} (h : a.refusal? = some e) : a.given = [] := by
  unfold refusal? at h
  split at h <;> first | rfl | cases h

/-- What a call makes of the channels it is made on. -/
def Answered (i : Inlet) (o : Outlet) : Act → Inlet → Outlet → Prop
  | read answer, i', o' => i.read chunkLimit = (answer, i') ∧ o' = o
  | write b answer, i', o' => o.write b = (answer, o') ∧ i' = i
  | flush answer, i', o' => o.flush = (answer, o') ∧ i' = i
  | shutdown answer, i', o' => o.shutdown = (answer, o') ∧ i' = i

end Act

/-- All that the reads of a course have brought. -/
def gotten (acts : List Act) : Bytes := acts.flatMap Act.got

/-- All that the writes of a course have brought to their receiver. -/
def taken (acts : List Act) : Bytes := acts.flatMap Act.given

@[simp] theorem gotten_concat (acts : List Act) (a : Act) :
    gotten (acts ++ [a]) = gotten acts ++ a.got := by
  simp [gotten]

@[simp] theorem taken_concat (acts : List Act) (a : Act) :
    taken (acts ++ [a]) = taken acts ++ a.given := by
  simp [taken]

namespace Phase

/-- What is still to be written of the chunk that was read last. -/
def inHand : Phase → Bytes
  | writing rest _ => rest
  | _ => []

/-- The length of a chunk that has not been counted yet. -/
def uncounted : Phase → Nat
  | writing _ size => size
  | flushing size => size
  | _ => 0

/-- The length of the chunk that is on its way. -/
def chunk? : Phase → Option Nat
  | writing _ size => some size
  | flushing size => some size
  | _ => none

theorem uncounted_of_chunk {p : Phase} {size : Nat} (h : p.chunk? = some size) :
    p.uncounted = size := by
  cases p <;> cases h <;> rfl

/-- The call that is made in a phase. -/
def Calls : Phase → Act → Prop
  | reading, .read _ => True
  | writing rest _, .write b _ => b = rest
  | flushing _, .flush _ => True
  | lastFlush, .flush _ => True
  | closing, .shutdown _ => True
  | _, _ => False

end Phase

/-- What a flow makes of the answer to its call. -/
inductive Turns (f : Flow) : Act → Flow → Prop
  | waits {a : Act} : f.phase.Calls a → a.Waits → Turns f a f
  | breaks {e : IoError} : f.phase = .reading → Turns f (.read (.failed e)) (f.fail e)
  | ends : f.phase = .reading → f.active = true →
      Turns f (.read (.ready [])) { f with phase := .lastFlush }
  | stops : f.phase = .reading → f.active = false →
      Turns f (.read (.ready [])) { f with phase := .done }
  | takes {b : Bytes} : f.phase = .reading → f.active = true → b ≠ [] →
      Turns f (.read (.ready b)) { f with phase := .writing b b.length }
  | drops {b : Bytes} : f.phase = .reading → f.active = false → b ≠ [] →
      Turns f (.read (.ready b)) { f with discarded := f.discarded + b.length }
  | writes {rest : Bytes} {size n : Nat} : f.phase = .writing rest size → 0 < n →
      n < rest.length →
      Turns f (.write rest (.ready n)) { f with phase := .writing (rest.drop n) size }
  | written {rest : Bytes} {size n : Nat} : f.phase = .writing rest size → 0 < n →
      rest.length ≤ n → Turns f (.write rest (.ready n)) { f with phase := .flushing size }
  | delivers {size : Nat} : f.phase = .flushing size →
      Turns f (.flush (.ready ())) (f.onFlushed size)
  | loses {a : Act} {size : Nat} {e : IoError} : f.phase.Calls a → f.phase.chunk? = some size →
      a.refusal? = some e → e.kind.peerGone = true →
      Turns f a { f with phase := .reading, active := false, discarded := f.discarded + size }
  | fails {a : Act} {size : Nat} {e : IoError} : f.phase.Calls a → f.phase.chunk? = some size →
      a.refusal? = some e → e.kind.peerGone = false → Turns f a (f.fail e)
  | settles : f.phase = .lastFlush → Turns f (.flush (.ready ())) { f with phase := .closing }
  | cut {e : IoError} : f.phase = .lastFlush → Turns f (.flush (.failed e)) (f.fail e)
  | shuts {answer : Attempt Unit} : f.phase = .closing → answer ≠ .notReady →
      Turns f (.shutdown answer) { f with phase := .done }

theorem turns_lose {f : Flow} {a : Act} {size : Nat} {e : IoError} (hc : f.phase.Calls a)
    (hs : f.phase.chunk? = some size) (he : a.refusal? = some e) : Turns f a (f.lose size e) := by
  unfold Flow.lose
  by_cases hg : e.kind.peerGone = true
  · rw [if_pos hg]
    exact .loses hc hs he hg
  · rw [if_neg hg]
    exact .fails hc hs he (Bool.eq_false_iff.mpr hg)

theorem turns_onRead {f : Flow} (hp : f.phase = .reading) (b : Bytes) :
    Turns f (.read (.ready b)) (f.onRead b) := by
  unfold Flow.onRead
  by_cases hb : b = []
  · subst hb
    cases ha : f.active with
    | true => simpa [ha] using Turns.ends hp ha
    | false => simpa [ha] using Turns.stops hp ha
  · have he : b.isEmpty = false := List.isEmpty_eq_false_iff.mpr hb
    cases ha : f.active with
    | true => simpa [he, ha] using Turns.takes hp ha hb
    | false => simpa [he, ha] using Turns.drops hp ha hb

theorem turns_onWritten {f : Flow} {rest : Bytes} {size : Nat} (hp : f.phase = .writing rest size)
    (n : Nat) : Turns f (.write rest (.ready n)) (f.onWritten rest size n) := by
  unfold Flow.onWritten
  by_cases hn : n = 0
  · subst hn
    rw [if_pos rfl]
    exact turns_lose (by rw [hp]; exact rfl) (by rw [hp]; rfl) rfl
  · have hpos : 0 < n := Nat.pos_of_ne_zero hn
    by_cases hle : rest.length ≤ n
    · simpa [hn, hle] using Turns.written hp hpos hle
    · simpa [hn, hle] using Turns.writes hp hpos (Nat.lt_of_not_le hle)

namespace Flow

variable {f : Flow} {i : Inlet} {o : Outlet}

theorem poll_of_stop {r : Flow × Inlet × Outlet} (h : f.step i o = (false, r)) :
    f.poll i o = r := by
  rw [Flow.poll.eq_def]
  split <;> rename_i h' <;> rw [h] at h' <;> cases h'
  rfl

theorem poll_of_go {f' : Flow} {i' : Inlet} {o' : Outlet} (h : f.step i o = (true, f', i', o')) :
    f.poll i o = f'.poll i' o' := by
  rw [Flow.poll.eq_def]
  split <;> rename_i h' <;> rw [h] at h' <;> cases h'
  rfl

end Flow

/-- A flow with the channel it reads and the channel it writes. -/
abbrev Lane := Flow × Inlet × Outlet

namespace Lane

def step (l : Lane) : Bool × Lane := l.1.step l.2.1 l.2.2

def poll (l : Lane) : Lane := l.1.poll l.2.1 l.2.2

def run (l : Lane) : Lane := l.1.run l.2.1 l.2.2

def isOver (l : Lane) : Bool := l.1.phase.isOver

/-- The call that comes next, and its answer. -/
def act (l : Lane) : Option Act :=
  match l.1.phase with
  | .reading => some (.read (l.2.1.read chunkLimit).1)
  | .writing rest _ => some (.write rest (l.2.2.write rest).1)
  | .flushing _ => some (.flush l.2.2.flush.1)
  | .lastFlush => some (.flush l.2.2.flush.1)
  | .closing => some (.shutdown l.2.2.shutdown.1)
  | .done => none
  | .failed _ => none

/-- The flow turns as the answer says. -/
theorem turns_step {l : Lane} {a : Act} (h : l.act = some a) : Turns l.1 a l.step.2.1 := by
  obtain ⟨⟨phase, active, delivered, discarded⟩, i, o⟩ := l
  unfold act at h
  unfold step Flow.step
  cases phase <;> dsimp only at h ⊢ <;> cases h
  case reading =>
    match i.read chunkLimit with
    | (.ready b, _) => exact turns_onRead rfl b
    | (.failed e, _) => exact .breaks rfl
    | (.notReady, _) => exact .waits trivial (.inl rfl)
  case writing rest size =>
    match o.write rest with
    | (.ready n, _) => exact turns_onWritten rfl n
    | (.failed e, _) => exact turns_lose (show rest = rest from rfl) rfl rfl
    | (.notReady, _) => exact .waits (show rest = rest from rfl) (.inr (.inl ⟨_, rfl⟩))
  case flushing size =>
    match o.flush with
    | (.ready _, _) => exact .delivers rfl
    | (.failed e, _) => exact turns_lose trivial rfl rfl
    | (.notReady, _) => exact .waits trivial (.inr (.inr (.inl rfl)))
  case lastFlush =>
    match o.flush with
    | (.ready _, _) => exact .settles rfl
    | (.failed e, _) => exact .cut rfl
    | (.notReady, _) => exact .waits trivial (.inr (.inr (.inl rfl)))
  case closing =>
    match o.shutdown with
    | (.ready _, _) => exact .shuts rfl nofun
    | (.failed e, _) => exact .shuts rfl nofun
    | (.notReady, _) => exact .waits trivial (.inr (.inr (.inr rfl)))

/-- The channels are left as the call leaves them. -/
theorem answered_step {l : Lane} {a : Act} (h : l.act = some a) :
    a.Answered l.2.1 l.2.2 l.step.2.2.1 l.step.2.2.2 := by
  obtain ⟨⟨phase, active, delivered, discarded⟩, i, o⟩ := l
  unfold act at h
  unfold step Flow.step
  cases phase <;> dsimp only at h ⊢ <;> cases h <;> dsimp only [Act.Answered]
  case reading => rcases i.read chunkLimit with ⟨_ | _ | _, i'⟩ <;> exact ⟨rfl, rfl⟩
  case writing rest size => rcases o.write rest with ⟨_ | _ | _, o'⟩ <;> exact ⟨rfl, rfl⟩
  case flushing size => rcases o.flush with ⟨_ | _ | _, o'⟩ <;> exact ⟨rfl, rfl⟩
  case lastFlush => rcases o.flush with ⟨_ | _ | _, o'⟩ <;> exact ⟨rfl, rfl⟩
  case closing => rcases o.shutdown with ⟨_ | _ | _, o'⟩ <;> exact ⟨rfl, rfl⟩

theorem act_eq_none_iff {l : Lane} : l.act = none ↔ l.isOver = true := by
  unfold act isOver
  cases l.1.phase <;> simp [Phase.isOver]

/-- A flow that is over stays as it is. -/
theorem step_of_over {l : Lane} (h : l.isOver = true) : l.step = (false, l) := by
  obtain ⟨f, i, o⟩ := l
  have hp : f.phase.isOver = true := h
  unfold step Flow.step
  cases hf : f.phase <;> rw [hf] at hp <;> first | rfl | cases hp

/-- The calls by which a lane comes from one state to another. -/
inductive Course (l : Lane) : List Act → Lane → Prop
  | start : Course l [] l
  | next {acts : List Act} {m : Lane} {a : Act} :
      Course l acts m → m.act = some a → Course l (acts ++ [a]) m.step.2

namespace Course

variable {l m n : Lane} {xs ys acts : List Act}

theorem trans (h : l.Course xs m) (h' : m.Course ys n) : l.Course (xs ++ ys) n := by
  induction h' with
  | start => simpa using h
  | next _ ha ih => simpa using ih.next ha

theorem of_concat {a : Act} (h : l.Course (acts ++ [a]) n) :
    ∃ m, l.Course acts m ∧ m.act = some a ∧ n = m.step.2 := by
  generalize hx : acts ++ [a] = xs at h
  cases h with
  | start => simp at hx
  | next h ha =>
    obtain ⟨rfl, rfl⟩ := List.append_singleton_inj.mp hx
    exact ⟨_, h, ha, rfl⟩

/-- Every part of a course is a course. -/
theorem split (h : l.Course (xs ++ ys) n) : ∃ m, l.Course xs m ∧ m.Course ys n := by
  induction hk : ys.length generalizing ys n with
  | zero =>
    obtain rfl := List.length_eq_zero_iff.mp hk
    exact ⟨n, by simpa using h, .start⟩
  | succ k ih =>
    obtain ⟨zs, a, rfl⟩ := List.eq_nil_or_concat ys |>.resolve_left (by rintro rfl; cases hk)
    rw [List.concat_eq_append, ← List.append_assoc] at h
    obtain ⟨n', h', ha, rfl⟩ := h.of_concat
    obtain ⟨m, hm, hzs⟩ := ih h' (by simpa using hk)
    exact ⟨m, hm, by simpa using hzs.next ha⟩

/-- The same calls lead to the same state. -/
theorem unique (h : l.Course acts m) (h' : l.Course acts n) : m = n := by
  induction h generalizing n with
  | start =>
    generalize hx : ([] : List Act) = xs at h'
    cases h' with
    | start => rfl
    | next => simp at hx
  | next _ _ ih =>
    obtain ⟨n', hn, -, rfl⟩ := h'.of_concat
    rw [ih hn]

theorem of_cons {a : Act} (h : l.Course (a :: acts) n) :
    l.act = some a ∧ l.step.2.Course acts n := by
  have hsplit : l.Course ([a] ++ acts) n := h
  obtain ⟨m, hm, hacts⟩ := hsplit.split
  have hfirst : l.Course ([] ++ [a]) m := hm
  obtain ⟨k, hk, ha, rfl⟩ := hfirst.of_concat
  obtain rfl := unique .start hk
  exact ⟨ha, hacts⟩

/-- Nothing more is called once a flow is over. -/
theorem eq_nil_of_over (h : l.Course acts m) (hl : l.isOver = true) : acts = [] ∧ m = l := by
  induction h with
  | start => exact ⟨rfl, rfl⟩
  | next _ ha ih =>
    obtain ⟨-, rfl⟩ := ih
    rw [act_eq_none_iff.mpr hl] at ha
    cases ha

/-- What every turn keeps holds all along a course, of the calls so far and of the flow. -/
theorem induct {P : List Act → Flow → Prop} (h : l.Course acts m) (hstart : P [] l.1)
    (hturn : ∀ acts f a f', P acts f → Turns f a f' → P (acts ++ [a]) f') : P acts m.1 := by
  induction h with
  | start => exact hstart
  | next _ ha ih => exact hturn _ _ _ _ ih (turns_step ha)

end Course

theorem poll_of_stop {l m : Lane} (h : l.step = (false, m)) : l.poll = m := Flow.poll_of_stop h

theorem poll_of_go {l m : Lane} (h : l.step = (true, m)) : l.poll = m.poll := Flow.poll_of_go h

/-- A poll is one step after another. -/
theorem poll_induction {P : Lane → Prop} (hstop : ∀ l m, l.step = (false, m) → P l)
    (hgo : ∀ l m, l.step = (true, m) → P m → P l) (l : Lane) : P l := by
  obtain ⟨f, i, o⟩ := l
  induction f, i, o using Flow.poll.induct with
  | case1 f i o m h => exact hstop (f, i, o) m h
  | case2 f i o f' i' o' h _ ih => exact hgo (f, i, o) (f', i', o') h ih

theorem course_step (l : Lane) : ∃ acts, l.Course acts l.step.2 := by
  cases ha : l.act with
  | none =>
    rw [step_of_over (act_eq_none_iff.mp ha)]
    exact ⟨[], .start⟩
  | some a => exact ⟨[a], .next .start ha⟩

theorem course_poll (l : Lane) : ∃ acts, l.Course acts l.poll := by
  induction l using poll_induction with
  | hstop l m h =>
    rw [poll_of_stop h]
    simpa [h] using l.course_step
  | hgo l m h ih =>
    rw [poll_of_go h]
    obtain ⟨xs, hxs⟩ := l.course_step
    obtain ⟨ys, hys⟩ := ih
    rw [h] at hxs
    exact ⟨xs ++ ys, hxs.trans hys⟩

theorem run_of_over {l : Lane} (h : l.poll.isOver = true) : l.run = l.poll := by
  unfold run
  rw [Flow.run.eq_def]
  exact if_pos h

/-- What may still make a lane wait. -/
def toCome (l : Lane) : Nat := Flow.toCome l.2.1 l.2.2

theorem run_of_lt {l : Lane} (h : l.poll.isOver = false) (hlt : l.poll.toCome < l.toCome) :
    l.run = l.poll.run := by
  unfold run
  rw [Flow.run.eq_def]
  exact (if_neg (Bool.eq_false_iff.mp h)).trans (if_pos hlt)

theorem run_of_le {l : Lane} (h : l.poll.isOver = false) (hle : l.toCome ≤ l.poll.toCome) :
    l.run = l.poll := by
  unfold run
  rw [Flow.run.eq_def]
  exact (if_neg (Bool.eq_false_iff.mp h)).trans (if_neg (Nat.not_lt.mpr hle))

/-- A run is one poll after another, until the lane is over or nothing has been used up. -/
theorem run_induction {P : Lane → Prop} (hover : ∀ l : Lane, l.poll.isOver = true → P l)
    (hstuck : ∀ l : Lane, l.poll.isOver = false → l.toCome ≤ l.poll.toCome → P l)
    (hmore : ∀ l : Lane, l.poll.isOver = false → l.poll.toCome < l.toCome → P l.poll → P l)
    (l : Lane) : P l := by
  induction hk : l.toCome using Nat.strongRecOn generalizing l with
  | ind k ih =>
    subst hk
    cases ho : l.poll.isOver with
    | true => exact hover l ho
    | false =>
      by_cases hlt : l.poll.toCome < l.toCome
      · exact hmore l ho hlt (ih _ hlt _ rfl)
      · exact hstuck l ho (Nat.le_of_not_lt hlt)

/-- Every run follows a course. -/
theorem course_run (l : Lane) : ∃ acts, l.Course acts l.run := by
  induction l using run_induction with
  | hover l h =>
    rw [run_of_over h]
    exact l.course_poll
  | hstuck l h hle =>
    rw [run_of_le h hle]
    exact l.course_poll
  | hmore l h hlt ih =>
    rw [run_of_lt h hlt]
    obtain ⟨xs, hxs⟩ := l.course_poll
    obtain ⟨ys, hys⟩ := ih
    exact ⟨xs ++ ys, hxs.trans hys⟩

end Lane

end SocksChain.Relay
