import SocksChain.Proofs.Channel.Saying

/-!
Two dialogues that go on alike until something has been heard. `Alike P heard d d'` says that `d`
and `d'`, of which `heard` has been heard, do the same on every channel for as long as `P` does not
hold of all that has been heard. Whoever looks at the channel, or at what comes of the dialogues,
cannot tell them apart until then.
-/

namespace SocksChain.Channel

namespace Dialogue

variable {α β : Type} {P : Bytes → Prop} {heard : Bytes}

inductive Alike (P : Bytes → Prop) : Bytes → Dialogue α → Dialogue α → Prop
  /-- From here on they may differ. -/
  | parted {heard : Bytes} {d d' : Dialogue α} : P heard → Alike P heard d d'
  | same {heard : Bytes} {d : Dialogue α} : Alike P heard d d
  | read {heard : Bytes} {limit : Nat} {next next' : Except IoError Bytes → Dialogue α} :
      (∀ b, Alike P (heard ++ b) (next (.ok b)) (next' (.ok b))) →
      (∀ e, Alike P heard (next (.error e)) (next' (.error e))) →
      Alike P heard (.read limit next) (.read limit next')
  | write {heard x : Bytes} {next next' : Except IoError Nat → Dialogue α} :
      (∀ r, Alike P heard (next r) (next' r)) → Alike P heard (.write x next) (.write x next')
  | flush {heard : Bytes} {next next' : Except IoError Unit → Dialogue α} :
      (∀ r, Alike P heard (next r) (next' r)) → Alike P heard (.flush next) (.flush next')

/-- Behind a common first part, what follows it has to be alike. -/
theorem alike_bind {x : Dialogue α} {f f' : α → Dialogue β}
    (h : ∀ a more said, Talks x more said (.done a) → Alike P (heard ++ more) (f a) (f' a)) :
    Alike P heard (x.bind f) (x.bind f') := by
  induction x generalizing heard with
  | done a =>
    have ha := h a [] [] .here
    rwa [List.append_nil] at ha
  | read limit next ih =>
    refine .read (fun b => ih (.ok b) fun a more said ha => ?_)
      fun e => ih (.error e) fun a more said ha => h a more said (.readFails ha)
    rw [List.append_assoc]
    exact h a (b ++ more) said (.read ha)
  | write b next ih =>
    refine .write fun r => ih r fun a more said ha => ?_
    cases r with
    | error e => exact h a more said (.writeFails ha)
    | ok n => exact h a more (b.take n ++ said) (.write ha)
  | flush next ih => exact .flush fun r => ih r fun a more said ha => h a more said (.flush ha)

/-- They have come to the same, or both to nothing yet. -/
theorem Alike.value?_eq {d d' : Dialogue α} (h : Alike P heard d d') (hp : ¬ P heard) :
    d.value? = d'.value? := by
  cases h with
  | parted hh => exact absurd hh hp
  | same => rfl
  | read => rfl
  | write => rfl
  | flush => rfl

/-- What two dialogues have done on a link, if it is the same. -/
structure SameOn (l : Link) (d d' : Dialogue α) : Prop where
  hears : d.hears l = d'.hears l
  tells : d.tells l = d'.tells l
  leaves : (d.run l).2 = (d'.run l).2

section Calling

variable {l : Link}

/-- Whoever makes the same call first has done the same if it goes on the same. -/
theorem SameOn.read {limit : Nat} {next next' : Except IoError Bytes → Dialogue α}
    {r : Option (Except IoError Bytes)} {i : Inlet}
    (hr : retry Inlet.toCome (fun i => i.read limit) l.inlet = (r, i))
    (h : ∀ a, r = some a → SameOn { l with inlet := i } (next a) (next' a)) :
    SameOn l (.read limit next) (.read limit next') := by
  match r, h with
  | none, _ => constructor <;> simp only [Dialogue.hears, Dialogue.tells, run, hr]
  | some a, h =>
    obtain ⟨h₁, h₂, h₃⟩ := h a rfl
    cases a <;> constructor <;> simp only [Dialogue.hears, Dialogue.tells, run, hr, h₁, h₂, h₃]

theorem SameOn.write {b : Bytes} {next next' : Except IoError Nat → Dialogue α}
    {r : Option (Except IoError Nat)} {o : Outlet}
    (hr : retry Outlet.toCome (fun o => o.write b) l.outlet = (r, o))
    (h : ∀ a, r = some a → SameOn { l with outlet := o } (next a) (next' a)) :
    SameOn l (.write b next) (.write b next') := by
  match r, h with
  | none, _ => constructor <;> simp only [Dialogue.hears, Dialogue.tells, run, hr]
  | some a, h =>
    obtain ⟨h₁, h₂, h₃⟩ := h a rfl
    cases a <;> constructor <;> simp only [Dialogue.hears, Dialogue.tells, run, hr, h₁, h₂, h₃]

theorem SameOn.flush {next next' : Except IoError Unit → Dialogue α}
    {r : Option (Except IoError Unit)} {o : Outlet}
    (hr : retry Outlet.toCome Outlet.flush l.outlet = (r, o))
    (h : ∀ a, r = some a → SameOn { l with outlet := o } (next a) (next' a)) :
    SameOn l (.flush next) (.flush next') := by
  match r, h with
  | none, _ => constructor <;> simp only [Dialogue.hears, Dialogue.tells, run, hr]
  | some a, h =>
    obtain ⟨h₁, h₂, h₃⟩ := h a rfl
    constructor <;> simp only [Dialogue.hears, Dialogue.tells, run, hr, h₁, h₂, h₃]

end Calling

/-- A run on any link leaves them alike, and until they part nothing on it has been different. -/
theorem Alike.run (hP : ∀ a b, P a → P (a ++ b)) {d d' : Dialogue α} (h : Alike P heard d d')
    (l : Link) :
    Alike P (heard ++ d.hears l) (d.run l).1 (d'.run l).1 ∧
      (¬ P (heard ++ d.hears l) → SameOn l d d') := by
  induction h generalizing l with
  | parted hh => exact ⟨.parted (hP _ _ hh), fun hp => absurd (hP _ _ hh) hp⟩
  | same => exact ⟨.same, fun _ => ⟨rfl, rfl, rfl⟩⟩
  | read hok herr ihok iherr =>
    rename_i limit _ _
    simp only [hears, Dialogue.run]
    rcases hr : retry Inlet.toCome (fun i => i.read limit) l.inlet with ⟨_ | e | b, i⟩
    · dsimp only
      rw [List.append_nil]
      exact ⟨.read hok herr, fun _ => .read hr fun _ ho => by cases ho⟩
    · obtain ⟨ha, hs⟩ := iherr e { l with inlet := i }
      exact ⟨ha, fun hp => .read hr fun _ ho => Option.some.inj ho ▸ hs hp⟩
    · obtain ⟨ha, hs⟩ := ihok b { l with inlet := i }
      dsimp only
      rw [← List.append_assoc]
      exact ⟨ha, fun hp => .read hr fun _ ho => Option.some.inj ho ▸ hs hp⟩
  | write hn ih =>
    rename_i b _ _
    simp only [hears, Dialogue.run]
    rcases hr : retry Outlet.toCome (fun o => o.write b) l.outlet with ⟨_ | r, o⟩
    · dsimp only
      rw [List.append_nil]
      exact ⟨.write hn, fun _ => .write hr fun _ ho => by cases ho⟩
    · obtain ⟨ha, hs⟩ := ih r { l with outlet := o }
      exact ⟨ha, fun hp => .write hr fun _ ho => Option.some.inj ho ▸ hs hp⟩
  | flush hn ih =>
    simp only [hears, Dialogue.run]
    rcases hr : retry Outlet.toCome Outlet.flush l.outlet with ⟨_ | r, o⟩
    · dsimp only
      rw [List.append_nil]
      exact ⟨.flush hn, fun _ => .flush hr fun _ ho => by cases ho⟩
    · obtain ⟨ha, hs⟩ := ih r { l with outlet := o }
      exact ⟨ha, fun hp => .flush hr fun _ ho => Option.some.inj ho ▸ hs hp⟩

end Dialogue

namespace Exchange

open Dialogue

variable {α β : Type} {P : Bytes → Prop} {heard : Bytes}

theorem alike_bind {x : Exchange α} {f f' : α → Exchange β}
    (h : ∀ a more said, Talks x more said (.done (.ok a)) →
      Alike P (heard ++ more) (f a) (f' a)) :
    Alike P heard (x >>= f : Exchange β) (x >>= f' : Exchange β) :=
  Dialogue.alike_bind fun r more said hr =>
    match r, hr with
    | .ok a, hr => h a more said hr
    | .error _, _ => .same

/-- Two exchanges that send the same, and whose answers decide alike. -/
theorem alike_ask (x : Bytes) (n : Nat) {f f' : Bytes → Exchange β}
    (h : ∀ answer, Alike P (heard ++ answer) (f answer) (f' answer)) :
    Alike P heard (send x >>= fun _ => readExact n >>= f : Exchange β)
      (send x >>= fun _ => readExact n >>= f' : Exchange β) := by
  refine alike_bind fun _ more said hs => alike_bind fun answer more' said' hr => ?_
  obtain ⟨rfl, -⟩ := talks_send hs
  obtain ⟨rfl, -⟩ := eq_of_talks_readExact hr
  rw [List.append_nil]
  exact h answer

end Exchange

namespace Conversation

variable {α : Type} {P : Bytes → Prop} {c c' : Conversation α}

/-- What is left of each link on which a conversation has gone on. -/
def leaves (c : Conversation α) : List Link → List Link
  | [] => []
  | l :: links => (c.talk.run l).2 :: (c.resume l).leaves links

theorem heard_run (c : Conversation α) (links : List Link) :
    c.heard <+: (c.run links).heard := by
  induction links generalizing c with
  | nil => exact List.prefix_rfl
  | cons l links ih => exact (List.prefix_append _ _).trans (ih (c.resume l))

/-- **Alike until they part.** Conversations that have heard and said the same and go on alike have
heard and said the same, left every link the same and come to the same, whatever the links, unless
`P` holds of what has been heard. -/
theorem run_eq_of_alike (hP : ∀ a b, P a → P (a ++ b)) (h : c.talk.Alike P c.heard c'.talk)
    (hheard : c.heard = c'.heard) (hsaid : c.said = c'.said) {links : List Link}
    (hno : ¬ P (c.run links).heard) :
    (c.run links).said = (c'.run links).said ∧ c.leaves links = c'.leaves links ∧
      (c.run links).talk.value? = (c'.run links).talk.value? := by
  induction links generalizing c c' with
  | nil => exact ⟨hsaid, rfl, h.value?_eq hno⟩
  | cons l links ih =>
    obtain ⟨halike, hsame⟩ := h.run hP l
    have hfront : ¬ P (c.heard ++ c.talk.hears l) := fun hp => by
      obtain ⟨t, ht⟩ := heard_run (c.resume l) links
      exact hno (ht ▸ hP _ t hp)
    obtain ⟨hears, tells, left⟩ := hsame hfront
    have hheard' : (c.resume l).heard = (c'.resume l).heard := by
      simp only [resume, hheard, hears]
    have hsaid' : (c.resume l).said = (c'.resume l).said := by
      simp only [resume, hsaid, tells]
    obtain ⟨hs, hl, hv⟩ := ih halike hheard' hsaid' hno
    exact ⟨hs, by simp only [leaves, left, hl], hv⟩

end Conversation

end SocksChain.Channel
