import SocksChain.Bytes

/-!
The RC4 keystream. Applying it byte by byte depends only on the key and on how many bytes went
before, so a text may be given in any pieces, and applying it twice gives the text back.
-/

namespace SocksChain.Crypto

structure Rc4 where
  table : Array UInt8
  i : UInt8
  j : UInt8

namespace Rc4

def swap (t : Array UInt8) (i j : UInt8) : Array UInt8 :=
  let x := t.getD i.toNat 0
  let y := t.getD j.toNat 0
  (t.setIfInBounds i.toNat y).setIfInBounds j.toNat x

def ofKey (key : Bytes) : Rc4 :=
  let bytes := key.toArray
  let mixed := (List.range 256).foldl
    (fun (s : Array UInt8 × UInt8) n =>
      let j := s.2 + s.1.getD n 0 + bytes.getD (n % bytes.size) 0
      (swap s.1 (UInt8.ofNat n) j, j))
    ((Array.range 256).map UInt8.ofNat, 0)
  ⟨mixed.1, 0, 0⟩

/-- The next byte of the keystream. -/
def next (s : Rc4) : UInt8 × Rc4 :=
  let i := s.i + 1
  let j := s.j + s.table.getD i.toNat 0
  let t := swap s.table i j
  (t.getD (t.getD i.toNat 0 + t.getD j.toNat 0).toNat 0, ⟨t, i, j⟩)

/-- Applies the keystream; `done` holds the bytes before, the last one first. -/
def applyOnto (s : Rc4) (done : Bytes) : Bytes → Bytes × Rc4
  | [] => (done.reverse, s)
  | x :: rest => applyOnto s.next.2 ((x ^^^ s.next.1) :: done) rest

def apply (s : Rc4) (text : Bytes) : Bytes × Rc4 := s.applyOnto [] text

theorem applyOnto_eq (s : Rc4) (done b : Bytes) :
    s.applyOnto done b = (done.reverse ++ (s.apply b).1, (s.apply b).2) := by
  induction b generalizing s done with
  | nil => simp [apply, applyOnto]
  | cons x b ih =>
    have h1 : s.applyOnto done (x :: b) = s.next.2.applyOnto ((x ^^^ s.next.1) :: done) b := rfl
    have h2 : s.apply (x :: b) = s.next.2.applyOnto [x ^^^ s.next.1] b := rfl
    rw [h1, h2, ih, ih]
    simp

@[simp] theorem apply_nil (s : Rc4) : s.apply [] = ([], s) := rfl

theorem apply_cons (s : Rc4) (x : UInt8) (b : Bytes) :
    s.apply (x :: b) = ((x ^^^ s.next.1) :: (s.next.2.apply b).1, (s.next.2.apply b).2) := by
  simp only [apply, applyOnto]
  rw [applyOnto_eq]
  rfl

theorem apply_append (s : Rc4) (a b : Bytes) :
    s.apply (a ++ b) =
      ((s.apply a).1 ++ ((s.apply a).2.apply b).1, ((s.apply a).2.apply b).2) := by
  induction a generalizing s with
  | nil => rfl
  | cons x a ih => simp [apply_cons, ih]

@[simp] theorem length_apply (s : Rc4) (b : Bytes) : (s.apply b).1.length = b.length := by
  induction b generalizing s with
  | nil => rfl
  | cons x b ih => simp [apply_cons, ih]

theorem apply_apply (s : Rc4) (b : Bytes) : (s.apply (s.apply b).1).1 = b := by
  induction b generalizing s with
  | nil => rfl
  | cons x b ih =>
    have hx : x ^^^ s.next.1 ^^^ s.next.1 = x := by
      rw [UInt8.xor_assoc, UInt8.xor_self, UInt8.xor_zero]
    simp [apply_cons, ih, hx]

end Rc4

end SocksChain.Crypto
